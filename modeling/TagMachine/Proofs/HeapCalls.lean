import TagMachine.Proofs.Ownership

/-!
# A heap after any calls

Strings are taken in, moved out and looked at by calls in any order, with any ids, and a call that
fails changes nothing.  The next id counts those that have been given out and is above them all, and as
long as ids are left a heap refuses a string only when it holds as many as it may.
-/

namespace TagMachine

namespace Heap

/-- The heap with another string under the next id. -/
def added (heap : Heap) (string : Bytes) : Heap :=
  { heap with
    strings := (heap.nextId, string) :: heap.strings
    nextId := heap.nextId + 1 }

/-- What a heap is asked to do. -/
inductive Call
  | alloc (string : Bytes)
  | take (id : UInt64)
  | get (id : UInt64)
  deriving DecidableEq, Repr

/-- The heap after a call. -/
def afterCall (heap : Heap) : Call → Heap
  | .alloc string =>
      match heap.alloc string with
      | .ok (_, next) => next
      | .error _ => heap
  | .take id =>
      match heap.take id with
      | .ok (_, next) => next
      | .error _ => heap
  | .get _ => heap

/-- The id that a call gives out. -/
def given? (heap : Heap) : Call → Option UInt64
  | .alloc string => (heap.alloc string).toOption.map (·.1)
  | _ => none

/-- The heap after calls, made one after another. -/
def afterCalls (heap : Heap) (calls : List Call) : Heap :=
  calls.foldl afterCall heap

/-- The ids that the calls give out, in order. -/
def idsGiven (heap : Heap) : List Call → List UInt64
  | [] => []
  | call :: rest => (heap.given? call).toList ++ (heap.afterCall call).idsGiven rest

/-- Some strings are gone, and nothing else has changed. -/
structure Without (gone : List UInt64) (before after : Heap) : Prop where
  find? : ∀ id, after.find? id = if id ∈ gone then none else before.find? id
  live : after.live + gone.length = before.live
  nextId : after.nextId = before.nextId
  maxLive : after.maxLive = before.maxLive

/-- So many ids have been given out, all of them below the next one, and no more strings live than may. -/
structure Counted (count : Nat) (heap : Heap) : Prop where
  sound : heap.Sound
  live_le : heap.live ≤ heap.maxLive
  nextId : heap.nextId.toNat = count + 1

variable {heap next : Heap} {string : Bytes} {id : UInt64} {count : Nat}

theorem live_eq_length_ids (heap : Heap) : heap.live = heap.ids.length := by
  rw [ids, List.length_map, live]

/-! ## A single call -/

/-- A string that lives can be taken out, and is gone then. -/
theorem Sound.exists_take (sound : heap.Sound) (found : heap.find? id = some string) :
    ∃ next, heap.take id = .ok (string, next) ∧ next.Sound ∧ heap.Without [id] next := by
  rcases sound.take found with ⟨next, taken, nextSound, remaining, nextId, maxLive⟩
  have alive : id ∈ heap.ids := by
    rw [← find?_isSome_iff, found]
    rfl
  refine ⟨next, taken, nextSound, ?_, ?_, nextId, maxLive⟩
  · intro other
    simp only [find?_of_take taken, List.mem_singleton]
  · have positive := List.length_pos_of_mem alive
    rw [live_eq_length_ids, remaining, List.length_erase_of_mem alive, live_eq_length_ids,
      List.length_singleton]
    omega

/-- Another string is gone. -/
theorem Without.trans {gone : List UInt64} {last : Heap} (without : heap.Without gone next)
    (further : next.Without [id] last) :
    heap.Without (id :: gone) last where
  find? other := by
    rw [further.find?, without.find?]
    by_cases same : other = id <;> simp [same]
  live := by
    have live := without.live
    have liveFurther := further.live
    simp only [List.length_cons, List.length_nil] at liveFurther ⊢
    omega
  nextId := further.nextId.trans without.nextId
  maxLive := further.maxLive.trans without.maxLive

/-- A string is taken in as long as there is room for it and an id. -/
theorem alloc_of_room (room : heap.live < heap.maxLive) (idsLeft : heap.nextId.toNat < tagBit.toNat)
    (string : Bytes) :
    heap.alloc string = .ok (heap.nextId, heap.added string) := by
  have unrefused : ¬(heap.maxLive ≤ heap.live ∨ tagBit ≤ heap.nextId) := by
    rw [UInt64.le_iff_toNat_le]
    omega
  rw [alloc_eq, if_neg unrefused]
  rfl

theorem exists_alloc (room : heap.live < heap.maxLive) (idsLeft : heap.nextId.toNat < tagBit.toNat)
    (string : Bytes) :
    ∃ next, heap.alloc string = .ok (heap.nextId, next) ∧ next.live = heap.live + 1 :=
  ⟨_, alloc_of_room room idsLeft string, rfl⟩

/-! ## Many calls -/

theorem counted_empty (maxLive : Nat) : (empty maxLive).Counted 0 :=
  ⟨sound_empty maxLive, Nat.zero_le maxLive, rfl⟩

/-- A call counts the id that it gives out, which is the next one. -/
theorem Counted.afterCall (counted : heap.Counted count) (call : Call) :
    (heap.afterCall call).Counted (count + (heap.given? call).toList.length) ∧
      ∀ id, heap.given? call = some id → id = heap.nextId := by
  cases call with
  | alloc string =>
      cases allocated : heap.alloc string with
      | error fault =>
          simp only [Heap.afterCall, given?, allocated]
          exact ⟨counted, fun id none => by cases none⟩
      | ok result =>
          rcases result with ⟨id, next⟩
          rcases counted.sound.alloc allocated with ⟨sound, owns, fresh, nextId, maxLive⟩
          have room : heap.live < heap.maxLive := by
            rw [alloc_eq] at allocated
            split at allocated
            · cases allocated
            · rename_i unrefused
              exact Nat.lt_of_not_le (not_or.mp unrefused).1
          simp only [Heap.afterCall, given?, allocated]
          refine ⟨⟨sound, ?_, ?_⟩, fun other same => ?_⟩
          · rw [live_eq_length_ids, owns, List.length_cons, ← live_eq_length_ids, maxLive]
            exact room
          · rw [nextId, counted.nextId]
            rfl
          · rw [← fresh]
            exact (Option.some.inj same).symm
  | take id =>
      refine ⟨?_, fun _ none => by cases none⟩
      cases found : heap.find? id with
      | none =>
          simp only [Heap.afterCall, Heap.take, found]
          exact counted
      | some string =>
          rcases counted.sound.exists_take found with ⟨next, taken, sound, without⟩
          simp only [Heap.afterCall, taken]
          refine ⟨sound, ?_, ?_⟩
          · have live := without.live
            have live_le := counted.live_le
            rw [without.maxLive]
            omega
          · rw [without.nextId]
            exact counted.nextId
  | get id => exact ⟨counted, fun _ none => by cases none⟩

theorem Counted.afterCalls (counted : heap.Counted count) (calls : List Call) :
    (heap.afterCalls calls).Counted (count + (heap.idsGiven calls).length) ∧
      ∀ id ∈ heap.idsGiven calls, id.toNat < (heap.afterCalls calls).nextId.toNat := by
  induction calls generalizing heap count with
  | nil => exact ⟨counted, by simp [idsGiven]⟩
  | cons call rest inductionHypothesis =>
      rcases counted.afterCall call with ⟨countedNext, given⟩
      rcases inductionHypothesis countedNext with ⟨countedLast, later⟩
      rw [idsGiven, List.length_append, ← Nat.add_assoc]
      refine ⟨countedLast, fun id member => ?_⟩
      rcases List.mem_append.mp member with here | there
      · have first := given id (by simpa using here)
        have last := countedLast.nextId
        have start := counted.nextId
        have one : (heap.given? call).toList.length = 1 := by
          rw [Option.mem_toList.mp here]
          rfl
        change id.toNat < ((heap.afterCall call).afterCalls rest).nextId.toNat
        rw [first, start]
        omega
      · exact later id there

/-- Where a string has gone another is taken in, as long as an id is left. -/
theorem Counted.exists_alloc_without {gone : List UInt64} (counted : heap.Counted count)
    (without : heap.Without gone next) (idsLeft : heap.nextId.toNat < tagBit.toNat)
    (someGone : gone ≠ []) (string : Bytes) :
    ∃ last, next.alloc string = .ok (heap.nextId, last) ∧
      last.find? heap.nextId = some string ∧ last.live + gone.length = heap.live + 1 := by
  have live := without.live
  have live_le := counted.live_le
  have positive := List.length_pos_of_ne_nil someGone
  have room : next.live < next.maxLive := by
    rw [without.maxLive]
    omega
  rcases exists_alloc room (by rwa [without.nextId]) string with ⟨last, allocated, grown⟩
  rw [without.nextId] at allocated
  refine ⟨last, allocated, ?_, ?_⟩
  · rw [find?_of_alloc allocated, if_pos rfl]
  · omega

/-- An id that is yet to be given out has not been given out. -/
theorem Counted.nextId_not_mem (counted : heap.Counted count) (calls : List Call) :
    (heap.afterCalls calls).nextId ∉ heap.idsGiven calls :=
  fun member => Nat.lt_irrefl _ ((counted.afterCalls calls).2 _ member)

end Heap

end TagMachine
