import TagMachine.Proofs.HeapCalls

/-!
# The lifetime of a string

Whatever calls are made on a heap, the ids that it gives out are one, two, three and so on, all of
them fit into a cell, and each names its string from the call that gave it out up to the first
that takes it.  At any other time the id is dead, as are the ids that were never given out.

`Recorded` is what a call keeps of the ids given out and taken so far, and `find?_afterCall` is what
it does to the strings.
-/

namespace TagMachine

namespace Heap

/-! ## What is said of a history -/

/-- The id that a call takes out of the heap. -/
def taken? (heap : Heap) : Call → Option UInt64
  | .take id => (heap.take id).toOption.map fun _ => id
  | _ => none

/-- The ids that the calls take out, in order. -/
def idsTaken (heap : Heap) : List Call → List UInt64
  | [] => []
  | call :: rest => (heap.taken? call).toList ++ (heap.afterCall call).idsTaken rest

/-- The fault of a call. -/
def fault? (heap : Heap) : Call → Option Fault
  | .alloc string =>
      match heap.alloc string with
      | .ok _ => none
      | .error fault => some fault
  | .take id =>
      match heap.take id with
      | .ok _ => none
      | .error fault => some fault
  | .get id =>
      match heap.get id with
      | .ok _ => none
      | .error fault => some fault

/-- One of the calls took the string in under the id, and no later one took the id. -/
def Alive (heap : Heap) (calls : List Call) (id : UInt64) (string : Bytes) : Prop :=
  ∃ earlier later, calls = earlier ++ .alloc string :: later ∧
    (heap.afterCalls earlier).given? (.alloc string) = some id ∧ Call.take id ∉ later

/-- What holds of a heap after a history that began without strings. -/
structure Kept (maxLive : Nat) (calls : List Call) (heap : Heap) : Prop where
  numbered : ((empty maxLive).idsGiven calls).map UInt64.toNat =
    List.range' 1 ((empty maxLive).idsGiven calls).length
  fits : ∀ id ∈ (empty maxLive).idsGiven calls, id.toNat < 0x8000000000000000
  get_ok : ∀ id string, heap.get id = .ok string ↔ (empty maxLive).Alive calls id string
  take_ok : ∀ id string,
    (∃ next, heap.take id = .ok (string, next)) ↔ (empty maxLive).Alive calls id string
  dangling : ∀ id,
    id ∈ (empty maxLive).idsTaken calls ∨ id ∉ (empty maxLive).idsGiven calls ↔
      heap.get id = .error (.danglingString id) ∧ heap.take id = .error (.danglingString id)
  live : heap.live + ((empty maxLive).idsTaken calls).length =
    ((empty maxLive).idsGiven calls).length
  live_le : heap.live ≤ maxLive
  refused : ∀ string fault, heap.alloc string = .error fault ↔
    fault = .allocationFailure ∧ (heap.live = maxLive ∨
      ((empty maxLive).idsGiven calls).length = 0x7fffffffffffffff)
  unchanged : ∀ call fault, heap.fault? call = some fault → heap.afterCall call = heap

/-- The ids given out and those taken so far, with the strings that live by them. -/
structure Recorded (maxLive : Nat) (given taken : List UInt64) (heap : Heap) : Prop where
  counted : heap.Counted given.length
  maxLive : heap.maxLive = maxLive
  numbered : given.map UInt64.toNat = List.range' 1 given.length
  taken_subset : taken ⊆ given
  alive : ∀ id, id ∈ heap.ids ↔ id ∈ given ∧ id ∉ taken
  live : heap.live + taken.length = given.length

variable {heap next : Heap} {string : Bytes} {id : UInt64} {maxLive : Nat}
  {given taken : List UInt64} {calls : List Call}

/-! ## A single call -/

theorem get_ok_iff : heap.get id = .ok string ↔ heap.find? id = some string := by
  cases found : heap.find? id <;> simp [Heap.get, found]

theorem take_ok_iff :
    (∃ next, heap.take id = .ok (string, next)) ↔ heap.find? id = some string := by
  cases found : heap.find? id <;> simp [Heap.take, found]

theorem dangling_iff :
    (heap.get id = .error (.danglingString id) ∧ heap.take id = .error (.danglingString id)) ↔
      heap.find? id = none := by
  cases found : heap.find? id <;> simp [Heap.get, Heap.take, found]

theorem afterCall_of_fault {call : Call} {fault : Fault} (failed : heap.fault? call = some fault) :
    heap.afterCall call = heap := by
  cases call with
  | alloc string =>
      cases allocated : heap.alloc string with
      | ok result => simp [fault?, allocated] at failed
      | error fault => simp only [afterCall, allocated]
  | take id =>
      cases taken : heap.take id with
      | ok result => simp [fault?, taken] at failed
      | error fault => simp only [afterCall, taken]
  | get id => rfl

/-- An id is found after a call if the call gave it out or it was found before and is not taken. -/
theorem Sound.find?_afterCall (sound : heap.Sound) (call : Call) (id : UInt64) (string : Bytes) :
    (heap.afterCall call).find? id = some string ↔
      (heap.find? id = some string ∧ call ≠ .take id) ∨
        (call = .alloc string ∧ heap.given? call = some id) := by
  cases call with
  | alloc other =>
      cases allocated : heap.alloc other with
      | error fault => simp [afterCall, given?, allocated, Except.toOption]
      | ok result =>
          rcases result with ⟨fresh, next⟩
          have unused : heap.find? fresh = none := by
            rw [(sound.alloc allocated).2.2.1]
            exact sound.find?_eq_none (Nat.le_refl _)
          simp only [afterCall, allocated, find?_of_alloc allocated, given?, Except.toOption,
            Option.map_some]
          by_cases same : id = fresh
          · simp [same, unused]
          · simp [same, Ne.symm same]
  | take other =>
      cases found : heap.find? other with
      | none =>
          simp only [afterCall, Heap.take, found, given?]
          by_cases same : id = other
          · simp [same, found]
          · simp [Ne.symm same]
      | some content =>
          rcases sound.take found with ⟨next, taken, _⟩
          simp only [afterCall, taken, find?_of_take taken, given?]
          by_cases same : id = other
          · simp [same]
          · simp [same, Ne.symm same]
  | get other => simp [afterCall, given?]

theorem recorded_empty (maxLive : Nat) : (empty maxLive).Recorded maxLive [] [] where
  counted := counted_empty maxLive
  maxLive := rfl
  numbered := rfl
  taken_subset := List.Subset.refl []
  alive := by simp [ids, empty]
  live := rfl

theorem Recorded.toNat_lt (recorded : heap.Recorded maxLive given taken) (member : id ∈ given) :
    id.toNat < heap.nextId.toNat := by
  have numbered : id.toNat ∈ List.range' 1 given.length := by
    rw [← recorded.numbered]
    exact List.mem_map_of_mem member
  rw [recorded.counted.nextId]
  rw [List.mem_range'_1] at numbered
  omega

/-- The id given out is the next one, which was neither given out nor taken before. -/
theorem Recorded.alloc (recorded : heap.Recorded maxLive given taken)
    (allocated : heap.alloc string = .ok (id, next)) :
    next.Recorded maxLive (given ++ [id]) taken := by
  rcases recorded.counted.sound.alloc allocated with ⟨_, owns, fresh, _, same⟩
  have counted := (recorded.counted.afterCall (.alloc string)).1
  simp only [afterCall, given?, allocated] at counted
  have numbered : id.toNat = given.length + 1 := by
    rw [fresh, recorded.counted.nextId]
  have ungiven : id ∉ given := by
    intro member
    have below := recorded.toNat_lt member
    rw [fresh] at below
    exact Nat.lt_irrefl _ below
  refine ⟨?_, same.trans recorded.maxLive, ?_, ?_, ?_, ?_⟩
  · rw [List.length_append]
    exact counted
  · rw [List.map_append, recorded.numbered, List.length_append, List.map_singleton, numbered,
      List.length_singleton, List.range'_concat, Nat.one_mul, Nat.add_comm 1]
  · exact List.subset_append_of_subset_left _ recorded.taken_subset
  · intro other
    rw [owns, List.mem_cons, recorded.alive, List.mem_append, List.mem_singleton]
    by_cases same : other = id
    · have untaken : id ∉ taken := fun member => ungiven (recorded.taken_subset member)
      simp [same, untaken]
    · simp [same]
  · have live := recorded.live
    rw [live_eq_length_ids, owns, List.length_cons, ← live_eq_length_ids, List.length_append,
      List.length_singleton]
    omega

/-- The id that is taken was given out before, and was not taken since. -/
theorem Recorded.take (recorded : heap.Recorded maxLive given taken)
    (moved : heap.take id = .ok (string, next)) :
    next.Recorded maxLive given (taken ++ [id]) := by
  have sound := recorded.counted.sound
  have found := find?_eq_of_take moved
  rcases sound.take found with ⟨other, movedTo, _, remaining, _, same⟩
  obtain rfl : next = other := by
    rw [moved] at movedTo
    simpa using movedTo
  have counted := (recorded.counted.afterCall (.take id)).1
  simp only [afterCall, given?, moved] at counted
  have alive : id ∈ heap.ids := by
    rw [← find?_isSome_iff, found]
    rfl
  refine ⟨counted, same.trans recorded.maxLive, recorded.numbered, ?_, ?_, ?_⟩
  · refine List.append_subset.mpr ⟨recorded.taken_subset, ?_⟩
    exact List.cons_subset.mpr ⟨((recorded.alive id).mp alive).1, List.nil_subset _⟩
  · intro other
    rw [remaining, sound.nodup.mem_erase_iff, recorded.alive, List.mem_append,
      List.mem_singleton, not_or]
    tauto
  · have live := recorded.live
    have positive := List.length_pos_of_mem alive
    rw [live_eq_length_ids] at live
    rw [live_eq_length_ids, remaining, List.length_erase_of_mem alive, List.length_append,
      List.length_singleton]
    omega

theorem Recorded.afterCall (recorded : heap.Recorded maxLive given taken) (call : Call) :
    (heap.afterCall call).Recorded maxLive (given ++ (heap.given? call).toList)
      (taken ++ (heap.taken? call).toList) := by
  cases call with
  | alloc string =>
      cases allocated : heap.alloc string with
      | ok result =>
          simpa [Heap.afterCall, given?, taken?, allocated, Except.toOption]
            using recorded.alloc allocated
      | error fault =>
          simpa [Heap.afterCall, given?, taken?, allocated, Except.toOption] using recorded
  | take id =>
      cases moved : heap.take id with
      | ok result =>
          simpa [Heap.afterCall, given?, taken?, moved, Except.toOption] using recorded.take moved
      | error fault =>
          simpa [Heap.afterCall, given?, taken?, moved, Except.toOption] using recorded
  | get id => simpa [Heap.afterCall, given?, taken?] using recorded

/-! ## Many calls -/

theorem Recorded.afterCalls (recorded : heap.Recorded maxLive given taken) (calls : List Call) :
    (heap.afterCalls calls).Recorded maxLive (given ++ heap.idsGiven calls)
      (taken ++ heap.idsTaken calls) := by
  induction calls generalizing heap given taken with
  | nil => simpa [Heap.afterCalls, idsGiven, idsTaken] using recorded
  | cons call rest inductionHypothesis =>
      have later := inductionHypothesis (recorded.afterCall call)
      rw [List.append_assoc, List.append_assoc] at later
      exact later

theorem alive_nil : ¬ heap.Alive [] id string := by
  rintro ⟨earlier, later, parts, _⟩
  simp at parts

/-- The call that took a string in is the first of the calls or one of the others. -/
theorem alive_cons {call : Call} :
    heap.Alive (call :: calls) id string ↔
      (call = .alloc string ∧ heap.given? call = some id ∧ Call.take id ∉ calls) ∨
        (heap.afterCall call).Alive calls id string := by
  constructor
  · rintro ⟨earlier, later, parts, gave, untaken⟩
    cases earlier with
    | nil =>
        obtain ⟨rfl, rfl⟩ := List.cons.inj parts
        exact .inl ⟨rfl, gave, untaken⟩
    | cons first earlier =>
        obtain ⟨rfl, rfl⟩ := List.cons.inj parts
        exact .inr ⟨earlier, later, rfl, gave, untaken⟩
  · rintro (⟨rfl, gave, untaken⟩ | ⟨earlier, later, rfl, gave, untaken⟩)
    · exact ⟨[], calls, rfl, gave, untaken⟩
    · exact ⟨call :: earlier, later, rfl, gave, untaken⟩

/-- After calls an id is found if it is alive by them, or was found and none of them takes it. -/
theorem Recorded.find?_afterCalls (recorded : heap.Recorded maxLive given taken) (calls : List Call)
    (id : UInt64) (string : Bytes) :
    (heap.afterCalls calls).find? id = some string ↔
      (heap.find? id = some string ∧ Call.take id ∉ calls) ∨ heap.Alive calls id string := by
  induction calls generalizing heap given taken with
  | nil => simp [Heap.afterCalls, alive_nil]
  | cons call rest inductionHypothesis =>
      have later := inductionHypothesis (recorded.afterCall call)
      change ((heap.afterCall call).afterCalls rest).find? id = some string ↔ _
      rw [later, recorded.counted.sound.find?_afterCall, alive_cons, List.mem_cons, not_or]
      tauto

/-- A string is refused when as many live as may, or when the ids are used up. -/
theorem Recorded.alloc_error_iff (recorded : heap.Recorded maxLive given taken) (string : Bytes)
    (fault : Fault) :
    heap.alloc string = .error fault ↔
      fault = .allocationFailure ∧ (heap.live = maxLive ∨ given.length = 0x7fffffffffffffff) := by
  have live_le := recorded.counted.live_le
  have fits := recorded.counted.sound.fits
  rw [recorded.maxLive] at live_le
  rw [recorded.counted.nextId, Cell.toNat_tagBit] at fits
  have full : (heap.maxLive ≤ heap.live ∨ tagBit ≤ heap.nextId) ↔
      (heap.live = maxLive ∨ given.length = 0x7fffffffffffffff) := by
    rw [recorded.maxLive, UInt64.le_iff_toNat_le, recorded.counted.nextId, Cell.toNat_tagBit]
    omega
  rw [alloc_eq, ← full]
  by_cases refused : heap.maxLive ≤ heap.live ∨ tagBit ≤ heap.nextId
  · simp only [refused, if_true, Except.error.injEq, and_true, eq_comm]
  · simp only [refused, if_false, and_false, reduceCtorEq]

/-- Ids count up from one and fit into a cell, and each names its string from the call that gave it
out to the first that takes it and nothing at any other time.  As many strings live as were taken
in and not taken out, which is never more than may, and a call that fails changes nothing. -/
theorem kept_afterCalls (maxLive : Nat) (calls : List Call) :
    Kept maxLive calls ((empty maxLive).afterCalls calls) := by
  have recorded := (recorded_empty maxLive).afterCalls calls
  have found := (recorded_empty maxLive).find?_afterCalls calls
  have dead (id : UInt64) : (empty maxLive).find? id = none := rfl
  simp only [List.nil_append] at recorded
  simp only [dead, reduceCtorEq, false_and, false_or] at found
  refine ⟨recorded.numbered, ?_, ?_, ?_, ?_, recorded.live, ?_, recorded.alloc_error_iff, ?_⟩
  · intro id member
    rw [← Cell.toNat_tagBit]
    exact Nat.lt_of_lt_of_le (recorded.toNat_lt member) recorded.counted.sound.fits
  · intro id string
    rw [get_ok_iff, found]
  · intro id string
    rw [take_ok_iff, found]
  · intro id
    rw [dangling_iff, ← Option.not_isSome_iff_eq_none, find?_isSome_iff, recorded.alive]
    tauto
  · exact Nat.le_trans recorded.counted.live_le (Nat.le_of_eq recorded.maxLive)
  · exact fun call fault failed => afterCall_of_fault failed

end Heap

end TagMachine
