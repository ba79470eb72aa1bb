/-!
Lists of keys with their values, where the first entry of a key counts. Removing the entries of
one key hides that key and no other.
-/

namespace TagMachine.Lookup

variable {Key Value : Type} [BEq Key] [LawfulBEq Key]

/-- What a key leads to once the entries of `removed` are gone. -/
theorem lookup_filter_ne
    (entries : List (Key × Value)) (removed key : Key) [Decidable (key = removed)] :
    (entries.filter (·.1 != removed)).lookup key =
      if key = removed then none else entries.lookup key := by
  induction entries with
  | nil => simp
  | cons entry rest inductionHypothesis =>
      obtain ⟨first, value⟩ := entry
      by_cases isRemoved : first = removed
      · subst isRemoved
        by_cases same : key = first
        · simp only [same, if_true] at inductionHypothesis ⊢
          simpa using inductionHypothesis
        · simp [same, List.lookup_cons, inductionHypothesis, beq_eq_false_iff_ne.mpr same]
      · by_cases same : key = first
        · subst same
          simp [isRemoved]
        · simp [isRemoved, List.lookup_cons, inductionHypothesis,
            beq_eq_false_iff_ne.mpr same]

end TagMachine.Lookup
