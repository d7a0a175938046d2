import Mathlib.Data.List.Basic

/-! What a history of events leaves outstanding: an event of one kind with no
event of another kind after it. Nothing here refers to a particular machine. -/
namespace IdtNtb.History
variable {E : Type} {opens closes : E → Prop}

/-- Some event opens the matter and no later one closes it. -/
def Outstanding (opens closes : E → Prop) (es : List E) : Prop :=
  ∃ before e after, es = before ++ e :: after ∧ opens e ∧ ∀ later ∈ after, ¬closes later

theorem outstanding_cons :
    Outstanding opens closes (e :: es) ↔
      Outstanding opens closes es ∨ opens e ∧ ∀ later ∈ es, ¬closes later := by
  constructor
  · rintro ⟨before, f, after, same, opened, kept⟩
    cases before with
    | nil =>
      obtain ⟨rfl, rfl⟩ := List.cons.inj same
      exact Or.inr ⟨opened, kept⟩
    | cons first before => exact Or.inl ⟨before, f, after, (List.cons.inj same).2, opened, kept⟩
  · rintro (⟨before, f, after, rfl, opened, kept⟩ | ⟨opened, kept⟩)
    · exact ⟨e :: before, f, after, rfl, opened, kept⟩
    · exact ⟨[], e, es, rfl, opened, kept⟩

theorem not_outstanding_nil : ¬Outstanding opens closes [] := by
  rintro ⟨before, e, after, same, _⟩
  simp at same

theorem outstanding_append :
    Outstanding opens closes (es ++ fs) ↔
      Outstanding opens closes fs ∨ Outstanding opens closes es ∧ ∀ f ∈ fs, ¬closes f := by
  constructor
  · rintro ⟨before, e, after, same, opened, kept⟩
    rcases List.append_eq_append_iff.mp same with ⟨middle, rfl, rest⟩ | ⟨middle, rfl, rest⟩
    · exact Or.inl ⟨middle, e, after, rest, opened, kept⟩
    · cases middle with
      | nil => exact Or.inl ⟨[], e, after, rest.symm, opened, kept⟩
      | cons first middle =>
        obtain ⟨rfl, rfl⟩ := List.cons.inj rest
        refine Or.inr ⟨⟨before, e, middle, rfl, opened, ?_⟩, ?_⟩
        · intro later member
          exact kept later (List.mem_append_left _ member)
        · intro f member
          exact kept f (List.mem_append_right _ member)
  · rintro (⟨before, e, after, rfl, opened, kept⟩ | ⟨⟨before, e, after, rfl, opened, kept⟩, quiet⟩)
    · exact ⟨es ++ before, e, after, (List.append_assoc ..).symm, opened, kept⟩
    · refine ⟨before, e, after ++ fs, by simp, opened, ?_⟩
      intro later member
      rcases List.mem_append.mp member with earlier | last
      · exact kept later earlier
      · exact quiet later last

theorem outstanding_singleton {e : E} : Outstanding opens closes [e] ↔ opens e := by
  rw [outstanding_cons]
  simp [not_outstanding_nil]

theorem outstanding_append_one {e : E} :
    Outstanding opens closes (es ++ [e]) ↔
      opens e ∨ Outstanding opens closes es ∧ ¬closes e := by
  rw [outstanding_append, outstanding_singleton]
  simp

/-- Nothing is outstanding right after an event that closes. -/
theorem not_outstanding_closed {e : E} (closed : closes e) (apart : ¬opens e) :
    ¬Outstanding opens closes (es ++ [e]) := by
  rw [outstanding_append_one]
  rintro (opened | ⟨_, kept⟩)
  · exact apart opened
  · exact kept closed

/-- Events that neither open nor close. -/
theorem outstanding_apart (apart : ∀ f ∈ fs, ¬opens f ∧ ¬closes f) :
    Outstanding opens closes (es ++ fs) ↔ Outstanding opens closes es := by
  rw [outstanding_append]
  constructor
  · rintro (⟨before, e, after, rfl, opened, _⟩ | ⟨kept, _⟩)
    · exact absurd opened (apart e (by simp)).1
    · exact kept
  · intro kept
    exact Or.inr ⟨kept, fun f member => (apart f member).2⟩

instance outstanding_decidable [DecidablePred opens] [DecidablePred closes] :
    ∀ es : List E, Decidable (Outstanding opens closes es)
  | [] => .isFalse not_outstanding_nil
  | _ :: es =>
      have := outstanding_decidable es
      decidable_of_iff _ outstanding_cons.symm

end IdtNtb.History
