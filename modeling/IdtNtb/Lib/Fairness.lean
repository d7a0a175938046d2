import IdtNtb.Lib.Transition
import Mathlib.Data.Fintype.Basic

/-! Progress of a machine whose parties poll. A schedule is cut into rounds, and
each round gives every party that is not over at its start a step. A rank that
no step raises and every step of a ready party lowers bounds the rounds. -/
namespace IdtNtb.Fairness
open Transition
variable {S L E P : Type}

/-- Every round of the schedule, as far as it goes, has a step of each party
that is not over when the round starts. -/
def Fair (step : S → L → Option (S × List E)) (owner : L → P) (finished : S → P → Prop) :
    S → List (List L) → Prop
  | _, [] => True
  | s, ls :: rounds => (∀ p, finished s p ∨ p ∈ ls.map owner) ∧ match run step s ls with
    | none => True
    | some next => Fair step owner finished next.1 rounds

instance fair_decidable (step : S → L → Option (S × List E)) (owner : L → P)
    (finished : S → P → Prop) [Fintype P] [DecidableEq P] [∀ s p, Decidable (finished s p)] :
    ∀ s rounds, Decidable (Fair step owner finished s rounds)
  | _, [] => .isTrue trivial
  | s, ls :: rounds =>
      match path : run step s ls with
      | none =>
          decidable_of_iff (∀ p, finished s p ∨ p ∈ ls.map owner)
            (by simp only [Fair, path, and_true])
      | some next =>
          have := fair_decidable step owner finished next.1 rounds
          decidable_of_iff ((∀ p, finished s p ∨ p ∈ ls.map owner) ∧
            Fair step owner finished next.1 rounds)
            (by simp only [Fair, path])

/-- In a state that satisfies `inv`, some party is ready unless all are over; a
ready party stays so until it moves, and its moves lower the rank. -/
structure Progress (step : S → L → Option (S × List E)) (owner : L → P) (finished : S → P → Prop)
    (allowed : L → Prop) (inv : S → Prop) (ready : S → P → Prop) (rank : S → Nat) : Prop where
  keeps : ∀ {s l t es}, inv s → allowed l → step s l = some (t, es) → inv t
  idle : ∀ {s l t es}, inv s → allowed l → step s l = some (t, es) → rank t ≤ rank s
  falls : ∀ {s l t es}, inv s → allowed l → step s l = some (t, es) → ready s (owner l) →
      rank t < rank s
  stays : ∀ {s l t es p}, inv s → allowed l → step s l = some (t, es) → ready s p →
      owner l ≠ p → ready t p
  live : ∀ {s}, inv s → (∀ p, finished s p) ∨ ∃ p, ready s p ∧ ¬finished s p
  ends : ∀ {s l}, finished s (owner l) → step s l = none

variable {step : S → L → Option (S × List E)} {owner : L → P} {finished : S → P → Prop}
  {allowed : L → Prop} {inv : S → Prop} {ready : S → P → Prop} {rank : S → Nat}

theorem Progress.run_keeps (progress : Progress step owner finished allowed inv ready rank)
    (held : inv s)
    (all : ∀ l ∈ ls, allowed l) (path : run step s ls = some (t, es)) :
    inv t ∧ rank t ≤ rank s := by
  refine run_preserves (P := fun t => inv t ∧ rank t ≤ rank s) ?_ ⟨held, le_rfl⟩
    (along_labels all s) path
  intro u l v es held admitted next
  exact ⟨progress.keeps held.1 admitted next, (progress.idle held.1 admitted next).trans held.2⟩

/-- A run in which a ready party takes a step lowers the rank. -/
theorem Progress.run_falls (progress : Progress step owner finished allowed inv ready rank)
    (held : inv s)
    (all : ∀ l ∈ ls, allowed l) (path : run step s ls = some (t, es)) (waits : ready s p)
    (moves : p ∈ ls.map owner) : rank t < rank s := by
  induction ls generalizing s es with
  | nil => exact absurd moves List.not_mem_nil
  | cons l ls ih =>
    obtain ⟨middle, first, rest, head, tail, rfl⟩ := run_cons_eq_some.mp path
    have here := all l List.mem_cons_self
    have later : ∀ k ∈ ls, allowed k := fun k member => all k (List.mem_cons_of_mem l member)
    have next := progress.keeps held here head
    by_cases own : owner l = p
    · subst own
      exact (progress.run_keeps next later tail).2.trans_lt (progress.falls held here head waits)
    · rw [List.map_cons, List.mem_cons] at moves
      have after := ih next later tail (progress.stays held here head waits own)
        (moves.resolve_left (Ne.symm own))
      exact after.trans_le (progress.idle held here head)

/-- Once all parties are over nothing happens any more. -/
theorem Progress.run_over (progress : Progress step owner finished allowed inv ready rank)
    (done : ∀ p, finished s p) (path : run step s ls = some (t, es)) : t = s := by
  cases ls with
  | nil => exact (run_nil_eq_some.mp path).1.symm
  | cons l ls =>
    obtain ⟨middle, first, rest, head, -, -⟩ := run_cons_eq_some.mp path
    rw [progress.ends (done (owner l))] at head
    contradiction

/-- A fair schedule of more rounds than the rank ends with every party over. -/
theorem Progress.finishes (progress : Progress step owner finished allowed inv ready rank)
    (held : inv s)
    (fair : Fair step owner finished s rounds) (all : ∀ l ∈ rounds.flatten, allowed l)
    (path : run step s rounds.flatten = some (t, es)) (enough : rank s < rounds.length) :
    ∀ p, finished t p := by
  induction rounds generalizing s es with
  | nil => exact absurd enough (Nat.not_lt_zero _)
  | cons ls rounds ih =>
    rw [List.flatten_cons] at path all
    obtain ⟨middle, first, rest, front, back, rfl⟩ := run_append_eq_some.mp path
    obtain ⟨first_all, rest_all⟩ := List.forall_mem_append.mp all
    obtain ⟨stepped, remaining⟩ := fair
    rw [front] at remaining
    rcases progress.live held with done | ⟨p, waits, unfinished⟩
    · obtain rfl := progress.run_over done path
      exact done
    · have moves := (stepped p).resolve_left unfinished
      have lower := progress.run_falls held first_all front waits moves
      rw [List.length_cons] at enough
      exact ih (progress.run_keeps held first_all front).1 remaining rest_all back (by omega)

end IdtNtb.Fairness
