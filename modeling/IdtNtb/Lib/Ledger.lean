import Mathlib.Logic.Function.Basic
import IdtNtb.Lib.Transition

/-! What one owner does with its resources. Acquiring a resource that is held
loses the earlier one, and using or releasing one that is not held is an access
to what is gone: each is a fault. A machine whose state says what it holds is
checked step by step against the ledger of what it reports. -/
namespace IdtNtb.Ledger
open Transition

inductive Deed (R : Type) where
  | acquire (r : R)
  | use (r : R)
  | release (r : R)
  deriving DecidableEq

section Replay
variable {R : Type} [DecidableEq R]

/-- What is held after a deed, unless it is a fault. -/
def Deed.after (held : R → Bool) : Deed R → Option (R → Bool)
  | .acquire r => if held r then none else some (Function.update held r true)
  | .use r => if held r then some held else none
  | .release r => if held r then some (Function.update held r false) else none

/-- What is held after the deeds, if none of them is a fault. -/
def replay (held : R → Bool) : List (Deed R) → Option (R → Bool)
  | [] => some held
  | d :: ds => (d.after held).bind fun next => replay next ds

variable {held : R → Bool}

theorem replay_append (held : R → Bool) (ds es : List (Deed R)) :
    replay held (ds ++ es) = (replay held ds).bind fun next => replay next es := by
  induction ds generalizing held with
  | nil => rfl
  | cons d ds ih =>
    rw [List.cons_append, replay, replay, Option.bind_assoc]
    exact congrArg _ (funext fun next => ih next)

theorem replay_use (present : held r = true) : replay held (.use r :: ds) = replay held ds := by
  rw [replay, Deed.after, present]
  rfl

theorem replay_uses {rs : List R} (present : ∀ r ∈ rs, held r = true) (ds : List (Deed R)) :
    replay held (rs.map .use ++ ds) = replay held ds := by
  induction rs with
  | nil => rfl
  | cons r rs ih =>
    rw [List.map_cons, List.cons_append, replay_use (present r List.mem_cons_self)]
    exact ih fun q member => present q (List.mem_cons_of_mem r member)

/-- If each step's deeds lead from what its state holds to what the next holds,
so do the deeds of a run. -/
theorem run_replays {S L E : Type} {step : S → L → Option (S × List E)} {ok : S → L → Prop}
    {P : S → Prop} (holds : S → R → Bool) (deeds : E → List (Deed R))
    (keeps : ∀ {s l t} {es : List E}, P s → ok s l → step s l = some (t, es) →
      P t ∧ replay (holds s) (es.flatMap deeds) = some (holds t))
    {s t : S} {ls : List L} {es : List E} (initial : P s) (meets : Along step ok s ls)
    (path : run step s ls = some (t, es)) :
    P t ∧ replay (holds s) (es.flatMap deeds) = some (holds t) := by
  refine run_invariant (P := fun es t => P t ∧ replay (holds s) (es.flatMap deeds) = some (holds t))
    ?_ ⟨initial, rfl⟩ meets path
  rintro before t l u es ⟨held, replayed⟩ admitted next
  obtain ⟨kept, further⟩ := keeps held admitted next
  refine ⟨kept, ?_⟩
  rw [List.flatMap_append, replay_append, replayed]
  exact further

end Replay
end IdtNtb.Ledger
