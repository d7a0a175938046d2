import IdtNtb.Lib.Transition
import Mathlib.Logic.Function.Basic

/-! Threads that wait on queues for conditions on a shared state. A waiter puts
itself on its queues and then tests its condition, so a wake-up between the two
is not missed; it sleeps when the test fails, and a wake-up of one of its queues
makes it test again. The calls that change the state wake queues after the
change: such a wake-up is pending until it is delivered. -/
namespace IdtNtb.WaitQueue
open Transition
variable {S A Q W : Type}

/-- `act` is a change of the state with the queues that are woken after it, and
`owes` says of a state that a call under way is still to wake a queue. -/
structure Spec (S A Q W : Type) where
  act : S → A → Option (S × List Q)
  cond : W → S → Bool
  on : W → List Q
  owes : S → Q → Prop

inductive Phase where
  | away
  | testing
  | asleep
  deriving DecidableEq

structure World (S Q W : Type) where
  state : S
  phase : W → Phase
  pending : List Q

inductive Label (A Q W : Type) where
  | act (a : A)
  | wake (q : Q)
  | enter (w : W)
  | test (w : W)
  | leave (w : W)

def World.start (s : S) : World S Q W := ⟨s, fun _ => .away, []⟩

def Spec.Coming (spec : Spec S A Q W) (s : S) (pending : List Q) (w : W) : Prop :=
  ∃ q ∈ spec.on w, q ∈ pending ∨ spec.owes s q

/-- Nobody sleeps on a condition that holds, unless a wake-up is on its way. -/
def Spec.Heeded (spec : Spec S A Q W) (s : World S Q W) : Prop :=
  ∀ w, s.phase w = .asleep → spec.cond w s.state = true → spec.Coming s.state s.pending w

/-- A change that makes a condition true wakes, or will wake, those who wait for
it, and does not forget a wake-up that was due. -/
def Spec.Alert (spec : Spec S A Q W) (s : S) (a : A) : Prop :=
  ∀ t qs, spec.act s a = some (t, qs) → ∀ w, spec.cond w t = true → spec.Coming t qs w ∨
    spec.cond w s = true ∧ ∀ q, ¬spec.owes s q

variable {spec : Spec S A Q W} {s t : World S Q W}

theorem Spec.Coming.more {state : S} (coming : spec.Coming state pending w)
    (part : ∀ q ∈ pending, q ∈ later) :
    spec.Coming state later w := by
  obtain ⟨q, member, pends | due⟩ := coming
  · exact ⟨q, member, Or.inl (part q pends)⟩
  · exact ⟨q, member, Or.inr due⟩

theorem act_heeded (held : spec.Heeded s) (alert : spec.Alert s.state a)
    (acted : spec.act s.state a = some (state, qs)) :
    spec.Heeded { s with state, pending := s.pending ++ qs } := by
  intro w asleep holds
  rcases alert state qs acted w holds with coming | ⟨before, nothing⟩
  · exact coming.more fun q member => List.mem_append_right _ member
  · obtain ⟨q, member, pends | due⟩ := held w asleep before
    · exact ⟨q, member, Or.inl (List.mem_append_left _ pends)⟩
    · exact absurd due (nothing q)

theorem start_heeded (spec : Spec S A Q W) (state : S) : spec.Heeded (.start state) := by
  intro w asleep
  contradiction

def Spec.woken [DecidableEq Q] (spec : Spec S A Q W) (q : Q) (phase : W → Phase) (w : W) : Phase :=
  if phase w = .asleep ∧ q ∈ spec.on w then .testing else phase w

/-- A change of one waiter's phase, which sleeps then only if its test failed. -/
theorem phase_heeded [DecidableEq W] (held : spec.Heeded s)
    (fails : p = .asleep → spec.cond w s.state = false) :
    spec.Heeded { s with phase := Function.update s.phase w p } := by
  intro v asleep holds
  dsimp only at asleep holds
  by_cases same : v = w
  · subst same
    rw [Function.update_self] at asleep
    rw [fails asleep] at holds
    contradiction
  · rw [Function.update_of_ne same] at asleep
    exact held v asleep holds

theorem wake_heeded [DecidableEq Q] (held : spec.Heeded s) (q : Q) :
    spec.Heeded { s with phase := spec.woken q s.phase, pending := s.pending.filter (· ≠ q) } := by
  intro w asleep holds
  simp only [Spec.woken] at asleep
  split at asleep
  · contradiction
  · rename_i unwoken
    obtain ⟨p, member, pends | due⟩ := held w asleep holds
    · have other : p ≠ q := by
        rintro rfl
        exact unwoken ⟨asleep, member⟩
      exact ⟨p, member, Or.inl (List.mem_filter.mpr ⟨pends, by simpa using other⟩)⟩
    · exact ⟨p, member, Or.inr due⟩

variable [DecidableEq Q] [DecidableEq W]

def Spec.next (spec : Spec S A Q W) (s : World S Q W) : Label A Q W → Option (World S Q W)
  | .act a =>
      (spec.act s.state a).map fun (t, qs) => { s with state := t, pending := s.pending ++ qs }
  | .wake q =>
      if q ∈ s.pending then
        some { s with phase := spec.woken q s.phase, pending := s.pending.filter (· ≠ q) }
      else none
  | .enter w =>
      if s.phase w = .away then some { s with phase := Function.update s.phase w .testing }
      else none
  | .test w =>
      if s.phase w = .testing then
        some { s with phase := Function.update s.phase w (if spec.cond w s.state then .away
          else .asleep) }
      else none
  -- A signal, or the end of the time that was given.
  | .leave w =>
      if s.phase w = .asleep then some { s with phase := Function.update s.phase w .away } else none

def Spec.step (spec : Spec S A Q W) : World S Q W → Label A Q W →
    Option (World S Q W × List Unit) :=
  silent spec.next

theorem next_heeded {l : Label A Q W} (held : spec.Heeded s)
    (alert : ∀ a, l = .act a → spec.Alert s.state a)
    (stepped : spec.next s l = some t) : spec.Heeded t := by
  cases l with
  | act a =>
    obtain ⟨⟨state, qs⟩, acted, rfl⟩ := Option.map_eq_some_iff.mp stepped
    exact act_heeded held (alert a rfl) acted
  | wake q =>
    obtain ⟨-, ⟨⟩⟩ := Option.ite_none_right_eq_some.mp stepped
    exact wake_heeded held q
  | enter w =>
    obtain ⟨-, ⟨⟩⟩ := Option.ite_none_right_eq_some.mp stepped
    exact phase_heeded held fun asleep => by contradiction
  | test w =>
    obtain ⟨-, ⟨⟩⟩ := Option.ite_none_right_eq_some.mp stepped
    refine phase_heeded held ?_
    cases spec.cond w s.state with
    | true =>
      intro asleep
      contradiction
    | false => exact fun _ => rfl
  | leave w =>
    obtain ⟨-, ⟨⟩⟩ := Option.ite_none_right_eq_some.mp stepped
    exact phase_heeded held fun asleep => by contradiction

/-- With calls that wake whom they must, no wake-up is lost. -/
theorem run_heeded (alert : ∀ s a, spec.Alert s a)
    (path : run spec.step (.start state) ls = some (s, es)) :
    spec.Heeded s := by
  refine run_preserves (P := spec.Heeded) ?_ (start_heeded spec state) (along_true _ _) path
  intro s l t es held _ stepped
  exact next_heeded held (fun a _ => alert s.state a) (silent_eq_some stepped)

end IdtNtb.WaitQueue
