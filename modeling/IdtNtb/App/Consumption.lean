import IdtNtb.App.Bounds

/-! Who gets a received frame. `read` and RX_WAIT test `rx_avail` in one locked
section, copy without the lock and clear it in a second, whatever has become of the
frame in between. -/
namespace IdtNtb.App.Consumption
open Kernel Transition

inductive Call where
  | read (count : Nat)
  | rxWait
  deriving DecidableEq

/-- The first locked section, and what a `read` checks after it: the call goes on to
copy the frame. -/
def Call.proceeds (app : AppDev) : Call → Bool
  | .read count => count ≠ 0 && !app.removed && app.rxAvail && app.rxLen ≤ count
  | .rxWait => !app.removed && app.rxAvail

/-- Frames are numbered as they complete, from 1. `callers` are the calls between their
two locked sections, each with the frame it is to return. -/
structure Inbox (n : Nat) where
  app : AppDev
  completed : Nat
  callers : Fin n → Option Nat

inductive Label (n : Nat) where
  | complete (header : Bounds.Header) (data : Nat)
  | enter (id : Fin n) (call : Call)
  | leave (id : Fin n)
  | remove

/-- `cleared` says that `rx_avail` was set, for that frame, and is set no more. -/
inductive Event (n : Nat) where
  | returned (id : Fin n) (frame : Nat)
  | cleared (frame : Nat)
  deriving DecidableEq

namespace Inbox

def idle (app : AppDev) : Inbox n := ⟨app, 0, fun _ => none⟩

def complete (s : Inbox n) (len seq : Nat) : Inbox n :=
  { s with app := s.app.publishRx len seq, completed := s.completed + 1 }

def take (s : Inbox n) (id : Fin n) : Inbox n :=
  { s with callers := Function.update s.callers id (some s.completed) }

def leave (s : Inbox n) (id : Fin n) (frame : Nat) : Inbox n × List (Event n) :=
  (⟨s.app.retireRx, s.completed, Function.update s.callers id none⟩,
    (if s.app.rxAvail then [.cleared s.completed] else []) ++ [.returned id frame])

def step (s : Inbox n) : Label n → Option (Inbox n × List (Event n))
  | .complete header data =>
      if s.app.acceptsFrame header.magic.toNat header.len.toNat data then
        some (s.complete header.len.toNat header.seq.toNat, [])
      else some (s, [])
  | .enter id call =>
      if s.callers id = none then some (if call.proceeds s.app then s.take id else s, []) else none
  | .leave id => (s.callers id).map (s.leave id)
  | .remove => some ({ s with app := s.app.setRemoved }, [])

/-- No call takes a frame that another is about to return, and none clears `rx_avail`
for a frame that no call has taken. -/
def Exclusive (s : Inbox n) : Label n → Prop
  | .enter _ call => call.proceeds s.app = true → ∀ other, s.callers other ≠ some s.completed
  | .leave _ => s.app.rxAvail = true → ∃ other, s.callers other = some s.completed
  | _ => True

instance (s : Inbox n) : DecidablePred s.Exclusive
  | .enter _ call => inferInstanceAs
      (Decidable (call.proceeds s.app = true → ∀ other, s.callers other ≠ some s.completed))
  | .leave _ =>
      inferInstanceAs (Decidable
        (s.app.rxAvail = true → ∃ other, s.callers other = some s.completed))
  | .complete .. | .remove => .isTrue trivial

end Inbox

def returns (frame : Nat) (es : List (Event n)) : Nat :=
  es.countP fun e => match e with
    | .returned _ f => f == frame
    | .cleared _ => false

/-- Every frame is returned by at most one call, which may still be copying it; and
a frame for which `rx_avail` was cleared by one. -/
structure ConsumedOnce (es : List (Event n)) (s : Inbox n) : Prop where
  returned : ∀ frame, returns frame es ≤ 1
  held : ∀ frame id other, s.callers id = some frame → s.callers other = some frame → id = other
  either : ∀ frame id, s.callers id = some frame → returns frame es = 0
  kept : ∀ frame, .cleared frame ∈ es → 1 ≤ returns frame es ∨ ∃ id, s.callers id = some frame

/-! ## Counting -/

@[simp] theorem returns_append (frame : Nat) (es fs : List (Event n)) :
    returns frame (es ++ fs) = returns frame es + returns frame fs :=
  List.countP_append

theorem returns_leave (s : Inbox n) (id : Fin n) (held frame : Nat) :
    returns frame (s.leave id held).2 = if held = frame then 1 else 0 := by
  unfold Inbox.leave
  cases s.app.rxAvail with
  | true => simp [returns, List.countP_cons]
  | false => simp [returns, List.countP_cons]

theorem cleared_leave {s : Inbox n} {id : Fin n} : .cleared frame ∈ (s.leave id held).2 ↔
    s.app.rxAvail = true ∧ frame = s.completed := by
  unfold Inbox.leave
  cases s.app.rxAvail with
  | true => simp
  | false => simp

/-! ## The invariant -/

/-- Only completed frames are taken, returned or cleared, and a frame that is available
has not been returned. -/
structure Inv (es : List (Event n)) (s : Inbox n) : Prop where
  taken : ∀ id frame, s.callers id = some frame → frame ≤ s.completed
  known : ∀ frame, s.completed < frame → returns frame es = 0
  offered : s.app.rxAvail = true → returns s.completed es = 0

variable {s t : Inbox n} {before es : List (Event n)} {id : Fin n}

inductive Steps (s : Inbox n) : Label n → Inbox n → List (Event n) → Prop where
  | rests (app : AppDev) (same : app.rxAvail = s.app.rxAvail) (admitted : s.Exclusive l) :
      Steps s l { s with app } []
  | completes (header : Bounds.Header) (data len seq : Nat) :
      Steps s (.complete header data) (s.complete len seq) []
  | takes (id : Fin n) (call : Call) (free : s.callers id = none) (offered : s.app.rxAvail = true)
      (proceeds : call.proceeds s.app = true) : Steps s (.enter id call) (s.take id) []
  | leaves (id : Fin n) (frame : Nat) (holds : s.callers id = some frame) :
      Steps s (.leave id) (s.leave id frame).1 (s.leave id frame).2

theorem proceeds_offered {call : Call} (proceeds : call.proceeds app = true) :
    app.rxAvail = true := by
  cases call with
  | read count =>
    simp only [Call.proceeds, Bool.and_eq_true] at proceeds
    exact proceeds.1.2
  | rxWait =>
    simp only [Call.proceeds, Bool.and_eq_true] at proceeds
    exact proceeds.2

theorem step_steps (next : s.step l = some (t, es)) : Steps s l t es := by
  cases l with
  | complete header data =>
    simp only [Inbox.step] at next
    split_ifs at next with accepted
    · cases next
      exact .completes ..
    · cases next
      exact .rests s.app rfl trivial
  | enter id call =>
    obtain ⟨free, same⟩ := Option.ite_none_right_eq_some.mp next
    split_ifs at same with proceeds
    · cases same
      exact .takes id call free (proceeds_offered proceeds) proceeds
    · cases same
      exact .rests s.app rfl fun goes => absurd goes proceeds
  | leave id =>
    obtain ⟨frame, holds, same⟩ := Option.map_eq_some_iff.mp next
    cases same
    exact .leaves id frame holds
  | remove =>
    cases next
    exact .rests _ rfl trivial

theorem take_callers {other : Fin n} : (s.take id).callers other = some frame ↔
    other = id ∧ frame = s.completed ∨ other ≠ id ∧ s.callers other = some frame := by
  by_cases same : other = id
  · subst same
    simp [Inbox.take, eq_comm]
  · simp [Inbox.take, same]

theorem leave_callers {other : Fin n} : (s.leave id held).1.callers other = some frame ↔
    other ≠ id ∧ s.callers other = some frame := by
  by_cases same : other = id
  · subst same
    simp [Inbox.leave]
  · simp [Inbox.leave, same]

theorem step_inv (inv : Inv before s) (next : s.step l = some (t, es)) : Inv (before ++ es) t := by
  cases step_steps next with
  | rests app same admitted =>
    rw [List.append_nil]
    exact ⟨inv.taken, inv.known, fun offered => inv.offered (same.symm.trans offered)⟩
  | completes header data len seq =>
    rw [List.append_nil]
    refine ⟨?_, ?_, ?_⟩
    · exact fun id frame holds => Nat.le_succ_of_le (inv.taken id frame holds)
    · exact fun frame later => inv.known frame (Nat.lt_of_succ_lt later)
    · exact fun _ => inv.known _ (Nat.lt_succ_self _)
  | takes id call free offered proceeds =>
    rw [List.append_nil]
    refine ⟨?_, inv.known, inv.offered⟩
    intro other frame holds
    rcases take_callers.mp holds with ⟨-, rfl⟩ | ⟨-, before⟩
    · exact Nat.le_refl _
    · exact inv.taken other frame before
  | leaves id frame holds =>
    refine ⟨?_, ?_, nofun⟩
    · exact fun other g still => inv.taken other g (leave_callers.mp still).2
    · intro g later
      have old := inv.taken id frame holds
      have other : frame ≠ g := fun same => absurd later (by rw [← same]; exact Nat.not_lt.mpr old)
      rw [returns_append, returns_leave, if_neg other, inv.known g later]

/-! ## One step -/

theorem take_consumed_iff (inv : Inv before s) (once : ConsumedOnce before s)
    (free : s.callers id = none) (offered : s.app.rxAvail = true) :
    ConsumedOnce before (s.take id) ↔ ∀ other, s.callers other ≠ some s.completed := by
  have apart (other : Fin n) (frame : Nat) (holds : s.callers other = some frame) : other ≠ id := by
    intro same
    rw [same, free] at holds
    cases holds
  constructor
  · intro after other holds
    have different := apart other s.completed holds
    exact different (after.held s.completed other id (take_callers.mpr (Or.inr ⟨different, holds⟩))
      (take_callers.mpr (Or.inl ⟨rfl, rfl⟩)))
  · intro untaken
    refine ⟨once.returned, ?_, ?_, ?_⟩
    · intro frame one other first second
      rcases take_callers.mp first with ⟨rfl, rfl⟩ | ⟨-, earlier⟩
      · rcases take_callers.mp second with ⟨rfl, -⟩ | ⟨-, earlier⟩
        · rfl
        · exact absurd earlier (untaken other)
      · rcases take_callers.mp second with ⟨rfl, rfl⟩ | ⟨-, also⟩
        · exact absurd earlier (untaken one)
        · exact once.held frame one other earlier also
    · intro frame other holds
      rcases take_callers.mp holds with ⟨-, rfl⟩ | ⟨-, holds⟩
      · exact inv.offered offered
      · exact once.either frame other holds
    · intro frame cleared
      rcases once.kept frame cleared with returned | ⟨other, holds⟩
      · exact Or.inl returned
      · exact Or.inr ⟨other, take_callers.mpr (Or.inr ⟨apart other frame holds, holds⟩)⟩

/-- The frame a call leaves with is returned, and any other that it clears must be held. -/
theorem leave_consumed_iff (inv : Inv before s) (once : ConsumedOnce before s)
    (holds : s.callers id = some frame) :
    ConsumedOnce (before ++ (s.leave id frame).2) (s.leave id frame).1 ↔
      (s.app.rxAvail = true → ∃ other, s.callers other = some s.completed) := by
  have count (g : Nat) : returns g (before ++ (s.leave id frame).2) =
      returns g before + if frame = g then 1 else 0 := by
    rw [returns_append, returns_leave]
  -- A frame that somebody held is returned now or still held.
  have passed (g : Nat) (other : Fin n) (held : s.callers other = some g) :
      1 ≤ returns g (before ++ (s.leave id frame).2) ∨
        ∃ id', (s.leave id frame).1.callers id' = some g := by
    by_cases same : other = id
    · rw [same, holds, Option.some.injEq] at held
      left
      rw [count, if_pos held]
      exact Nat.le_add_left ..
    · exact Or.inr ⟨other, leave_callers.mpr ⟨same, held⟩⟩
  constructor
  · intro after offered
    have cleared : Event.cleared s.completed ∈ before ++ (s.leave id frame).2 :=
      List.mem_append_right _ (cleared_leave.mpr ⟨offered, rfl⟩)
    rcases after.kept s.completed cleared with returned | ⟨other, still⟩
    · rw [count, inv.offered offered, Nat.zero_add] at returned
      split_ifs at returned with same
      · exact ⟨id, holds.trans (congrArg some same)⟩
      · cases returned
    · exact ⟨other, (leave_callers.mp still).2⟩
  · intro taken
    refine ⟨?_, ?_, ?_, ?_⟩
    · intro g
      rw [count]
      split_ifs with same
      · rw [← same, once.either frame id holds]
      · exact once.returned g
    · intro g one other first second
      exact once.held g one other (leave_callers.mp first).2 (leave_callers.mp second).2
    · intro g other still
      obtain ⟨different, held⟩ := leave_callers.mp still
      have another : frame ≠ g := by
        intro same
        rw [same] at holds
        exact different (once.held g other id held holds)
      rw [count, if_neg another, once.either g other held]
    · intro g cleared
      rcases List.mem_append.mp cleared with earlier | now
      · rcases once.kept g earlier with returned | ⟨other, held⟩
        · exact Or.inl (by rw [count]; omega)
        · exact passed g other held
      · obtain ⟨offered, rfl⟩ := cleared_leave.mp now
        obtain ⟨other, held⟩ := taken offered
        exact passed _ other held

theorem step_consumed_iff (inv : Inv before s) (once : ConsumedOnce before s)
    (next : s.step l = some (t, es)) : ConsumedOnce (before ++ es) t ↔ s.Exclusive l := by
  cases step_steps next with
  | rests app same admitted =>
    rw [List.append_nil]
    exact iff_of_true ⟨once.returned, once.held, once.either, once.kept⟩ admitted
  | completes header data len seq =>
    rw [List.append_nil]
    exact iff_of_true ⟨once.returned, once.held, once.either, once.kept⟩ trivial
  | takes id call free offered proceeds =>
    rw [List.append_nil, take_consumed_iff inv once free offered]
    exact ⟨fun untaken _ => untaken, fun condition => condition proceeds⟩
  | leaves id frame holds => exact leave_consumed_iff inv once holds

/-! ## Runs -/

theorem idle_inv (app : AppDev) : Inv [] (.idle app : Inbox n) :=
  ⟨nofun, fun _ _ => rfl, fun _ => rfl⟩

theorem idle_once (app : AppDev) : ConsumedOnce [] (.idle app : Inbox n) :=
  ⟨fun _ => Nat.zero_le _, nofun, nofun, nofun⟩

/-- Throughout a run of `complete_rx` and any calls every frame is consumed once exactly when
the calls do not overlap on a frame or clear one that nobody took. -/
theorem frames_consumed_once_iff (app : AppDev)
    (path : run Inbox.step (.idle app : Inbox n) ls = some (t, es)) :
    (∀ front u fs, front <+: ls → run Inbox.step (.idle app) front = some (u, fs) →
      ConsumedOnce fs u) ↔ Along Inbox.step Inbox.Exclusive (.idle app : Inbox n) ls := by
  have invariant {front u fs}
      (reached : run Inbox.step (.idle app : Inbox n) front = some (u, fs)) : Inv fs u :=
    run_invariant (fun inv _ next => step_inv inv next) (idle_inv app) (along_true _ _) reached
  have all : ∀ l ∈ ls, (fun _ : Label n => True) l := fun _ _ => trivial
  have start : Inv [] (.idle app : Inbox n) ∧ ConsumedOnce [] (.idle app : Inbox n) :=
    ⟨idle_inv app, idle_once app⟩
  refine Iff.trans ?_ (run_exact (P := fun es s => Inv es s ∧ ConsumedOnce es s) ?_ start all path)
  · constructor
    · intro once front u fs front_of reached
      exact ⟨invariant reached, once front u fs front_of reached⟩
    · intro both front u fs front_of reached
      exact (both front u fs front_of reached).2
  · intro before s l t es held _ next
    rw [and_iff_right (step_inv held.1 next)]
    exact step_consumed_iff held.1 held.2 next

def listening : AppDev := { AppDev.probed with linkUp := true, rx := some Bounds.page }

def arrives (seq : BitVec 32) : Label n := .complete ⟨0x49544150, 64, seq⟩ 64

def callerA : Fin 2 := ⟨0, Nat.two_pos⟩

def callerB : Fin 2 := Fin.last 1

def inTurn : List (Label 2) :=
  [arrives 1, .enter callerA (.read 100), .leave callerA, .enter callerB .rxWait, arrives 2,
    .enter callerB .rxWait, .leave callerB]

theorem frames_consumed_once_inTurn :
    ∃ t, run Inbox.step (.idle listening) inTurn =
        some (t, [.cleared 1, .returned callerA 1, .cleared 2, .returned callerB 2]) ∧
      ConsumedOnce [.cleared 1, .returned callerA 1, .cleared 2, .returned callerB 2] t := by
  have outcome : (run Inbox.step (.idle listening) inTurn).map (·.2) =
      some [.cleared 1, .returned callerA 1, .cleared 2, .returned callerB 2] := by decide +kernel
  obtain ⟨⟨t, es⟩, path, rfl⟩ := Option.map_eq_some_iff.mp outcome
  have met : Along Inbox.step Inbox.Exclusive (.idle listening) inTurn := by decide +kernel
  exact ⟨t, path, (frames_consumed_once_iff listening path).mpr met _ _ _ List.prefix_rfl path⟩

def overlapping : List (Label 2) :=
  [arrives 1, .enter callerA (.read 100), .enter callerB (.read 100), .leave callerA,
    .leave callerB]

/-- A second frame completes while the first is being returned. -/
def overtaken : List (Label 2) := [arrives 1, .enter callerA (.read 100), arrives 2, .leave callerA]

/-- One frame is returned twice, and another is never returned. -/
theorem frame_returned_twice_or_lost :
    (∃ t, run Inbox.step (.idle listening) overlapping =
        some (t, [.cleared 1, .returned callerA 1, .returned callerB 1])) ∧
      ∃ t, run Inbox.step (.idle listening) overtaken =
        some (t, [.cleared 2, .returned callerA 1]) ∧
        t.completed = 2 ∧ t.app.rxAvail = false ∧ ∀ id, t.callers id = none := by
  have twice : (run Inbox.step (.idle listening) overlapping).map (·.2) =
      some [.cleared 1, .returned callerA 1, .returned callerB 1] := by decide +kernel
  have lost : (run Inbox.step (.idle listening) overtaken).map
      (fun out => (out.2, out.1.completed, out.1.app.rxAvail, out.1.callers callerA,
        out.1.callers callerB)) =
      some ([.cleared 2, .returned callerA 1], 2, false, none, none) := by decide +kernel
  obtain ⟨⟨t, es⟩, path, rfl⟩ := Option.map_eq_some_iff.mp twice
  obtain ⟨⟨t', es'⟩, path', same⟩ := Option.map_eq_some_iff.mp lost
  simp only [Prod.mk.injEq] at same
  obtain ⟨rfl, completed, avail, first, second⟩ := same
  refine ⟨⟨t, path⟩, t', path', completed, avail, ?_⟩
  intro id
  obtain rfl | rfl : id = callerA ∨ id = callerB := by
    simp only [Fin.ext_iff, callerA, callerB, Fin.val_last]
    omega
  · exact first
  · exact second

end IdtNtb.App.Consumption
