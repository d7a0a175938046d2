import IdtNtb.App.Bounds
import IdtNtb.Lib.WaitQueue

/-! Callers of `ntb_idt_app` that sleep. `read` and RX_WAIT wait on `read_wq` for a
frame, `write` and TX_COMMIT on `write_wq` for the peer, and `poll` on both; every
one of them also ends when the module goes. -/
namespace IdtNtb.App.Waiting
open Kernel Transition WaitQueue Bounds

inductive Queue where
  | read
  | write
  deriving DecidableEq

inductive Wait where
  | readable
  | writable
  | poll
  deriving DecidableEq

def Wait.cond (app : AppDev) : Wait → Bool
  | .readable => app.canRead
  | .writable => app.canWrite
  | .poll => app.canRead || app.canWrite

def Wait.queues : Wait → List Queue
  | .readable => [.read]
  | .writable => [.write]
  | .poll => [.read, .write]

/-- `try_setup_peer_locked` wakes the writers when the window stands. -/
def trySetupWakes (ntb : Ntb) (app : AppDev) : List Queue :=
  if app.peerXlat = 0 ∨ app.peerSize = 0 then []
  else match (app.setupPeerMw ntb).2 with
    | .error _ => []
    | .ok () => [.write]

def wakes (s : Host n) : Bounds.Label n → List Queue
  | .service .. => if s.app.removed then [] else [.write]
  | .recv (.size data) ntb _ => trySetupWakes ntb { s.app with peerSize := data }
  | .recv (.xlat data) ntb _ => trySetupWakes ntb { s.app with peerXlat := data }
  | .recv (.kick data) _ header =>
      if s.app.acceptsFrame header.magic.toNat header.len.toNat data then [.read] else []
  | .remove => [.read, .write]
  | _ => []

/-- The driver with callers that wait as `kind` says. -/
def waits (kind : W → Wait) : Spec (Host n) (Bounds.Label n) Queue W where
  act s l := (step s l).map fun (t, _) => (t, wakes s l)
  cond w s := (kind w).cond s.app
  on w := (kind w).queues
  owes _ _ := False

structure Same (app after : AppDev) : Prop where
  removed : after.removed = app.removed
  linkUp : after.linkUp = app.linkUp
  peerReady : after.peerReady = app.peerReady
  rxAvail : after.rxAvail = app.rxAvail

variable {app after : AppDev} {ntb : Ntb} {s t : Host n}

theorem Same.refl (app : AppDev) : Same app app := ⟨rfl, rfl, rfl, rfl⟩

theorem Same.cond (same : Same app after) (wait : Wait) : wait.cond after = wait.cond app := by
  cases wait <;>
    simp only [Wait.cond, AppDev.canRead, AppDev.canWrite, same.removed, same.linkUp,
      same.peerReady, same.rxAvail]

/-- A wake-up of `write_wq` suffices where the frame and the removal are as before. -/
theorem coming_write (removed : after.removed = app.removed) (rxAvail : after.rxAvail = app.rxAvail)
    (wait : Wait) (holds : wait.cond after = true) :
    .write ∈ wait.queues ∨ wait.cond app = true := by
  cases wait with
  | readable =>
    simp only [Wait.cond, AppDev.canRead, removed, rxAvail] at holds ⊢
    exact Or.inr holds
  | writable => exact Or.inl (by decide)
  | poll => exact Or.inl (by decide)

/-- A wake-up of `read_wq` suffices where only the frame is new. -/
theorem coming_read (removed : after.removed = app.removed) (linkUp : after.linkUp = app.linkUp)
    (peerReady : after.peerReady = app.peerReady) (wait : Wait) (holds : wait.cond after = true) :
    .read ∈ wait.queues ∨ wait.cond app = true := by
  cases wait with
  | writable =>
    simp only [Wait.cond, AppDev.canWrite, removed, linkUp, peerReady] at holds ⊢
    exact Or.inr holds
  | readable => exact Or.inl (by decide)
  | poll => exact Or.inl (by decide)

/-- Either the attempt changes nothing that a caller waits for, or it wakes the
writers and leaves the readers' condition alone. -/
theorem trySetup_wakes (ntb : Ntb) (app : AppDev) :
    Same app (app.trySetupPeerLocked ntb) ∨
      trySetupWakes ntb app = [.write] ∧ (app.trySetupPeerLocked ntb).removed = app.removed ∧
        (app.trySetupPeerLocked ntb).rxAvail = app.rxAvail := by
  unfold AppDev.trySetupPeerLocked trySetupWakes
  by_cases unknown : app.peerXlat = 0 ∨ app.peerSize = 0
  · rw [if_pos unknown]
    exact Or.inl (.refl app)
  simp only [if_neg unknown, AppDev.setupPeerMw]
  by_cases small : app.peerXlat = 0 ∨ app.peerSize ≤ frameSize
  · simp only [if_pos small]
    exact Or.inl (.refl app)
  · simp only [if_neg small]
    rcases ntb.peerMwGetAddr with e | ⟨phys, mapSize⟩
    · exact Or.inl ⟨rfl, rfl, rfl, rfl⟩
    · rcases ntb.peerMwSetTrans app.peerXlat app.peerSize with e | done
      · exact Or.inl ⟨rfl, rfl, rfl, rfl⟩
      · cases ntb.ioremap with
        | false => exact Or.inl ⟨rfl, rfl, rfl, rfl⟩
        | true => exact Or.inr ⟨rfl, rfl, rfl⟩

theorem setupInboundMw_same (done : app.setupInboundMw ntb bufferSize = .ok after) :
    Same app after := by
  obtain ⟨buffer, rfl, -⟩ := AppDev.setupInboundMw_ok done
  exact ⟨rfl, rfl, rfl, rfl⟩

theorem service_same (s : Host n) (up : Bool) (ntb : Ntb) (bufferSize : Nat) :
    (service s up ntb bufferSize).app.removed = s.app.removed ∧
      (service s up ntb bufferSize).app.rxAvail = s.app.rxAvail := by
  unfold service
  split_ifs
  · exact ⟨rfl, rfl⟩
  · dsimp only
    split
    · exact ⟨rfl, rfl⟩
    · rename_i app allocated
      have same := setupInboundMw_same allocated
      exact ⟨same.removed, same.rxAvail⟩
  · exact ⟨rfl, rfl⟩

/-- What a step of the driver amounts to for those who wait: nothing, a wake-up of
the queue that its change concerns, or the removal. -/
inductive Effect (app after : AppDev) : List Queue → Prop
  | unchanged (same : Same app after) : Effect app after qs
  | frame (removed : after.removed = app.removed) (linkUp : after.linkUp = app.linkUp)
      (peerReady : after.peerReady = app.peerReady) : Effect app after [.read]
  | peer (removed : after.removed = app.removed) (rxAvail : after.rxAvail = app.rxAvail) :
      Effect app after [.write]
  | taken (removed : after.removed = app.removed) (linkUp : after.linkUp = app.linkUp)
      (peerReady : after.peerReady = app.peerReady) (rxAvail : after.rxAvail = false) :
      Effect app after qs
  | gone : Effect app after [.read, .write]

theorem recv_effect (app : AppDev) (command : Command) (ntb : Ntb) (header : Header) (s : Host n)
    (same : s.app = app) :
    Effect app (handle app ntb header command) (wakes s (.recv command ntb header)) := by
  subst same
  cases command with
  | size data =>
    rcases trySetup_wakes ntb { s.app with peerSize := data } with same | ⟨woken, removed, rxAvail⟩
    · exact .unchanged ⟨same.removed, same.linkUp, same.peerReady, same.rxAvail⟩
    · simp only [wakes, woken]
      exact .peer removed rxAvail
  | xlat data =>
    rcases trySetup_wakes ntb { s.app with peerXlat := data } with same | ⟨woken, removed, rxAvail⟩
    · exact .unchanged ⟨same.removed, same.linkUp, same.peerReady, same.rxAvail⟩
    · simp only [wakes, woken]
      exact .peer removed rxAvail
  | kick data =>
    simp only [handle, completeRx, wakes]
    split
    · exact .frame rfl rfl rfl
    · exact .unchanged (.refl _)
  | unknown cmd data => exact .unchanged (.refl _)

theorem txCommit_same (app : AppDev) (len : Nat) : Same app (txCommitLocked app len).1 := by
  unfold txCommitLocked
  split
  · exact .refl app
  · exact ⟨rfl, rfl, rfl, rfl⟩

theorem write_app (s : Host n) (count : Nat) (ok : Bool) :
    (Bounds.write s count ok).1.app = s.app := by
  unfold Bounds.write
  split
  · rfl
  · split <;> rfl

theorem step_effect {l : Bounds.Label n} (stepped : step s l = some (t, accesses)) :
    Effect s.app t.app (wakes s l) := by
  cases l with
  | service up ntb bufferSize =>
    obtain ⟨-, ⟨⟩⟩ := Option.ite_none_right_eq_some.mp stepped
    by_cases removed : s.app.removed
    · simp only [service, if_pos removed]
      exact .unchanged (.refl _)
    · obtain ⟨gone, frame⟩ := service_same s up ntb bufferSize
      simp only [wakes, if_neg removed]
      exact .peer gone frame
  | recv command ntb header =>
    obtain ⟨-, ⟨⟩⟩ := Option.ite_none_right_eq_some.mp stepped
    exact recv_effect s.app command ntb header s rfl
  | finish =>
    obtain ⟨-, ⟨⟩⟩ := Option.ite_none_right_eq_some.mp stepped
    exact .unchanged (.refl _)
  | write count ok =>
    obtain ⟨-, moved⟩ := Option.ite_none_right_eq_some.mp stepped
    have kept := write_app s count ok
    rw [Option.some.inj moved] at kept
    exact .unchanged (kept ▸ .refl _)
  | commit =>
    simp only [step] at stepped
    split at stepped
    · cases stepped
      exact .unchanged (txCommit_same ..)
    · cases stepped
  | txCommit len =>
    obtain ⟨-, ⟨⟩⟩ := Option.ite_none_right_eq_some.mp stepped
    exact .unchanged (txCommit_same ..)
  | read id count =>
    obtain ⟨-, ⟨⟩⟩ := Option.ite_none_right_eq_some.mp stepped
    unfold Bounds.read
    split <;> exact .unchanged (.refl _)
  | rxWait id ok =>
    obtain ⟨-, ⟨⟩⟩ := Option.ite_none_right_eq_some.mp stepped
    unfold Bounds.rxWait
    split <;> exact .unchanged (.refl _)
  | reader id ok =>
    obtain ⟨call, -, moved⟩ := Option.map_eq_some_iff.mp stepped
    cases call with
    | copy len =>
      cases moved
      exact .unchanged (.refl _)
    | retire =>
      cases moved
      exact .taken rfl rfl rfl rfl
  | remove =>
    cases stepped
    exact .gone

theorem Effect.coming (effect : Effect app after qs) (wait : Wait)
    (holds : wait.cond after = true) :
    (∃ q ∈ wait.queues, q ∈ qs) ∨ wait.cond app = true := by
  cases effect with
  | unchanged same => exact Or.inr (same.cond wait ▸ holds)
  | frame removed linkUp peerReady =>
    rcases coming_read removed linkUp peerReady wait holds with woken | before
    · exact Or.inl ⟨.read, woken, by decide⟩
    · exact Or.inr before
  | peer removed rxAvail =>
    rcases coming_write removed rxAvail wait holds with woken | before
    · exact Or.inl ⟨.write, woken, by decide⟩
    · exact Or.inr before
  | taken removed linkUp peerReady rxAvail =>
    refine Or.inr ?_
    cases wait <;>
      simp only [Wait.cond, AppDev.canRead, AppDev.canWrite, removed, linkUp, peerReady, rxAvail,
        Bool.false_or, Bool.or_eq_true] at holds ⊢ <;> tauto
  | gone =>
    cases wait with
    | readable => exact Or.inl ⟨.read, by decide, by decide⟩
    | writable => exact Or.inl ⟨.write, by decide, by decide⟩
    | poll => exact Or.inl ⟨.read, by decide, by decide⟩

theorem waits_alert (kind : W → Wait) (s : Host n) (l : Bounds.Label n) :
    (waits kind).Alert s l := by
  intro t qs acted w holds
  obtain ⟨⟨t, accesses⟩, stepped, moved⟩ := Option.map_eq_some_iff.mp acted
  cases moved
  rcases (step_effect stepped).coming (kind w) holds with ⟨q, member, woken⟩ | before
  · exact Or.inl ⟨q, member, Or.inl woken⟩
  · exact Or.inr ⟨before, fun q => id⟩

/-- No wake-up is lost: after any run, a caller that sleeps although its condition
holds is about to be woken. -/
theorem app_sleepers_woken [DecidableEq W] (kind : W → Wait) {s : World (Host n) Queue W}
    (path : run (waits kind).step (.start probed) ls = some (s, es)) (asleep : s.phase w = .asleep)
    (holds : (kind w).cond s.state.app = true) : ∃ q ∈ (kind w).queues, q ∈ s.pending := by
  obtain ⟨q, member, pends | due⟩ := run_heeded (waits_alert kind) path w asleep holds
  · exact ⟨q, member, pends⟩
  · exact due.elim

def anyWait : Wait → Wait := id

def frameForSleeper : List (WaitQueue.Label (Bounds.Label 1) Queue Wait) :=
  [.enter .readable, .test .readable, .act (.service true (.paged 0x10000) 4096),
    .act (.recv (.kick 1) (.paged 0x10000) ⟨BitVec.ofNat 32 frameMagic, 1, 1⟩)]

theorem app_sleepers_woken_frame :
    ∃ s es, run (waits anyWait).step (.start probed) frameForSleeper = some (s, es) ∧
      s.phase .readable = .asleep ∧ s.state.app.canRead = true ∧
      ∃ q ∈ Wait.queues .readable, q ∈ s.pending := by
  obtain ⟨⟨s, es⟩, path⟩ := Option.isSome_iff_exists.mp (by decide +kernel :
    (run (waits anyWait).step (.start (probed : Host 1)) frameForSleeper).isSome = true)
  have ends : (run (waits anyWait).step (.start (probed : Host 1)) frameForSleeper).map
      (fun out => (out.1.phase .readable, out.1.state.app.canRead)) = some (.asleep, true) := by
        decide +kernel
  rw [path, Option.map_some, Option.some.injEq, Prod.mk.injEq] at ends
  exact ⟨s, es, path, ends.1, ends.2, app_sleepers_woken anyWait path ends.1 ends.2⟩

end IdtNtb.App.Waiting
