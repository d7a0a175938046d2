import IdtNtb.Lib.WaitQueue
import IdtNtb.Sisci.Window

/-! Callers of `ntb_idt_sisci` that sleep. CONNECT_SEGMENT waits on `connect_wq` for
a segment of the peer, and `poll` on both queues for any. An AVAIL that finds the
window open changes the segment without a wake-up: `setup_peer_mw_locked` has
nothing to do then and returns before it wakes anyone. -/
namespace IdtNtb.Sisci.Waiting
open Kernel Transition WaitQueue

inductive Queue where
  | connect
  | poll
  deriving DecidableEq

inductive Wait where
  | connect (id : BitVec 32)
  | poll
  deriving DecidableEq

/-- `ntb_idt_sisci_has_peer_segment` and `ntb_idt_sisci_can_poll_write`. -/
def Wait.cond (dev : SisciDev) : Wait → Bool
  | .connect id => dev.removed || dev.peerReady && dev.remoteSegmentId = id
  | .poll => dev.removed || dev.peerReady

def Wait.queues : Wait → List Queue
  | .connect _ => [.connect]
  | .poll => [.connect, .poll]

def both : List Queue := [.connect, .poll]

/-- The queues that a step wakes after its change. `set_removed` wakes them after
the last of its flags. -/
def wakes (s : Remote) : RemoteStep → List Queue
  | .service _ => if s.dev.removed then [] else both
  | .recv _ (.segid _) => both
  | .recv _ (.unavail id) => if s.dev.remoteSegmentId = id then both else []
  | .ready => both
  | .remove => if s.removal = .unready ∨ s.removal = .cleared then both else []
  | _ => []

/-- `set_removed` is between its first flag and its wake-ups. -/
def Remote.Leaving (s : Remote) : Prop := s.removal = .removed ∨ s.removal = .unready

def waits (kind : W → Wait) : Spec Remote RemoteStep Queue W where
  act s l := (s.step l).map fun (t, _) => (t, wakes s l)
  cond w s := (kind w).cond s.dev
  on w := (kind w).queues
  owes s _ := Remote.Leaving s

/-- An AVAIL that renames the open window finds none asleep for the new name,
unless they are about to be woken. -/
def Noticed (kind : W → Wait) (s : World Remote Queue W) : Label RemoteStep Queue W → Prop
  | .act (.recv _ (.avail id)) => s.state.dev.peerReady = true → s.state.dev.remoteSegmentId ≠ id →
      ∀ w, kind w = .connect id → s.phase w = .asleep → (waits kind).Coming s.state s.pending w
  | _ => True

structure Same (dev after : SisciDev) : Prop where
  removed : after.removed = dev.removed
  peerReady : after.peerReady = dev.peerReady
  remoteSegmentId : after.remoteSegmentId = dev.remoteSegmentId

variable {kind : W → Wait} {s t : Remote}

theorem Same.refl (dev : SisciDev) : Same dev dev := ⟨rfl, rfl, rfl⟩

theorem Same.cond {dev after : SisciDev} (same : Same dev after) (wait : Wait) :
    wait.cond after = wait.cond dev := by
  cases wait <;> simp only [Wait.cond, same.removed, same.peerReady, same.remoteSegmentId]

theorem setup_same (s : Remote) (ntb : Ntb) :
    Same s.dev (s.setup ntb).dev ∧ (s.setup ntb).removal = s.removal := by
  have setUp := s.dev.setupPeerMwLocked_setUp ntb
  unfold Remote.setup
  generalize s.dev.setupPeerMwLocked ntb = dev at setUp
  cases setUp with
  | unchanged =>
    dsimp only
    split <;> exact ⟨.refl _, rfl⟩
  | cleared unmapped =>
    dsimp only
    split <;> exact ⟨⟨rfl, rfl, rfl⟩, rfl⟩
  | opened unmapped =>
    dsimp only
    rw [if_pos (by rw [unmapped]; rfl)]
    exact ⟨⟨rfl, rfl, rfl⟩, rfl⟩

inductive Effect (s t : Remote) : RemoteStep → List Queue → Prop
  | unchanged (same : Same s.dev t.dev) (on : t.removal = s.removal) : Effect s t l []
  | woken : Effect s t l both
  | leaving (on : Remote.Leaving t) : Effect s t l []
  | renamed {id : BitVec 32}
      (dev : t.dev = { s.dev with remoteSegmentId := id, remoteAnnounced := true })
      (on : t.removal = s.removal) : Effect s t (.recv ntb (.avail id)) []

theorem recv_effect {command : Command} (stepped : s.step (.recv ntb command) = some (t, es)) :
    Effect s t (.recv ntb command) (wakes s (.recv ntb command)) := by
  obtain ⟨-, moved⟩ := Option.ite_none_right_eq_some.mp stepped
  cases command with
  | avail id =>
    cases moved
    exact .renamed rfl rfl
  | segid id =>
    cases moved
    exact .woken
  | unavail id =>
    cases moved
    simp only [wakes, SisciDev.handle]
    split
    · exact .woken
    · exact .unchanged (.refl _) rfl
  | size data =>
    cases moved
    exact .unchanged ⟨rfl, rfl, rfl⟩ rfl
  | xlat data =>
    cases moved
    exact .unchanged ⟨rfl, rfl, rfl⟩ rfl
  | unknown cmd data =>
    cases moved
    exact .unchanged (.refl _) rfl

theorem remove_effect (stepped : s.step .remove = some (t, es)) :
    Effect s t .remove (wakes s .remove) := by
  obtain ⟨after, removed, moved⟩ := Option.map_eq_some_iff.mp stepped
  cases moved
  unfold Remote.remove at removed
  cases progress : s.removal with
  | no =>
    rw [progress] at removed
    cases removed
    simp only [wakes, progress, reduceCtorEq, or_self, if_false]
    exact .leaving (Or.inl rfl)
  | removed =>
    rw [progress] at removed
    cases removed
    simp only [wakes, progress, reduceCtorEq, or_self, if_false]
    exact .leaving (Or.inr rfl)
  | unready =>
    simp only [wakes, progress, true_or, if_true]
    exact .woken
  | cleared =>
    simp only [wakes, progress, or_true, if_true]
    exact .woken
  | gone =>
    rw [progress] at removed
    cases removed

theorem step_effect {l : RemoteStep} (stepped : s.step l = some (t, es)) :
    Effect s t l (wakes s l) := by
  cases l with
  | service link =>
    obtain ⟨-, moved⟩ := Option.ite_none_right_eq_some.mp stepped
    by_cases removed : s.dev.removed
    · rw [if_pos removed] at moved
      cases moved
      simp only [wakes, if_pos removed]
      exact .unchanged (.refl _) rfl
    · simp only [wakes, if_neg removed]
      exact .woken
  | recv ntb command => exact recv_effect stepped
  | setup ntb =>
    obtain ⟨-, moved⟩ := Option.ite_none_right_eq_some.mp stepped
    obtain ⟨same, on⟩ := setup_same s ntb
    rw [(Prod.mk.inj (Option.some.inj moved)).1] at same on
    exact .unchanged same on
  | ready => exact .woken
  | done =>
    obtain ⟨-, ⟨⟩⟩ := Option.ite_none_right_eq_some.mp stepped
    exact .unchanged (.refl _) rfl
  | remove => exact remove_effect stepped
  | connect id =>
    obtain ⟨-, moved⟩ := Option.ite_none_right_eq_some.mp stepped
    split at moved <;> cases moved <;> exact .unchanged (.refl _) rfl
  | mmap size remap =>
    obtain ⟨-, moved⟩ := Option.ite_none_right_eq_some.mp stepped
    split at moved <;> cases moved <;> exact .unchanged (.refl _) rfl

theorem queues_connect (wait : Wait) : .connect ∈ wait.queues := by
  cases wait with
  | connect => exact List.mem_singleton_self _
  | poll => exact List.mem_cons_self

/-- Every step but an AVAIL looks after those who wait. -/
theorem effect_alert {l : RemoteStep} (other : ∀ ntb id, l ≠ .recv ntb (.avail id)) :
    (waits kind).Alert s l := by
  intro t qs acted w holds
  obtain ⟨⟨t, es⟩, stepped, moved⟩ := Option.map_eq_some_iff.mp acted
  cases moved
  have effect := step_effect stepped
  generalize wakes s l = qs at effect
  cases effect with
  | unchanged same on =>
    by_cases leaving : Remote.Leaving s
    · have still : Remote.Leaving t := by rwa [Remote.Leaving, on]
      exact Or.inl ⟨.connect, queues_connect _, Or.inr still⟩
    · exact Or.inr ⟨(same.cond (kind w)).symm.trans holds, fun _ => leaving⟩
  | woken => exact Or.inl ⟨.connect, queues_connect _, Or.inl List.mem_cons_self⟩
  | leaving on => exact Or.inl ⟨.connect, queues_connect _, Or.inr on⟩
  | renamed => exact absurd rfl (other _ _)

/-- An AVAIL on an open window. -/
theorem avail_heeded_iff {s : World Remote Queue W} {id : BitVec 32} (held : (waits kind).Heeded s)
    (dev : t.dev = { s.state.dev with remoteSegmentId := id, remoteAnnounced := true })
    (on : t.removal = s.state.removal) :
    (waits kind).Heeded { s with state := t, pending := s.pending ++ [] } ↔
      (s.state.dev.peerReady = true → s.state.dev.remoteSegmentId ≠ id →
        ∀ w, kind w = .connect id → s.phase w = .asleep →
          (waits kind).Coming s.state s.pending w) := by
  have coming : ∀ w, (waits kind).Coming t (s.pending ++ []) w ↔
      (waits kind).Coming s.state s.pending w := by
    intro w
    simp only [Spec.Coming, waits, Remote.Leaving, on, List.append_nil]
  constructor
  · intro after ready other w waiting asleep
    refine (coming w).mp (after w asleep ?_)
    simp only [waits, waiting, Wait.cond, dev, ready, Bool.true_and, decide_true, Bool.or_true]
  · intro noticed w asleep holds
    refine (coming w).mpr ?_
    by_cases before : (waits kind).cond w s.state = true
    · exact held w asleep before
    simp only [waits, dev] at holds before
    cases waiting : kind w with
    | poll =>
      rw [waiting] at holds before
      exact absurd holds before
    | connect named =>
      simp only [waiting, Wait.cond, Bool.or_eq_true, Bool.and_eq_true, decide_eq_true_eq]
        at holds before
      rw [not_or] at before
      obtain ⟨ready, same⟩ := holds.resolve_left before.1
      exact noticed ready (fun still => before.2 ⟨ready, still.trans same⟩) w
        (same ▸ waiting) asleep

theorem next_heeded_iff [DecidableEq W] {s t : World Remote Queue W} {l : Label RemoteStep Queue W}
    (held : (waits kind).Heeded s) (stepped : (waits kind).next s l = some t) :
    (waits kind).Heeded t ↔ Noticed kind s l := by
  by_cases avail : ∃ ntb id, l = .act (.recv ntb (.avail id))
  · obtain ⟨ntb, id, rfl⟩ := avail
    obtain ⟨⟨after, qs⟩, acted, rfl⟩ := Option.map_eq_some_iff.mp stepped
    obtain ⟨⟨after, es⟩, moved, same⟩ := Option.map_eq_some_iff.mp acted
    cases same
    obtain ⟨-, ⟨⟩⟩ := Option.ite_none_right_eq_some.mp moved
    exact avail_heeded_iff held rfl rfl
  · have other : Noticed kind s l := by
      unfold Noticed
      split
      · exact absurd ⟨_, _, rfl⟩ avail
      · trivial
    refine iff_of_true (next_heeded held ?_ stepped) other
    rintro a rfl
    exact effect_alert fun ntb id same => avail ⟨ntb, id, by rw [same]⟩

/-- No wake-up is lost in any state of a run exactly when every AVAIL that renames
an open window finds nobody asleep for the new name. -/
theorem sisci_sleepers_woken_iff [DecidableEq W] (kind : W → Wait) {s : World Remote Queue W}
    (path : run (waits kind).step (.start .loaded) ls = some (s, es)) :
    (∀ front t fs, front <+: ls → run (waits kind).step (.start .loaded) front = some (t, fs) →
        (waits kind).Heeded t) ↔
      Along (waits kind).step (Noticed kind) (.start .loaded) ls :=
  run_keeps_iff (fun held stepped => next_heeded_iff held (silent_eq_some stepped))
    (start_heeded _ _) path

def forSecond : Unit → Wait := fun _ => .connect 2

/-- The peer has opened its segment 1 and announces segment 2 in the same window. -/
def renamedWindow : List (Label RemoteStep Queue Unit) :=
  [.act (.service true), .act (.recv bar (.size 4096)), .act (.recv bar (.xlat 0x10000)),
    .act (.recv bar (.avail 1)), .act (.setup bar), .act .ready, .wake .connect, .wake .poll,
    .enter (), .test (), .act (.recv bar (.avail 2)), .act (.setup bar), .act .done]
where
  bar : Ntb := .paged 0

theorem sisci_sleepers_woken_renamed :
    ∃ s es, run (waits forSecond).step (.start .loaded) renamedWindow = some (s, es) ∧
      s.phase () = .asleep ∧ (Wait.connect 2).cond s.state.dev = true ∧ s.pending = [] ∧
      ¬Along (waits forSecond).step (Noticed forSecond) (.start .loaded) renamedWindow := by
  have ends : (run (waits forSecond).step (.start .loaded) renamedWindow).map (fun out =>
      (out.1.phase (), (Wait.connect 2).cond out.1.state.dev, out.1.pending, out.1.state.removal)) =
      some (.asleep, true, [], .no) := by decide +kernel
  obtain ⟨⟨s, es⟩, path, same⟩ := Option.map_eq_some_iff.mp ends
  simp only [Prod.mk.injEq] at same
  obtain ⟨asleep, holds, none, stays⟩ := same
  refine ⟨s, es, path, asleep, holds, none, fun noticed => ?_⟩
  have heeded :=
    (sisci_sleepers_woken_iff forSecond path).mpr noticed _ s es (List.prefix_refl _) path
  obtain ⟨q, -, pends | due⟩ := heeded () asleep holds
  · rw [none] at pends
    exact absurd pends List.not_mem_nil
  · rcases due with due | due <;> rw [stays] at due <;> contradiction

end IdtNtb.Sisci.Waiting
