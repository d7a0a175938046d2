import IdtNtb.App.Handshake

/-! Readiness at the end of a handshake. A worker can become ready from the
announcements of a peer that still waits for an answer, and then publishes
nothing. In every run in which this does not happen the two sides are ready
together once nothing is left to run. -/
namespace IdtNtb.App.Handshake
open Kernel Parties Transition

/-- `vm` is ready, or the command in its registers makes it ready. -/
def Told (vm : Vm) : Prop :=
  vm.app.peerReady = true ∨
    ∃ command ∈ vm.inbox, (vm.app.announce vm.host.ntb command).peerReady = true

/-- A worker that decides not to publish leaves a peer that has been told. -/
def Answers (own peer : Vm) : Action → Prop
  | .work => own.worker = .decide → own.app.peerReady = true → Told peer
  | _ => True

instance (vm : Vm) : Decidable (Told vm) := inferInstanceAs (Decidable (_ ∨ _))

instance (own peer : Vm) (action : Action) : Decidable (Answers own peer action) := by
  cases action <;> unfold Answers <;> infer_instance

structure Quiet (vm : Vm) : Prop where
  loaded : vm.loaded = true
  link : vm.link = true
  inbox : vm.inbox = none
  worker : vm.worker = .idle
  queued : vm.queued = false

def Pending (vm : Vm) : Prop :=
  vm.queued = true ∨ vm.worker = .start ∨ vm.worker = .recv ∨ vm.worker = .decide

/-- `vm` has its own publication ahead of it. -/
def Owes (vm : Vm) : Prop :=
  vm.app.peerReady = false ∧
    (vm.loaded = false ∨ vm.link = false ∨ vm.queued = true ∨ vm.worker ≠ .idle)

def Duty (own peer : Vm) : Prop :=
  own.app.peerReady = true → Told peer ∨ Pending own ∨ Owes peer

structure Local (vm : Vm) : Prop where
  unloaded : vm.loaded = false →
    vm.app.peerReady = false ∧ vm.worker = .idle ∧ vm.queued = false
  served : vm.inbox ≠ none →
    vm.loaded = false ∨ vm.link = false ∨ vm.queued = true ∨ vm.worker = .start ∨ vm.worker = .recv
  noticed : vm.link = false →
    vm.loaded = false ∨ vm.queued = true ∨ vm.worker = .start ∨
      vm.worker = .idle ∧ vm.app.peerReady = false
  sending : vm.worker = .sendSize ∨ vm.worker = .sendXlat → vm.app.peerReady = false
  allocated : vm.worker = .recv ∨ vm.worker = .decide → vm.app.rx ≠ none

structure Inv (own peer : Vm) : Prop where
  duty : Duty own peer
  duty_peer : Duty peer own
  here : Local own
  there : Local peer

theorem Inv.symm (held : Inv own peer) : Inv peer own :=
  ⟨held.duty_peer, held.duty, held.there, held.here⟩

variable {own peer vm : Vm}

theorem duty_unready (unready : own.app.peerReady = false) : Duty own peer :=
  fun ready => absurd (unready.symm.trans ready) nofun

/-- A running worker has either made its driver ready or still has to publish. -/
theorem duty_running (running : own.worker ≠ .idle) : Duty peer own := by
  intro _
  cases ready : own.app.peerReady with
  | true => exact Or.inl (Or.inl ready)
  | false => exact Or.inr (Or.inr ⟨ready, Or.inr (Or.inr (Or.inr running))⟩)

theorem Local.loaded (held : Local vm) (ready : vm.app.peerReady = true) : vm.loaded = true := by
  cases loaded : vm.loaded with
  | true => rfl
  | false => exact absurd ((held.unloaded loaded).1.symm.trans ready) nofun

/-- A ready driver with a command in its registers will look at it. -/
theorem Local.pending (held : Local vm) (ready : vm.app.peerReady = true)
    (waiting : vm.inbox ≠ none) : Pending vm := by
  have loaded := held.loaded ready
  rcases held.served waiting with unloaded | down | queued | starting | receiving
  · exact absurd (unloaded.symm.trans loaded) nofun
  · rcases held.noticed down with unloaded | queued | starting | ⟨_, unready⟩
    · exact absurd (unloaded.symm.trans loaded) nofun
    · exact Or.inl queued
    · exact Or.inr (Or.inl starting)
    · exact absurd (unready.symm.trans ready) nofun
  · exact Or.inl queued
  · exact Or.inr (Or.inl starting)
  · exact Or.inr (Or.inr (Or.inl receiving))

theorem Local.loaded_running (held : Local vm) (running : vm.worker ≠ .idle) :
    vm.loaded = true := by
  cases loaded : vm.loaded with
  | true => rfl
  | false => exact absurd (held.unloaded loaded).2.1 running

theorem event_queued (vm : Vm) : vm.loaded = false ∨ vm.event.queued = true := by
  cases loaded : vm.loaded with
  | true => exact Or.inr (by simp only [Vm.event, loaded, Bool.or_true])
  | false => exact Or.inl rfl

theorem queued_event (queued : vm.queued = true) : vm.event.queued = true := by
  simp only [Vm.event, queued, Bool.true_or]

/-- An event keeps a driver that is not loaded as it was. -/
theorem Local.event_unloaded (held : Local vm) (unloaded : vm.loaded = false) :
    vm.app.peerReady = false ∧ vm.worker = .idle ∧ vm.event.queued = false := by
  obtain ⟨unready, idle, unqueued⟩ := held.unloaded unloaded
  exact ⟨unready, idle, by simp only [Vm.event, unqueued, unloaded, Bool.or_self]⟩

/-- The event queues a loaded driver's worker, which then sees what has changed. -/
theorem Local.event (held : Local vm) (link : Bool) (inbox : Option Command) :
    Local { vm with link, inbox }.event := by
  refine ⟨held.event_unloaded, ?_, ?_, held.sending, held.allocated⟩
  · intro _
    rcases event_queued { vm with link, inbox } with unloaded | queued
    · exact Or.inl unloaded
    · exact Or.inr (Or.inr (Or.inl queued))
  · intro _
    rcases event_queued { vm with link, inbox } with unloaded | queued
    · exact Or.inl unloaded
    · exact Or.inr (Or.inl queued)

theorem Local.accept (held : Local vm) (command : Command) : Local (vm.accept command) :=
  held.event vm.link (some command)

/-- A command makes a loaded driver's worker pending. -/
theorem duty_accept (held : Local peer) (command : Command) : Duty (peer.accept command) own := by
  intro ready
  rcases event_queued peer with unloaded | queued
  · exact absurd (unloaded.symm.trans (held.loaded ready)) nofun
  · exact Or.inr (Or.inl (Or.inl queued))

theorem load_inv (held : Inv own peer) (host : Host) : Inv (own.load host) peer :=
  ⟨duty_unready rfl, fun _ => Or.inr (Or.inr ⟨rfl, Or.inr (Or.inr (Or.inl rfl))⟩),
    ⟨nofun, fun waiting => absurd rfl waiting, fun _ => Or.inr (Or.inl rfl), nofun, nofun⟩,
    held.there⟩

theorem unload_inv (held : Inv own peer) (idle : own.worker = .idle) : Inv own.unload peer := by
  refine ⟨duty_unready rfl, fun _ => Or.inr (Or.inr ⟨rfl, Or.inl rfl⟩), ?_, held.there⟩
  refine ⟨fun _ => ⟨rfl, idle, rfl⟩, fun _ => Or.inl rfl, fun _ => Or.inl rfl, fun _ => rfl, ?_⟩
  rintro (receiving | deciding)
  · exact absurd (idle.symm.trans receiving) nofun
  · exact absurd (idle.symm.trans deciding) nofun

theorem linkChange_inv (held : Inv own peer) (up : Bool) :
    Inv { own with link := up }.event peer := by
  refine ⟨?_, ?_, held.here.event up own.inbox, held.there⟩
  · intro ready
    rcases held.duty ready with told | pending | owes
    · exact Or.inl told
    · exact Or.inr (Or.inl (pending.imp_left queued_event))
    · exact Or.inr (Or.inr owes)
  · intro ready
    rcases held.duty_peer ready with told | pending | ⟨unready, _⟩
    · exact Or.inl told
    · exact Or.inr (Or.inl pending)
    · rcases event_queued { own with link := up } with unloaded | queued
      · exact Or.inr (Or.inr ⟨unready, Or.inl unloaded⟩)
      · exact Or.inr (Or.inr ⟨unready, Or.inr (Or.inr (Or.inl queued))⟩)

/-- A step to a running worker other than a sending one. -/
theorem running_inv (held : Inv own peer) (loaded : own.loaded = true) (app : AppDev)
    (inbox : Option Command) (queued : Bool) (worker : Worker)
    (stage : worker = .start ∨ worker = .recv ∨ worker = .decide)
    (served : inbox ≠ none → own.link = false ∨ queued = true ∨ worker = .start ∨ worker = .recv)
    (noticed : own.link = false → queued = true ∨ worker = .start)
    (allocated : worker = .recv ∨ worker = .decide → app.rx ≠ none) :
    Inv { own with app, inbox, queued, worker } peer := by
  have running : worker ≠ .idle := by
    rcases stage with rfl | rfl | rfl
    · exact nofun
    · exact nofun
    · exact nofun
  refine ⟨fun _ => Or.inr (Or.inl (Or.inr stage)), duty_running running,
    ⟨fun unloaded => absurd (unloaded.symm.trans loaded) nofun,
      fun waiting => Or.inr (served waiting), fun down => ?_, ?_, allocated⟩, held.there⟩
  · rcases noticed down with queued | starting
    · exact Or.inr (Or.inl queued)
    · exact Or.inr (Or.inr (Or.inl starting))
  · rintro (rfl | rfl)
    · exact absurd stage (by simp)
    · exact absurd stage (by simp)

theorem begin_inv (held : Inv own peer) (idle : own.worker = .idle)
    (stepped : own.work peer = some (own', peer')) : Inv own' peer' := by
  simp only [Vm.work, idle] at stepped
  split_ifs at stepped with queued
  cases stepped
  have loaded : own.loaded = true := by
    cases loaded : own.loaded with
    | true => rfl
    | false => exact absurd ((held.here.unloaded loaded).2.2.symm.trans queued) nofun
  exact running_inv held loaded own.app own.inbox false .start (Or.inl rfl) (by simp)
    (by simp) nofun

theorem work_start_down (starting : own.worker = .start) (down : own.link = false) :
    own.work peer = some ({ own with app := own.app.setLink false, worker := .idle }, peer) := by
  simp only [Vm.work, starting, down, Bool.false_eq_true, if_false]

theorem work_start_up (peer : Vm) (starting : own.worker = .start) (up : own.link = true) :
    ∃ buffer, own.work peer =
      some ({ own with app := { own.app.setLink true with rx := some buffer }, worker := .recv },
        peer) := by
  obtain ⟨buffer, done⟩ := own.host.setupInboundMw (own.app.setLink true)
  exact ⟨buffer, by simp only [Vm.work, starting, up, if_true, done]⟩

theorem start_inv (held : Inv own peer) (starting : own.worker = .start)
    (stepped : own.work peer = some (own', peer')) : Inv own' peer' := by
  have loaded := held.here.loaded_running (by rw [starting]; exact nofun)
  cases link : own.link with
  | false =>
    rw [work_start_down starting link] at stepped
    cases stepped
    have unready : (own.app.setLink false).peerReady = false := Bool.and_false _
    exact ⟨duty_unready unready, fun _ => Or.inr (Or.inr ⟨unready, Or.inr (Or.inl link)⟩),
      ⟨fun unloaded => absurd (unloaded.symm.trans loaded) nofun, fun _ => Or.inr (Or.inl link),
        fun _ => Or.inr (Or.inr (Or.inr ⟨rfl, unready⟩)), nofun, nofun⟩, held.there⟩
  | true =>
    obtain ⟨buffer, done⟩ := work_start_up peer starting link
    rw [done] at stepped
    cases stepped
    refine running_inv held loaded _ own.inbox own.queued .recv (by simp) (by simp)
      (fun down => absurd (link.symm.trans down) nofun) ?_
    intro _ missing
    cases missing

theorem work_recv_some (receiving : own.worker = .recv) (waiting : own.inbox = some command) :
    own.work peer =
      some ({ own with app := own.app.announce own.host.ntb command, inbox := none }, peer) := by
  simp only [Vm.work, receiving, waiting]

theorem work_recv_none (receiving : own.worker = .recv) (empty : own.inbox = none) :
    own.work peer = some ({ own with worker := .decide }, peer) := by
  simp only [Vm.work, receiving, empty]

theorem recv_inv (held : Inv own peer) (receiving : own.worker = .recv)
    (stepped : own.work peer = some (own', peer')) : Inv own' peer' := by
  have loaded := held.here.loaded_running (by rw [receiving]; exact nofun)
  have allocated := held.here.allocated (Or.inl receiving)
  have noticed : own.link = false → own.queued = true := by
    intro down
    have noticed := held.here.noticed down
    simpa [loaded, receiving] using noticed
  cases waiting : own.inbox with
  | some command =>
    rw [work_recv_some receiving waiting] at stepped
    cases stepped
    exact running_inv held loaded _ none own.queued own.worker (Or.inr (Or.inl receiving))
      (by simp) (fun down => Or.inl (noticed down))
        (fun _ => by rw [(AppDev.announce_receive ..).1]; exact allocated)
  | none =>
    rw [work_recv_none receiving waiting] at stepped
    cases stepped
    exact running_inv held loaded own.app own.inbox own.queued .decide (by simp)
      (fun absent => absurd waiting absent) (fun down => Or.inl (noticed down)) (fun _ => allocated)

/-- While the worker decides, whatever has come in since has queued it again. -/
theorem Local.decided (held : Local own) (deciding : own.worker = .decide) (worker : Worker)
    (sending : worker = .sendSize ∨ worker = .sendXlat → own.app.peerReady = false)
    (allocated : worker = .recv ∨ worker = .decide → own.app.rx ≠ none) :
    Local { own with worker } := by
  have loaded := held.loaded_running (by rw [deciding]; exact nofun)
  refine ⟨fun unloaded => absurd (unloaded.symm.trans loaded) nofun, ?_, ?_, sending, allocated⟩
  · intro waiting
    have served := held.served waiting
    simp only [loaded, deciding, reduceCtorEq, false_or, or_false] at served
    rcases served with down | queued
    · exact Or.inr (Or.inl down)
    · exact Or.inr (Or.inr (Or.inl queued))
  · intro down
    have noticed := held.noticed down
    simp only [loaded, deciding, reduceCtorEq, false_or, or_false, false_and] at noticed
    exact Or.inr (Or.inl noticed)

theorem decide_inv (held : Inv own peer) (deciding : own.worker = .decide)
    (answers : own.app.peerReady = true → Told peer)
    (stepped : own.work peer = some (own', peer')) : Inv own' peer' := by
  have allocated : own.app.rx.isNone = false := by
    simpa [Option.isSome_iff_ne_none] using held.here.allocated (Or.inr deciding)
  simp only [Vm.work, deciding, allocated, Bool.or_false] at stepped
  cases stepped
  cases ready : own.app.peerReady with
  | true =>
    exact ⟨fun _ => Or.inl (answers ready), fun _ => Or.inl (Or.inl ready),
      held.here.decided deciding .idle nofun nofun, held.there⟩
  | false =>
    exact ⟨duty_unready ready, duty_running nofun,
      held.here.decided deciding .sendSize (fun _ => ready) nofun, held.there⟩

theorem send_eq_some (sent : own.send peer command worker = some (own', peer')) :
    own.link = true ∧ peer.inbox = none ∧ own' = { own with worker } ∧
      peer' = peer.accept command := by
  simp only [Vm.send] at sent
  split_ifs at sent with link
  split at sent
  case h_1 empty =>
    cases sent
    exact ⟨link, empty, rfl, rfl⟩
  case h_2 => cases sent

/-- A sender that moves on, to the second command or to its end. -/
theorem Local.sent (held : Local own) (sending : own.worker = .sendSize ∨ own.worker = .sendXlat)
    (worker : Worker) (stage : worker = .sendXlat ∨ worker = .idle) :
    Local { own with worker } := by
  have unready := held.sending sending
  have running : own.worker ≠ .idle := by
    rcases sending with first | second
    · rw [first]; exact nofun
    · rw [second]; exact nofun
  have loaded := held.loaded_running running
  refine ⟨fun unloaded => absurd (unloaded.symm.trans loaded) nofun, ?_, ?_, fun _ => unready, ?_⟩
  · intro waiting
    rcases held.served waiting with unloaded | down | queued | starting | receiving
    · exact Or.inl unloaded
    · exact Or.inr (Or.inl down)
    · exact Or.inr (Or.inr (Or.inl queued))
    · rw [starting] at sending
      exact absurd sending (by simp)
    · rw [receiving] at sending
      exact absurd sending (by simp)
  · intro down
    rcases held.noticed down with unloaded | queued | starting | ⟨idle, _⟩
    · exact Or.inl unloaded
    · exact Or.inr (Or.inl queued)
    · rw [starting] at sending
      exact absurd sending (by simp)
    · exact absurd idle running
  · intro earlier
    rcases stage with rfl | rfl
    · exact absurd earlier (by simp)
    · exact absurd earlier (by simp)

theorem send_inv (held : Inv own peer) (sending : own.worker = .sendSize ∨ own.worker = .sendXlat)
    (stage : worker = .sendXlat ∨ worker = .idle)
    (sent : own.send peer command worker = some (own', peer')) : Inv own' peer' := by
  obtain ⟨_, _, rfl, rfl⟩ := send_eq_some sent
  exact ⟨duty_unready (held.here.sending sending), duty_accept held.there command,
    held.here.sent sending worker stage, held.there.accept command⟩

theorem work_inv (held : Inv own peer) (answers : Answers own peer .work)
    (stepped : own.work peer = some (own', peer')) : Inv own' peer' := by
  cases stage : own.worker with
  | idle => exact begin_inv held stage stepped
  | start => exact start_inv held stage stepped
  | recv => exact recv_inv held stage stepped
  | decide => exact decide_inv held stage (answers stage) stepped
  | sendSize =>
    simp only [Vm.work, stage] at stepped
    exact send_inv held (Or.inl stage) (Or.inl rfl) stepped
  | sendXlat =>
    simp only [Vm.work, stage] at stepped
    exact send_inv held (Or.inr stage) (Or.inr rfl) stepped

/-- A send fails because the link is down or the peer has not looked yet. -/
theorem giveUp_inv (held : Inv own peer) (sending : own.worker = .sendSize ∨ own.worker = .sendXlat)
    (blocked : own.link = false ∨ peer.inbox ≠ none) : Inv { own with worker := .idle } peer := by
  have unready := held.here.sending sending
  refine ⟨duty_unready unready, ?_, held.here.sent sending .idle (Or.inr rfl), held.there⟩
  intro ready
  rcases blocked with down | waiting
  · exact Or.inr (Or.inr ⟨unready, Or.inr (Or.inl down)⟩)
  · exact Or.inr (Or.inl (held.there.pending ready waiting))

theorem kick_inv (held : Inv own peer)
    (sent : own.send peer command own.worker = some (own', peer')) : Inv own' peer' := by
  obtain ⟨_, empty, rfl, rfl⟩ := send_eq_some sent
  refine ⟨?_, duty_accept held.there command, held.here, held.there.accept command⟩
  intro ready
  rcases held.duty ready with (told | ⟨waiting, found, _⟩) | pending | ⟨unready, ahead⟩
  · exact Or.inl (Or.inl told)
  · rw [empty] at found
    cases found
  · exact Or.inr (Or.inl pending)
  · refine Or.inr (Or.inr ⟨unready, ?_⟩)
    rcases ahead with unloaded | down | queued | running
    · exact Or.inl unloaded
    · exact Or.inr (Or.inl down)
    · exact Or.inr (Or.inr (Or.inl (queued_event queued)))
    · exact Or.inr (Or.inr (Or.inr running))

theorem act_inv (held : Inv own peer) (answers : Answers own peer action)
    (stepped : own.act peer action = some (own', peer')) : Inv own' peer' := by
  cases action with
  | load host =>
    simp only [Vm.act] at stepped
    split_ifs at stepped
    cases stepped
    exact load_inv held host
  | unload =>
    simp only [Vm.act] at stepped
    split_ifs at stepped with idle
    cases stepped
    exact unload_inv held idle
  | linkChange up =>
    cases stepped
    exact linkChange_inv held up
  | work => exact work_inv held answers stepped
  | giveUp =>
    simp only [Vm.act] at stepped
    split at stepped
    case h_1 sending =>
      split_ifs at stepped with free
      cases stepped
      exact giveUp_inv held (Or.inl sending) (by simpa [Classical.or_iff_not_imp_left] using free)
    case h_2 sending =>
      split_ifs at stepped with free
      cases stepped
      exact giveUp_inv held (Or.inr sending) (by simpa [Classical.or_iff_not_imp_left] using free)
    case h_3 => cases stepped
  | kick data =>
    simp only [Vm.act] at stepped
    split_ifs at stepped
    exact kick_inv held stepped

theorem inv_kept : Keeps Vm.move Answers (fun _ own _ peer => Inv own peer) where
  acted := by
    intro own peer _ _ action own' peer' notes held answers stepped
    obtain ⟨after, acted, same⟩ := Option.map_eq_some_iff.mp stepped
    cases same
    exact act_inv held answers acted
  symm := Inv.symm

theorem booted_local (host : Host) : Local (.booted host) :=
  ⟨fun _ => ⟨rfl, rfl, rfl⟩, fun waiting => absurd rfl waiting, fun _ => Or.inl rfl, nofun, nofun⟩

theorem booted_inv (host1 host2 : Host) : Inv (.booted host1) (.booted host2) :=
  ⟨duty_unready rfl, duty_unready rfl, booted_local host1, booted_local host2⟩

theorem Quiet.ready (own_quiet : Quiet own) (peer_quiet : Quiet peer) (duty : Duty own peer)
    (ready : own.app.peerReady = true) : peer.app.peerReady = true := by
  rcases duty ready with (told | ⟨command, waiting, _⟩) | pending | ⟨_, ahead⟩
  · exact told
  · rw [peer_quiet.inbox] at waiting
    cases waiting
  · simp [Pending, own_quiet.queued, own_quiet.worker] at pending
  · simp [peer_quiet.loaded, peer_quiet.link, peer_quiet.queued, peer_quiet.worker] at ahead

/-- When nothing is left to run, both drivers are ready or neither is. -/
theorem handshake_complete
    (answered : Along System.step (Acting Answers) (.booted host1 host2) ls)
    (path : run System.step (.booted host1 host2) ls = some (t, es)) (quiet1 : Quiet t.first)
    (quiet2 : Quiet t.second) : t.first.app.peerReady = t.second.app.peerReady := by
  have held : Inv t.first t.second := inv_kept.run answered path (booted_inv host1 host2)
  exact Bool.eq_iff_iff.mpr
    ⟨quiet1.ready quiet2 held.duty, quiet2.ready quiet1 held.duty_peer⟩

instance (vm : Vm) : Decidable (Quiet vm) :=
  decidable_of_iff (vm.loaded = true ∧ vm.link = true ∧ vm.inbox = none ∧ vm.worker = .idle ∧
      vm.queued = false)
    ⟨fun ⟨loaded, link, inbox, worker, queued⟩ => ⟨loaded, link, inbox, worker, queued⟩,
      fun ⟨loaded, link, inbox, worker, queued⟩ => ⟨loaded, link, inbox, worker, queued⟩⟩

def sampleHost (dma : Nat) : Host where
  align := ⟨1, 4096, 0x400000⟩
  dma := dma
  phys := 0xF0000000
  mapSize := 0x400000
  bufferSize := 0x2000
  fits := by decide
  aligned := Or.inl (Nat.le_refl 1)

def sampleStart : System := .booted (sampleHost 0x10000) (sampleHost 0x20000)

def bringUp : List (Party × Action) :=
  [(.first, .load (sampleHost 0x10000)), (.second, .load (sampleHost 0x20000)),
    (.first, .linkChange true), (.second, .linkChange true)]

def works (party : Party) (n : Nat) : List (Party × Action) := List.replicate n (party, .work)

/-- The first VM sends its SIZE; the second takes it and decides before the XLAT arrives. -/
def answeredSchedule : List (Party × Action) :=
  bringUp ++ works .first 5 ++ works .second 6 ++ works .first 1 ++ works .first 3 ++
    works .second 1 ++ works .first 3 ++ works .first 4 ++ works .second 5

theorem handshake_complete_answered :
    ∃ t es, run System.step sampleStart answeredSchedule = some (t, es) ∧
      t.first.app.peerReady = true ∧ t.second.app.peerReady = true := by
  have outcome : (run System.step sampleStart answeredSchedule).map (fun r =>
      (decide (Quiet r.1.first), decide (Quiet r.1.second), r.1.first.app.peerReady)) =
      some (true, true, true) := by decide +kernel
  obtain ⟨⟨t, es⟩, path, reached⟩ := Option.map_eq_some_iff.mp outcome
  simp only [Prod.mk.injEq, decide_eq_true_eq] at reached
  obtain ⟨quiet1, quiet2, ready⟩ := reached
  have answered : Along System.step (Acting Answers) sampleStart answeredSchedule := by
    decide +kernel
  exact ⟨t, es, path, ready, (handshake_complete answered path quiet1 quiet2).symm.trans ready⟩

/-- The second VM's worker is still draining its registers when the first VM's XLAT arrives; its
second run, for the message events, finds nothing left to do. -/
def unansweredSchedule : List (Party × Action) :=
  bringUp ++ works .first 5 ++ works .second 3 ++ works .first 1 ++ works .second 3 ++
    works .second 4

theorem handshake_one_sided :
    ∃ t es, run System.step sampleStart unansweredSchedule = some (t, es) ∧
      Quiet t.first ∧ Quiet t.second ∧ t.first.app.peerReady = false ∧
      t.second.app.peerReady = true := by
  have outcome : (run System.step sampleStart unansweredSchedule).map (fun r =>
      (decide (Quiet r.1.first), decide (Quiet r.1.second), r.1.first.app.peerReady,
        r.1.second.app.peerReady)) = some (true, true, false, true) := by decide +kernel
  obtain ⟨⟨t, es⟩, path, reached⟩ := Option.map_eq_some_iff.mp outcome
  simp only [Prod.mk.injEq, decide_eq_true_eq] at reached
  exact ⟨t, es, path, reached⟩

end IdtNtb.App.Handshake
