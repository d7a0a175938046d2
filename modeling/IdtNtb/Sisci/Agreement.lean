import IdtNtb.Sisci.Machine

/-! Segment agreement. A publication is four commands that can stop at any of
them, and the receiver keeps what they say in separate fields. What makes the
fields agree when they are used is the order: the first command takes down the
old window, only the last sets one up, and a last command is accepted only after
the other three of the same publication. -/
namespace IdtNtb.Sisci
open Kernel Parties Transition

/-- What a receiver knows of its peer's segment, and the window it has. -/
structure View where
  ready : Bool
  mapped : Bool
  id : BitVec 32
  size : Nat
  xlat : Nat
  trans : Option (Nat × Nat)

def SisciDev.view (dev : SisciDev) : View where
  ready := dev.peerReady
  mapped := dev.peerIo
  id := dev.remoteSegmentId
  size := dev.remoteSize
  xlat := dev.remoteXlat
  trans := dev.trans

/-- Where a publication of `segment` has got, when `stage` is to be sent next. -/
def Heard (inbox : Option Command) (view : View) (segment : Segment) : Stage → Prop
  | .segid => True
  | .size => inbox = some (.segid segment.id) ∨ inbox = none ∧ view.mapped = false
  | .xlat => view.mapped = false ∧
      (inbox = some (.size segment.size) ∨ inbox = none ∧ view.size = segment.size)
  | .avail => view.mapped = false ∧ view.size = segment.size ∧
      (inbox = some (.xlat segment.dma) ∨ inbox = none ∧ view.xlat = segment.dma)

/-- The receiver has the size and the address of `segment`, and no window. -/
structure Primed (view : View) (segment : Segment) : Prop where
  mapped : view.mapped = false
  size : view.size = segment.size
  xlat : view.xlat = segment.dma

/-- One direction: a publisher's task, segment and flag with what it has done,
against a receiver's registers and view. -/
structure Agrees (mine : List Note) (task : Task) (segment : Option Segment) (available : Bool)
    (inbox : Option Command) (view : View) : Prop where
  available : available = true → ∃ s, segment = some s ∧ Note.offered s ∈ mine
  publishing : ∀ stage, task = .publish stage →
    ∃ s, segment = some s ∧ Note.offered s ∈ mine ∧ Heard inbox view s stage
  inbox : ∀ id, inbox = some (.avail id) →
    ∃ s, Note.offered s ∈ mine ∧ id = s.id ∧ Primed view s
  ready : view.ready = true → view.mapped = true ∧
    ∃ s, Note.offered s ∈ mine ∧ view.id = s.id ∧ view.trans = some (s.dma, s.size)

def Toward (mine : List Note) (own peer : Vm) : Prop :=
  Agrees mine own.task own.dev.segment own.dev.localAvailable peer.inbox peer.dev.view

variable {mine : List Note} {task : Task} {segment : Option Segment} {available : Bool}
  {inbox : Option Command} {view : View} {own peer : Vm}

theorem Agrees.note (held : Agrees mine task segment available inbox view) (notes : List Note) :
    Agrees (mine ++ notes) task segment available inbox view := by
  refine ⟨?_, ?_, ?_, ?_⟩
  · intro flag
    obtain ⟨s, found, offered⟩ := held.available flag
    exact ⟨s, found, List.mem_append_left _ offered⟩
  · intro stage running
    obtain ⟨s, found, offered, heard⟩ := held.publishing stage running
    exact ⟨s, found, List.mem_append_left _ offered, heard⟩
  · intro id waiting
    obtain ⟨s, offered, primed⟩ := held.inbox id waiting
    exact ⟨s, List.mem_append_left _ offered, primed⟩
  · intro ready
    obtain ⟨mapped, s, offered, agreed⟩ := held.ready ready
    exact ⟨mapped, s, List.mem_append_left _ offered, agreed⟩

/-- A publisher that starts, ends or gives up something else. -/
theorem Agrees.publisher (held : Agrees mine task segment available inbox view) (task' : Task)
    (segment' : Option Segment) (available' : Bool)
    (offered : available' = true → ∃ s, segment' = some s ∧ Note.offered s ∈ mine)
    (start : ∀ stage, task' = .publish stage → stage = .segid ∧ available' = true) :
    Agrees mine task' segment' available' inbox view := by
  refine ⟨offered, ?_, held.inbox, held.ready⟩
  intro stage running
  obtain ⟨rfl, flag⟩ := start stage running
  obtain ⟨s, found, member⟩ := offered flag
  exact ⟨s, found, member, trivial⟩

theorem Heard.unmapped (heard : Heard inbox view s stage) :
    Heard inbox { view with ready := false, mapped := false, trans := none } s stage := by
  cases stage with
  | segid => trivial
  | size => exact heard.imp_right fun ⟨empty, _⟩ => ⟨empty, rfl⟩
  | xlat => exact ⟨rfl, heard.2⟩
  | avail => exact ⟨rfl, heard.2⟩

/-- Taking down the window loses nothing a publication relies on. -/
theorem Agrees.unmapped (held : Agrees mine task segment available inbox view) :
    Agrees mine task segment available inbox
      { view with ready := false, mapped := false, trans := none } := by
  refine ⟨held.available, ?_, ?_, nofun⟩
  · intro stage running
    obtain ⟨s, found, offered, heard⟩ := held.publishing stage running
    exact ⟨s, found, offered, heard.unmapped⟩
  · intro id waiting
    obtain ⟨s, offered, same, primed⟩ := held.inbox id waiting
    exact ⟨s, offered, same, rfl, primed.size, primed.xlat⟩

/-- A receiver without a window is not ready. -/
theorem Agrees.unready (held : Agrees mine task segment available inbox view)
    (unmapped : view.mapped = false) : view.ready = false := by
  cases ready : view.ready with
  | false => rfl
  | true => exact absurd (unmapped.symm.trans (held.ready ready).1) nofun

/-- The receiver takes a command other than AVAIL. -/
theorem Agrees.received (held : Agrees mine task segment available (some command) view)
    (after : View) (heard : ∀ s stage, Heard (some command) view s stage → Heard none after s stage)
    (ready : after.ready = true → view.ready = true ∧ after.mapped = view.mapped ∧
      after.id = view.id ∧ after.trans = view.trans) :
    Agrees mine task segment available none after := by
  refine ⟨held.available, ?_, nofun, ?_⟩
  · intro stage running
    obtain ⟨s, found, offered, before⟩ := held.publishing stage running
    exact ⟨s, found, offered, heard s stage before⟩
  · intro now
    obtain ⟨before, mapped, id, trans⟩ := ready now
    rw [mapped, id, trans]
    exact held.ready before

/-- A publication under way has only its own last command in the registers. -/
theorem Heard.last_sent (heard : Heard (some command) view s stage) :
    stage = .segid ∨ stage = .size ∧ command = .segid s.id ∨
      stage = .xlat ∧ command = .size s.size ∨ stage = .avail ∧ command = .xlat s.dma := by
  cases stage with
  | segid => exact Or.inl rfl
  | size => simpa [Heard] using heard
  | xlat => simpa [Heard] using heard.2
  | avail => simpa [Heard] using heard.2.2

/-- The commands that move a publication on without ending it. -/
def Command.advances : Command → Bool
  | .segid _ => true
  | .size _ => true
  | .xlat _ => true
  | _ => false

/-- Any other command finds no publication under way. -/
theorem Heard.other (heard : Heard (some command) view s stage) (other : command.advances = false)
    (after : View) : Heard none after s stage := by
  rcases heard.last_sent with rfl | ⟨_, rfl⟩ | ⟨_, rfl⟩ | ⟨_, rfl⟩
  · trivial
  · cases other
  · cases other
  · cases other

theorem setUp_opens {dev after : SisciDev} (setUp : SisciDev.SetUp ntb dev after)
    (unready : dev.peerReady = false) (ready : after.view.ready = true) :
    after.view =
      { dev.view with ready := true, mapped := true, trans := some (dev.remoteXlat,
        dev.remoteSize) } := by
  cases setUp with
  | unchanged => exact absurd (unready.symm.trans ready) nofun
  | cleared => exact absurd (unready.symm.trans ready) nofun
  | opened => rfl

/-- An AVAIL that makes the driver ready opens the window it was told of. -/
theorem avail_opens {dev : SisciDev} {id : BitVec 32} (unready : dev.peerReady = false)
    (ready : (dev.handle ntb (.avail id)).view.ready = true) :
    (dev.handle ntb (.avail id)).view =
      { dev.view with
        ready := true, mapped := true, id := id, trans :=
          some (dev.remoteXlat, dev.remoteSize) } := by
  let told : SisciDev := { dev with remoteSegmentId := id, remoteAnnounced := true }
  exact setUp_opens (told.setupPeerMwLocked_setUp ntb) unready ready

theorem received_avail {dev : SisciDev} (ntb : Ntb) (id : BitVec 32)
    (held : Agrees mine task segment available (some (.avail id)) dev.view) :
    Agrees mine task segment available none (dev.handle ntb (.avail id)).view := by
  obtain ⟨s, offered, rfl, primed⟩ := held.inbox id rfl
  refine ⟨held.available, ?_, nofun, ?_⟩
  · intro stage running
    obtain ⟨other, found, member, heard⟩ := held.publishing stage running
    exact ⟨other, found, member, heard.other rfl _⟩
  · intro ready
    rw [avail_opens (held.unready primed.mapped) ready]
    have pair : (dev.remoteXlat, dev.remoteSize) = (s.dma, s.size) :=
      Prod.ext primed.xlat primed.size
    exact ⟨rfl, s, offered, rfl, congrArg some pair⟩

/-- Every command the receiver takes keeps the agreement. -/
theorem received_inv {dev : SisciDev} (ntb : Ntb)
    (held : Agrees mine task segment available (some command) dev.view) :
    Agrees mine task segment available none (dev.handle ntb command).view := by
  cases command with
  | segid id =>
    refine held.received _ ?_ nofun
    intro s stage heard
    rcases heard.last_sent with rfl | ⟨rfl, _⟩ | ⟨_, same⟩ | ⟨_, same⟩
    · trivial
    · exact Or.inr ⟨rfl, rfl⟩
    · cases same
    · cases same
  | size data =>
    refine held.received _ ?_ (fun ready => ⟨ready, rfl, rfl, rfl⟩)
    intro s stage heard
    rcases heard.last_sent with rfl | ⟨_, same⟩ | ⟨rfl, same⟩ | ⟨_, same⟩
    · trivial
    · cases same
    · exact ⟨heard.1, Or.inr ⟨rfl, Command.size.inj same⟩⟩
    · cases same
  | xlat data =>
    refine held.received _ ?_ (fun ready => ⟨ready, rfl, rfl, rfl⟩)
    intro s stage heard
    rcases heard.last_sent with rfl | ⟨_, same⟩ | ⟨_, same⟩ | ⟨rfl, same⟩
    · trivial
    · cases same
    · cases same
    · exact ⟨heard.1, heard.2.1, Or.inr ⟨rfl, Command.xlat.inj same⟩⟩
  | avail id => exact received_avail ntb id held
  | unavail id =>
    have kept : Agrees mine task segment available none dev.view :=
      held.received _ (fun _ _ heard => heard.other rfl _)
        (fun ready => ⟨ready, rfl, rfl, rfl⟩)
    simp only [SisciDev.handle]
    split_ifs
    · exact kept.unmapped
    · exact kept
  | unknown cmd data =>
    exact held.received _ (fun _ _ heard => heard.other rfl _)
      (fun ready => ⟨ready, rfl, rfl, rfl⟩)

/-- The command that is accepted moves the publication on by one. -/
theorem Agrees.sent (held : Agrees mine (.publish stage) (some s) available none view) :
    Agrees mine stage.next (some s) available (some (stage.command s)) view := by
  obtain ⟨_, found, offered, heard⟩ := held.publishing stage rfl
  obtain rfl := Option.some.inj found
  cases stage with
  | segid =>
    refine ⟨held.available, ?_, nofun, held.ready⟩
    intro next running
    cases running
    exact ⟨s, rfl, offered, Or.inl rfl⟩
  | size =>
    have unmapped : view.mapped = false := by simpa [Heard] using heard
    refine ⟨held.available, ?_, nofun, held.ready⟩
    intro next running
    cases running
    exact ⟨s, rfl, offered, unmapped, Or.inl rfl⟩
  | xlat =>
    have size : view.size = s.size := by simpa [Heard] using heard.2
    refine ⟨held.available, ?_, nofun, held.ready⟩
    intro next running
    cases running
    exact ⟨s, rfl, offered, heard.1, size, Or.inl rfl⟩
  | avail =>
    have xlat : view.xlat = s.dma := by simpa [Heard] using heard.2.2
    refine ⟨held.available, nofun, ?_, held.ready⟩
    intro id posted
    cases posted
    exact ⟨s, offered, rfl, heard.1, heard.2.1, xlat⟩

/-- A command sent outside a publication. -/
theorem Agrees.posted (held : Agrees mine task segment available none view)
    (other : ∀ id, command ≠ .avail id) (task' : Task) (ended : ∀ stage, task' ≠ .publish stage) :
    Agrees mine task' segment available (some command) view :=
  ⟨held.available, fun stage running => absurd running (ended stage),
    fun id posted => absurd (Option.some.inj posted) (other id), held.ready⟩

theorem offer_eq {dev dev' : SisciDev} (same : dev'.offer = dev.offer) :
    dev'.segment = dev.segment ∧ dev'.localAvailable = dev.localAvailable :=
  ⟨congrArg SisciDev.Offer.segment same, congrArg SisciDev.Offer.available same⟩

theorem service_publisher (held : Toward mine own peer) : Toward mine own.service peer := by
  unfold Vm.service
  cases own.link with
  | true => exact held.publisher .recv own.dev.segment own.dev.localAvailable held.available nofun
  | false => exact held

theorem publishAvailableLocked_publisher (held : Toward mine own peer) :
    Toward mine own.publishAvailableLocked peer := by
  refine held.publisher _ own.dev.segment own.dev.localAvailable held.available ?_
  intro stage running
  simp only [Vm.publishAvailableLocked] at running
  split_ifs at running with should
  cases running
  simp only [SisciDev.shouldPublish, Bool.and_eq_true] at should
  exact ⟨rfl, should.1.1.2⟩

theorem publishUnavailableLocked_publisher (held : Toward mine own peer) (id : BitVec 32)
    (remove : Bool) : Toward mine (own.publishUnavailableLocked id remove) peer := by
  refine held.publisher _ own.dev.segment false nofun ?_
  intro stage running
  simp only [Vm.publishUnavailableLocked] at running
  split_ifs at running

theorem recv_publisher (held : Toward mine own peer) (ntb : Ntb) :
    Toward mine (own.recv ntb) peer := by
  unfold Vm.recv
  cases own.inbox with
  | some command =>
    obtain ⟨segment, available⟩ := offer_eq (own.dev.handle_offer ntb command)
    show Agrees mine own.task _ _ peer.inbox peer.dev.view
    rw [segment, available]
    exact held
  | none => exact publishAvailableLocked_publisher held

/-- What a VM does keeps its own publications in agreement with the peer. -/
theorem act_publisher (held : Toward mine own peer)
    (moved : Moves own peer action own' peer' notes) :
    Toward (mine ++ notes) own' peer' := by
  have noted := held.note notes
  cases moved with
  | refused idle => exact noted
  | created idle unavailable segment =>
    exact noted.publisher own.task segment false nofun
      (fun stage running => absurd (idle.symm.trans running) nofun)
  | @offered id segment idle found =>
    refine publishAvailableLocked_publisher (noted.publisher own.task own.dev.segment true ?_ ?_)
    · exact fun _ => ⟨segment, found, by simp⟩
    · exact fun stage running => absurd (idle.symm.trans running) nofun
  | withdrawn action idle found remove => exact publishUnavailableLocked_publisher noted _ remove
  | served idle => exact service_publisher noted
  | received ntb receiving => exact recv_publisher noted ntb
  | @published stage segment empty running found =>
    rw [running, found, empty] at noted
    show Agrees _ stage.next own.dev.segment own.dev.localAvailable _ peer.dev.view
    rw [found]
    exact noted.sent
  | @revoked remove id empty running =>
    rw [empty] at noted
    have other : ∀ other, Command.unavail id ≠ .avail other := nofun
    refine noted.posted other _ ?_
    intro stage ended
    split_ifs at ended
  | failed sending => exact noted.publisher .idle _ _ noted.available nofun
  | freed freeing => exact noted.publisher .idle none false nofun nofun
  | linked up => exact noted

theorem service_receiver (held : Toward mine peer own) : Toward mine peer own.service := by
  unfold Vm.service
  cases own.link with
  | true => exact held
  | false => exact held.unmapped

theorem recv_receiver (held : Toward mine peer own) (ntb : Ntb) :
    Toward mine peer (own.recv ntb) := by
  unfold Vm.recv
  cases waiting : own.inbox with
  | some command =>
    unfold Toward at held
    rw [waiting] at held
    exact received_inv ntb held
  | none => exact held

/-- What a VM does keeps its view of the peer in agreement with the peer. -/
theorem act_receiver (held : Toward mine peer own)
    (moved : Moves own peer action own' peer' notes) :
    Toward mine peer' own' := by
  cases moved with
  | served idle => exact service_receiver held
  | received ntb receiving => exact recv_receiver held ntb
  | _ => exact held

theorem agreement_kept : Keeps Vm.act (fun _ _ _ => True)
    (fun mine own theirs peer => Toward mine own peer ∧ Toward theirs peer own) where
  acted := by
    intro own peer mine theirs action own' peer' notes held _ stepped
    exact ⟨act_publisher held.1 (act_moves stepped), act_receiver held.2 (act_moves stepped)⟩
  symm := And.symm

theorem loaded_toward : Toward [] Vm.loaded Vm.loaded := ⟨nofun, nofun, nofun, nofun⟩

/-- A ready driver has the identifier of one segment its peer made available, and
has given that segment's address and size to its window. -/
theorem segments_agree (path : run System.step .start ls = some (t, es)) (p : Party)
    (ready : (t.get p).dev.peerReady = true) :
    ∃ segment, (p.other, Note.offered segment) ∈ es ∧
      (t.get p).dev.remoteSegmentId = segment.id ∧
      (t.get p).dev.trans = some (segment.dma, segment.size) := by
  have always : Along System.step (Acting fun _ _ _ => True) .start ls :=
    along_always (acting_always fun _ _ _ => trivial) System.start ls
  have held := agreement_kept.run always path ⟨loaded_toward, loaded_toward⟩
  obtain ⟨_, segment, offered, id, trans⟩ := (agreement_kept.get held p).2.ready ready
  exact ⟨segment, mem_notesOf.mp offered, id, trans⟩

/-- A publication that stops after its SIZE, and one of another segment. -/
def restartSchedule : List (Party × Action) :=
  linkUp ++
    [(Party.first, Action.createSegment (.paged 0x10000) 0x1000 7 0x4000),
      (.first, .setAvailable 7)] ++
    deliver ++ deliver ++
    [(Party.first, Action.fail), (.first, .removeSegment 7), (.first, .free),
      (.first, .createSegment (.paged 0x20000) 0x1000 8 0x2000), (.first, .setAvailable 8)] ++
    deliver ++ deliver ++ deliver ++ deliver

theorem segments_agree_restarted :
    ∃ t es, run System.step .start restartSchedule = some (t, es) ∧
      (t.get .second).dev.remoteSegmentId = 8 ∧
      (t.get .second).dev.trans = some (0x20000, 0x2000) ∧
      ∃ segment, (Party.first, Note.offered segment) ∈ es ∧
        (t.get .second).dev.remoteSegmentId = segment.id ∧
        (t.get .second).dev.trans = some (segment.dma, segment.size) := by
  have outcome : (run System.step .start restartSchedule).map (fun r =>
      ((r.1.get .second).dev.peerReady, (r.1.get .second).dev.remoteSegmentId,
        (r.1.get .second).dev.trans)) = some (true, 8, some (0x20000, 0x2000)) := by decide +kernel
  obtain ⟨⟨t, es⟩, path, reached⟩ := Option.map_eq_some_iff.mp outcome
  simp only [Prod.mk.injEq] at reached
  obtain ⟨ready, id, trans⟩ := reached
  exact ⟨t, es, path, id, trans, segments_agree path .second ready⟩

end IdtNtb.Sisci
