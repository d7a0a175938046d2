import IdtNtb.Sisci.Agreement
import IdtNtb.Sisci.Release

/-! Handles of the SISCI library. A handle remembers the identifier it was created
for or connected to, but `mmap` is told only which of the two regions to map, and
the driver has one segment in each. What the map call finds there may have been
replaced since. -/
namespace IdtNtb.Sisci
open Kernel Parties Transition

/-- `sci_local_segment_t` and `sci_remote_segment_t`. -/
inductive Handle where
  | localSegment (id : BitVec 32) (size : Nat)
  | remoteSegment (id : BitVec 32) (size : Nat)
  deriving DecidableEq

def Handle.size : Handle → Nat
  | .localSegment _ size | .remoteSegment _ size => size

def Handle.region : Handle → SisciDev.Region
  | .localSegment .. => .localSegment
  | .remoteSegment .. => .remoteSegment

/-- `SCIMapLocalSegment` and `SCIMapRemoteSegment`, through `sci_map_segment`. An
offset beyond the segment fails however the default size wraps. -/
def Handle.map (h : Handle) (dev : SisciDev) (offset size : Nat) (remap : Except Errno Unit) :
    Except Errno SisciDev.Mapped :=
  let size := if size = 0 then h.size - offset else size
  if size = 0 ∨ offset > h.size ∨ size > h.size - offset then .error .einval
  else dev.mmap h.region (pageAlign (offset + size)) remap

structure Client where
  vm : Vm
  handles : List Handle

/-- The calls that yield and use handles. The other ioctls of the library, the
worker and the link are actions of the driver. -/
inductive Call where
  | driver (action : Action)
  | createSegment (ntb : Ntb) (bufferSize : Nat) (id : BitVec 32) (size : Nat)
  | connectSegment (id : BitVec 32)
  | mapSegment (h : Handle) (offset size : Nat) (remap : Except Errno Unit)
  | close (h : Handle)

/-- A map call comes with the driver's record and the peer's segment at that
moment. -/
inductive ClientNote where
  | driver (note : Note)
  | map (h : Handle) (result : Except Errno SisciDev.Mapped) (dev : SisciDev)
      (peer : Option Segment)

/-- The handle of a `SCICreateSegment` that succeeds. -/
def Client.created (own : Client) (ntb : Ntb) (bufferSize : Nat) (id : BitVec 32) (size : Nat) :
    List Handle :=
  match own.vm.dev.allocLocalSegmentLocked ntb bufferSize id size with
  | (_, dev, .ok ()) => dev.segment.toList.map fun segment => .localSegment id segment.size
  | _ => []

def Client.act (own peer : Client) : Call → Option (Client × Client × List ClientNote)
  | .driver action =>
      (own.vm.act peer.vm action).map fun (vm, other, notes) =>
        ({ own with vm }, { peer with vm := other }, notes.map .driver)
  | .createSegment ntb bufferSize id size =>
      if size = 0 then none
      else
        (own.vm.act peer.vm (.createSegment ntb bufferSize id size)).map fun (vm, other, notes) =>
          (⟨vm, own.created ntb bufferSize id size ++ own.handles⟩, { peer with vm := other },
            notes.map .driver)
  | .connectSegment id =>
      if own.vm.task = .idle then
        match own.vm.dev.connectSegment id with
        | .error _ => some (own, peer, [])
        | .ok size => some ({ own with handles := .remoteSegment id size :: own.handles }, peer, [])
      else none
  | .mapSegment h offset size remap =>
      if own.vm.task = .idle ∧ h ∈ own.handles then
        some (own, peer,
          [.map h (h.map own.vm.dev offset size remap) own.vm.dev peer.vm.dev.segment])
      else none
  | .close h => some ({ own with handles := own.handles.erase h }, peer, [])

/-- A map call that succeeds on a handle for `id` finds the driver holding `id` in
that role, and maps it. -/
def ClientNote.OwnSegment : ClientNote → Prop
  | .driver _ => True
  | .map (.localSegment id _) result dev _ =>
      ∀ found, result = .ok found → ∃ s, dev.segment = some s ∧ s.id = id ∧ found = .buffer s
  | .map (.remoteSegment id _) result dev peer =>
      ∀ found, result = .ok found → dev.peerReady = true ∧ dev.remoteSegmentId = id ∧
        ∃ s, peer = some s ∧ s.id = id ∧ found = .window (some (s.dma, s.size))

/-- The command takes back the segment `id`. -/
def Command.revokes (id : BitVec 32) : Command → Bool
  | .segid _ => true
  | .unavail other => other = id
  | _ => false

/-- The driver has no other segment in the handle's role when it is mapped; a
remote one is not being taken back, and what the peer did before was told. -/
def Client.Fresh (own peer : Client) : Call → Prop
  | .driver action => Revocable own.vm peer.vm action
  | .mapSegment (.localSegment id _) .. => ∀ s ∈ own.vm.dev.segment, s.id = id
  | .mapSegment (.remoteSegment id _) .. => own.vm.dev.peerReady = true →
      own.vm.dev.remoteSegmentId = id ∧ ∀ c ∈ own.vm.inbox, c.revokes id = false
  | _ => True

instance (own peer : Client) : ∀ call, Decidable (own.Fresh peer call)
  | .driver action => inferInstanceAs (Decidable (Revocable own.vm peer.vm action))
  | .mapSegment (.localSegment id _) .. =>
      inferInstanceAs (Decidable (∀ s ∈ own.vm.dev.segment, s.id = id))
  | .mapSegment (.remoteSegment id _) .. =>
      inferInstanceAs (Decidable (own.vm.dev.peerReady = true →
        own.vm.dev.remoteSegmentId = id ∧ ∀ c ∈ own.vm.inbox, c.revokes id = false))
  | .createSegment .. | .connectSegment _ | .close _ => .isTrue trivial

/-! ## The window shows the exposed segment -/

/-- One direction: what is ready is the segment its publisher has exposed, unless
the command that takes it back is already waiting. -/
structure Shows (exposed : Option Segment) (inbox : Option Command) (view : View) : Prop where
  ready : view.ready = true → (∃ c, inbox = some c ∧ c.revokes view.id = true) ∨
    ∃ s, exposed = some s ∧ view.id = s.id ∧ view.trans = some (s.dma, s.size)
  waiting : ∀ id, inbox = some (.avail id) → ∃ s, exposed = some s ∧ id = s.id ∧ Primed view s

variable {mine theirs notes : List Note} {own peer own' peer' : Vm} {action : Action}

theorem shows_unready (unready : view.ready = false) (waiting : ∀ id, inbox ≠ some (.avail id)) :
    Shows exposed inbox view :=
  ⟨fun ready => absurd (unready.symm.trans ready) nofun, fun id same => absurd same (waiting id)⟩

/-- With a command waiting that takes nothing back, the window is current. -/
theorem Shows.current (shown : Shows exposed inbox view) (ready : view.ready = true)
    (kept : ∀ c ∈ inbox, c.revokes view.id = false) :
    ∃ s, exposed = some s ∧ view.id = s.id ∧ view.trans = some (s.dma, s.size) := by
  rcases shown.ready ready with ⟨c, waiting, revokes⟩ | found
  · exact absurd ((kept c waiting).symm.trans revokes) nofun
  · exact found

abbrev ShownTo (own peer : Vm) : Prop := Shows own.exposed peer.inbox peer.dev.view

theorem publish_shows (toward : Toward mine own peer) (shown : ShownTo own peer) {segment : Segment}
    (empty : peer.inbox = none) (running : own.task = .publish stage)
    (found : own.dev.segment = some segment) :
    Shows (own.tell (stage.command segment)) (some (stage.command segment)) peer.dev.view := by
  have current (ready : peer.dev.view.ready = true) := shown.current ready (by rw [empty]; nofun)
  cases stage with
  | segid => exact ⟨fun _ => Or.inl ⟨_, rfl, rfl⟩, nofun⟩
  | size => exact ⟨fun ready => Or.inr (current ready), nofun⟩
  | xlat => exact ⟨fun ready => Or.inr (current ready), nofun⟩
  | avail =>
    -- The three commands before it left the receiver without a window.
    obtain ⟨s, same, -, heard⟩ := toward.publishing .avail running
    obtain rfl := Option.some.inj (found.symm.trans same)
    rw [empty] at heard
    obtain ⟨unmapped, size, xlat⟩ := heard
    refine ⟨?_, ?_⟩
    · intro ready
      exact absurd ((toward.unready unmapped).symm.trans ready) nofun
    · intro id waiting
      cases waiting
      exact ⟨segment, found, rfl, unmapped, size, by simpa using xlat⟩

theorem revoke_shows (shown : ShownTo own peer) (empty : peer.inbox = none) (id : BitVec 32) :
    Shows (own.tell (.unavail id)) (some (.unavail id)) peer.dev.view := by
  refine ⟨?_, nofun⟩
  intro ready
  obtain ⟨s, exposed, named, trans⟩ := shown.current ready (by rw [empty]; nofun)
  by_cases same : s.id = id
  · refine Or.inl ⟨_, rfl, ?_⟩
    rw [named, same]
    exact decide_eq_true rfl
  · refine Or.inr ⟨s, ?_, named, trans⟩
    simp only [Vm.tell, exposed, Option.filter_some, same, ne_eq, not_false_eq_true,
      decide_true, if_true]

theorem act_shows (toward : Toward mine own peer) (shown : ShownTo own peer)
    (moved : Moves own peer action own' peer' notes) : ShownTo own' peer' := by
  cases moved with
  | published empty running found => exact publish_shows toward shown empty running found
  | revoked empty running => exact revoke_shows shown empty _
  | served idle =>
    unfold ShownTo
    rw [service_exposed]
    exact shown
  | received ntb receiving =>
    unfold ShownTo
    rw [recv_exposed]
    exact shown
  | _ => exact shown

/-- The receiver takes the command that is waiting. -/
theorem handle_shows {dev : SisciDev} {segment : Option Segment} (ntb : Ntb)
    (agrees : Agrees mine task segment available (some command) dev.view)
    (shown : Shows exposed (some command) dev.view) :
    Shows exposed none (dev.handle ntb command).view := by
  have kept (after : View)
      (same : after.ready = dev.view.ready ∧ after.id = dev.view.id ∧ after.trans = dev.view.trans)
      (harmless : command.revokes dev.view.id = false) : Shows exposed none after := by
    refine ⟨?_, nofun⟩
    rw [same.1, same.2.1, same.2.2]
    intro ready
    exact Or.inr (shown.current ready fun c waiting => by cases waiting; exact harmless)
  cases command with
  | segid id => exact shows_unready rfl nofun
  | size data => exact kept _ ⟨rfl, rfl, rfl⟩ rfl
  | xlat data => exact kept _ ⟨rfl, rfl, rfl⟩ rfl
  | avail id =>
    obtain ⟨s, told, rfl, primed⟩ := shown.waiting id rfl
    refine ⟨?_, nofun⟩
    intro ready
    rw [avail_opens (agrees.unready primed.mapped) ready]
    have pair : (dev.remoteXlat, dev.remoteSize) = (s.dma, s.size) :=
      Prod.ext primed.xlat primed.size
    exact Or.inr ⟨s, told, rfl, congrArg some pair⟩
  | unavail id =>
    simp only [SisciDev.handle]
    split
    · exact shows_unready rfl nofun
    · rename_i other
      exact kept _ ⟨rfl, rfl, rfl⟩ (decide_eq_false (Ne.symm other))
  | unknown cmd data => exact kept _ ⟨rfl, rfl, rfl⟩ rfl

theorem Shows.unmapped (shown : Shows exposed inbox view) :
    Shows exposed inbox { view with ready := false, mapped := false, trans := none } := by
  refine ⟨nofun, ?_⟩
  intro id waiting
  obtain ⟨s, told, same, primed⟩ := shown.waiting id waiting
  exact ⟨s, told, same, rfl, primed.size, primed.xlat⟩

theorem receive_shows (toward : Toward mine peer own) (shown : ShownTo peer own)
    (moved : Moves own peer action own' peer' notes) : ShownTo peer' own' := by
  cases moved with
  | served idle =>
    unfold ShownTo Vm.service
    split
    · exact shown
    · exact shown.unmapped
  | received ntb receiving =>
    unfold Vm.recv
    cases waiting : own.inbox with
    | none => exact shown
    | some command =>
      unfold ShownTo at shown
      unfold Toward at toward
      rw [waiting] at shown toward
      exact handle_shows ntb toward shown
  | _ => exact shown

/-- Two drivers seen from one of them: what each tells the other, and what it keeps
for it. -/
structure Together (mine : List Note) (own : Vm) (theirs : List Note) (peer : Vm) : Prop where
  toward : Toward mine own peer
  back : Toward theirs peer own
  guarded : Guarded mine own
  guards : Guarded theirs peer
  shown : ShownTo own peer
  seen : ShownTo peer own

theorem together_kept : Keeps Vm.act Revocable Together where
  acted := by
    intro own peer mine theirs action own' peer' notes held revocable stepped
    have moved := act_moves stepped
    exact
      { toward := act_publisher held.toward moved
        back := act_receiver held.back moved
        guarded := act_guarded held.guarded revocable moved
        guards := peer_guarded held.guards moved
        shown := act_shows held.toward held.shown moved
        seen := receive_shows held.back held.seen moved }
  symm held := ⟨held.back, held.toward, held.guards, held.guarded, held.seen, held.shown⟩

theorem loaded_together : Together [] Vm.loaded [] Vm.loaded :=
  ⟨loaded_toward, loaded_toward, loaded_guarded, loaded_guarded, ⟨nofun, nofun⟩, ⟨nofun, nofun⟩⟩

/-- A ready driver whose segment is not being taken back has its window on the
segment that its peer holds. -/
theorem Together.window (held : Together mine own theirs peer) (ready : own.dev.peerReady = true)
    (kept : ∀ c ∈ own.inbox, c.revokes own.dev.remoteSegmentId = false) :
    ∃ s, peer.dev.segment = some s ∧ own.dev.remoteSegmentId = s.id ∧
      own.dev.trans = some (s.dma, s.size) := by
  obtain ⟨s, exposed, named, trans⟩ := held.seen.current ready kept
  exact ⟨s, (held.guards.sound.exposed s exposed).1, named, trans⟩

/-! ## Handles -/

def driverNotes (notes : List ClientNote) : List Note :=
  notes.filterMap fun
    | .driver note => some note
    | .map .. => none

theorem driverNotes_driver (before : List ClientNote) (notes : List Note) :
    driverNotes (before ++ notes.map .driver) = driverNotes before ++ notes := by
  simp [driverNotes, List.filterMap_map]

theorem driverNotes_map (before : List ClientNote) :
    driverNotes (before ++ [ClientNote.map h result dev other]) = driverNotes before := by
  simp [driverNotes]

/-- A map call that succeeds is an `mmap` of the handle's region that does. -/
theorem Handle.map_ok {h : Handle} {dev : SisciDev} {size : Nat}
    (mapped : h.map dev offset size remap = .ok found) :
    ∃ length, dev.mmap h.region length remap = .ok found := by
  simp only [Handle.map] at mapped
  split_ifs at mapped
  · exact ⟨_, mapped⟩
  · exact ⟨_, mapped⟩

theorem map_ownSegment {own peer : Client} (held : Together mine own.vm theirs peer.vm) (h : Handle)
    (fresh : own.Fresh peer (.mapSegment h offset size remap)) :
    ClientNote.OwnSegment
      (.map h (h.map own.vm.dev offset size remap) own.vm.dev peer.vm.dev.segment) := by
  cases h with
  | localSegment id extent =>
    intro found mapped
    obtain ⟨length, mapped⟩ := Handle.map_ok mapped
    obtain ⟨s, current, same, -⟩ := SisciDev.mmap_local mapped
    exact ⟨s, current, fresh s current, same⟩
  | remoteSegment id extent =>
    intro found mapped
    obtain ⟨length, mapped⟩ := Handle.map_ok mapped
    obtain ⟨ready, -, same, -⟩ := SisciDev.mmap_remote mapped
    obtain ⟨named, kept⟩ := fresh ready
    rw [← named] at kept
    obtain ⟨s, current, segment, trans⟩ := held.window ready kept
    exact ⟨ready, named, s, current, segment.symm.trans named, by rw [same, trans]⟩

def Honest (notes : List ClientNote) : Prop := ∀ note ∈ notes, note.OwnSegment

theorem Honest.append (before : Honest earlier) (after : Honest more) : Honest (earlier ++ more) :=
  List.forall_mem_append.mpr ⟨before, after⟩

theorem honest_driver (notes : List Note) : Honest (notes.map .driver) := by
  intro note found
  obtain ⟨_, _, rfl⟩ := List.mem_map.mp found
  trivial

def Attended (mine : List ClientNote) (own : Client) (theirs : List ClientNote)
    (peer : Client) : Prop :=
  Together (driverNotes mine) own.vm (driverNotes theirs) peer.vm ∧ Honest mine ∧ Honest theirs

theorem Attended.driven {own peer : Client} {mine theirs : List ClientNote}
    (held : Attended mine own theirs peer) (revocable : Revocable own.vm peer.vm action)
    (acted : own.vm.act peer.vm action = some (vm, other, notes)) (handles : List Handle) :
    Attended (mine ++ notes.map .driver) ⟨vm, handles⟩ theirs { peer with vm := other } := by
  unfold Attended
  rw [driverNotes_driver]
  exact ⟨together_kept.acted held.1 revocable acted, held.2.1.append (honest_driver notes),
    held.2.2⟩

theorem attended_kept : Keeps Client.act Client.Fresh Attended where
  acted := by
    intro own peer mine theirs call own' peer' notes held fresh acted
    cases call with
    | driver action =>
      obtain ⟨⟨vm, other, reported⟩, moved, same⟩ := Option.map_eq_some_iff.mp acted
      cases same
      exact held.driven fresh moved own.handles
    | createSegment ntb bufferSize id size =>
      obtain ⟨_, acted⟩ := Option.ite_none_left_eq_some.mp acted
      obtain ⟨⟨vm, other, reported⟩, moved, same⟩ := Option.map_eq_some_iff.mp acted
      cases same
      have revocable : Revocable own.vm peer.vm (.createSegment ntb bufferSize id size) := trivial
      exact held.driven revocable moved _
    | connectSegment id =>
      obtain ⟨_, acted⟩ := Option.ite_none_right_eq_some.mp acted
      split at acted
      · cases acted
        rwa [List.append_nil]
      · cases acted
        rwa [List.append_nil]
    | mapSegment h offset size remap =>
      obtain ⟨_, acted⟩ := Option.ite_none_right_eq_some.mp acted
      cases acted
      refine ⟨?_, held.2.1.append ?_, held.2.2⟩
      · rw [driverNotes_map]
        exact held.1
      · intro note found
        cases List.mem_singleton.mp found
        exact map_ownSegment held.1 h fresh
    | close h =>
      cases acted
      rwa [List.append_nil]
  symm held := ⟨together_kept.symm held.1, held.2.2, held.2.1⟩

def Clients.start : Pair Client := ⟨⟨.loaded, []⟩, ⟨.loaded, []⟩⟩

abbrev Clients.step : Pair Client → Party × Call →
    Option (Pair Client × List (Party × ClientNote)) :=
  Parties.step Client.act

theorem attended_start : Attended [] Clients.start.first [] Clients.start.second :=
  ⟨loaded_together, List.forall_mem_nil _, List.forall_mem_nil _⟩

/-- Every map call maps the segment its handle was created for or connected to, if
no other segment took its place and the peer was told of every change. -/
theorem handles_own_segment (fresh : Along Clients.step (Acting Client.Fresh) Clients.start ls)
    (path : run Clients.step Clients.start ls = some (t, es)) (found : (p, note) ∈ es) :
    note.OwnSegment := by
  have held := attended_kept.run fresh path attended_start
  exact (attended_kept.get held p).2.1 note (mem_notesOf.mpr found)

def ClientNote.mapped : ClientNote → Option (Handle × SisciDev.Mapped)
  | .map h (.ok found) _ _ => some (h, found)
  | _ => none

theorem ClientNote.eq_map {note : ClientNote} (mapped : note.mapped = some (h, found)) :
    ∃ dev peer, note = .map h (.ok found) dev peer := by
  cases note with
  | driver note => cases mapped
  | map h result dev peer =>
    cases result with
    | error e => cases mapped
    | ok found =>
      cases mapped
      exact ⟨dev, peer, rfl⟩

def driven (actions : List (Party × Action)) : List (Party × Call) :=
  actions.map fun (p, action) => (p, .driver action)

def drained : List (Party × Call) := driven [(.second, .recv (.paged 0))]

/-- The first VM creates and publishes segment 7, and the second connects to it. -/
def connectSchedule : List (Party × Call) :=
  driven linkUp ++ [(Party.first, Call.createSegment (.paged 0x10000) 0x1000 7 0x4000)] ++
    driven ((.first, .setAvailable 7) :: deliver ++ deliver ++ deliver ++ deliver) ++ drained ++
    [(.second, .connectSegment 7)]

def mapBoth : List (Party × Call) :=
  [(.first, .mapSegment (.localSegment 7 0x4000) 0 0 (.ok ())),
    (.second, .mapSegment (.remoteSegment 7 0x4000) 0 0 (.ok ()))]

theorem handles_own_segment_connected :
    ∃ t es, run Clients.step Clients.start (connectSchedule ++ mapBoth) = some (t, es) ∧
      es.filterMap (·.2.mapped) =
        [(.localSegment 7 0x4000, .buffer ⟨7, 0x10000, 0x4000, by decide⟩),
          (.remoteSegment 7 0x4000, .window (some (0x10000, 0x4000)))] ∧
      ∀ p note, (p, note) ∈ es → note.OwnSegment := by
  have outcome : (run Clients.step Clients.start (connectSchedule ++ mapBoth)).map
      (fun r => r.2.filterMap (·.2.mapped)) =
      some [(.localSegment 7 0x4000, .buffer ⟨7, 0x10000, 0x4000, by decide⟩),
        (.remoteSegment 7 0x4000, .window (some (0x10000, 0x4000)))] := by decide +kernel
  obtain ⟨⟨t, es⟩, path, reached⟩ := Option.map_eq_some_iff.mp outcome
  have fresh : Along Clients.step (Acting Client.Fresh) Clients.start
      (connectSchedule ++ mapBoth) := by
    decide +kernel
  exact ⟨t, es, path, reached, fun p note found => handles_own_segment fresh path found⟩

/-- Before they map it, another process of the first VM takes it back and publishes
segment 8. -/
def replaceSchedule : List (Party × Call) :=
  connectSchedule ++
    driven ((.second, .service) :: (.first, .setUnavailable 7) :: deliver) ++
    [(Party.first, Call.createSegment (.paged 0x20000) 0x1000 8 0x4000)] ++
    driven ((.first, .setAvailable 8) :: deliver ++ deliver ++ deliver ++ deliver) ++
      drained ++ mapBoth

theorem handles_map_replacement :
    ∃ t es, run Clients.step Clients.start replaceSchedule = some (t, es) ∧
      es.filterMap (·.2.mapped) =
        [(.localSegment 7 0x4000, .buffer ⟨8, 0x20000, 0x4000, by decide⟩),
          (.remoteSegment 7 0x4000, .window (some (0x20000, 0x4000)))] ∧
      ¬∀ p note, (p, note) ∈ es → note.OwnSegment := by
  have outcome : (run Clients.step Clients.start replaceSchedule).map
      (fun r => r.2.filterMap (·.2.mapped)) =
      some [(.localSegment 7 0x4000, .buffer ⟨8, 0x20000, 0x4000, by decide⟩),
        (.remoteSegment 7 0x4000, .window (some (0x20000, 0x4000)))] := by decide +kernel
  obtain ⟨⟨t, es⟩, path, reached⟩ := Option.map_eq_some_iff.mp outcome
  refine ⟨t, es, path, reached, ?_⟩
  intro honest
  obtain ⟨⟨p, note⟩, found, mapped⟩ : ∃ e ∈ es, e.2.mapped =
      some (.localSegment 7 0x4000, .buffer ⟨8, 0x20000, 0x4000, by decide⟩) := by
    rw [← List.mem_filterMap, reached]
    exact List.mem_cons_self
  obtain ⟨dev, peer, rfl⟩ := ClientNote.eq_map mapped
  obtain ⟨s, -, named, same⟩ := honest p _ found _ rfl
  cases same
  exact absurd named (by decide)

end IdtNtb.Sisci
