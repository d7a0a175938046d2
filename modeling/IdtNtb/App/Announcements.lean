import IdtNtb.App.Driver
import IdtNtb.Lib.Transition

/-! The window a driver opens from its peer's announcements. The peer publishes
the size and the address of its inbound buffer as two commands, and each module
load of the peer brings a buffer of its own. The driver keeps what it was last
told across link changes, so a SIZE can meet the address of an earlier buffer.
Windows are never mixed in runs in which that does not happen. -/
namespace IdtNtb.App.Announcements
open Kernel Transition

structure State where
  app : AppDev
  peer : Option Buffer
  /-- The buffer whose SIZE the peer has sent and whose XLAT it has not. -/
  publishing : Option Buffer
  inbox : Option Command
  /-- Every inbound buffer the peer has had. -/
  made : List Buffer

/-- `load` and `reload` are module loads of the peer and of the driver itself;
`abandon` is a failed second send. -/
inductive Label where
  | load (ntb : Ntb) (bufferSize : Nat)
  | publish
  | publishXlat
  | abandon
  | kick (data : Nat)
  | reload
  | link (up : Bool)
  | recv (ntb : Ntb)

/-- A send succeeds only into empty message registers. -/
def State.send (s : State) (command : Command) : Option State :=
  match s.inbox with
  | some _ => none
  | none => some { s with inbox := some command }

/-- A load forgets the record, and `ntb_idt_app_enable` clears the registers. -/
def State.reload (s : State) : State := { s with app := .probed, inbox := none }

def State.load (s : State) (ntb : Ntb) (bufferSize : Nat) : State :=
  match AppDev.probed.setupInboundMw ntb bufferSize with
  | .error _ => { s with peer := none, publishing := none }
  | .ok peer =>
      { s with peer := peer.rx, publishing := none, made := peer.rx.toList ++ s.made }

def State.next (s : State) : Label → Option State
  | .load ntb bufferSize => some (s.load ntb bufferSize)
  | .publish =>
      match s.publishing, s.peer with
      | none, some buffer => { s with publishing := some buffer }.send (.size buffer.size)
      | _, _ => none
  | .publishXlat =>
      match s.publishing with
      | some buffer => { s with publishing := none }.send (.xlat buffer.dma)
      | none => none
  | .abandon => some { s with publishing := none }
  | .kick data =>
      match s.publishing with
      | none => s.send (.kick data)
      | some _ => none
  | .reload => some s.reload
  | .link up => some { s with app := s.app.setLink up }
  | .recv ntb =>
      if s.app.linkUp then
        s.inbox.map fun command => { s with app := s.app.announce ntb command, inbox := none }
      else none

def State.step : State → Label → Option (State × List Unit) := silent State.next

/-- The outbound map is at least as large as every buffer of the peer. -/
def Wide (s : State) (ntb : Ntb) : Prop :=
  match ntb.peerMwGetAddr with
  | .error _ => True
  | .ok (_, mapSize) => ∀ buffer ∈ s.made, buffer.size ≤ mapSize

/-- A SIZE about to be received meets no address, or that of a buffer of the
announced size. -/
def Matching (s : State) : Prop :=
  match s.inbox with
  | some (.size data) =>
      s.app.peerXlat = 0 ∨ ∃ buffer ∈ s.made, buffer.dma = s.app.peerXlat ∧ buffer.size = data
  | _ => True

/-- No buffer lies at address 0, which the driver takes for no address. -/
def Unmixed (s : State) : Label → Prop
  | .load ntb _ => ntb.dmaAlloc ≠ some 0
  | .recv ntb => Wide s ntb ∧ Matching s
  | _ => True

instance (s : State) (ntb : Ntb) : Decidable (Wide s ntb) := by
  unfold Wide
  split <;> infer_instance

instance (s : State) : Decidable (Matching s) := by
  unfold Matching
  split <;> infer_instance

instance (s : State) (l : Label) : Decidable (Unmixed s l) := by
  cases l <;> unfold Unmixed <;> infer_instance

/-- The driver has the size of `buffer`, or none. -/
def SizeOf (app : AppDev) (buffer : Buffer) : Prop :=
  app.peerSize = 0 ∨ app.peerSize = buffer.size

/-- A mapped window is one buffer's, and so is what the record says of it. -/
def Opened (app : AppDev) (made : List Buffer) : Prop :=
  app.peerIo = true → ∃ buffer ∈ made, app.peerXlat = buffer.dma ∧ app.peerSize = buffer.size ∧
    app.trans = some (buffer.dma, buffer.size)

def InFlight (app : AppDev) (made : List Buffer) : Command → Prop
  | .size data => ∃ buffer ∈ made, data = buffer.size
  | .xlat data => ∃ buffer ∈ made, data = buffer.dma ∧ SizeOf app buffer
  | _ => True

structure Inv (s : State) : Prop where
  addressed : ∀ buffer ∈ s.made, buffer.dma ≠ 0
  peer : ∀ buffer, s.peer = some buffer → buffer ∈ s.made
  opened : Opened s.app s.made
  inbox : ∀ command, s.inbox = some command → InFlight s.app s.made command
  publishing : ∀ buffer, s.publishing = some buffer → buffer ∈ s.made ∧
    (s.inbox = some (.size buffer.size) ∨ s.inbox = none ∧ SizeOf s.app buffer)

/-- After an attempt with one buffer's address and size, the driver has that
buffer's window or none. -/
theorem setup_pair {app after : AppDev} (setUp : AppDev.SetUp ntb app after)
    (member : buffer ∈ made)
    (addressed : buffer.dma ≠ 0) (xlat : app.peerXlat = buffer.dma)
    (size : app.peerSize = buffer.size)
    (wide : ∀ phys mapSize, ntb.peerMwGetAddr = .ok (phys, mapSize) → buffer.size ≤ mapSize) :
    Opened after made ∧ SizeOf after buffer := by
  cases setUp with
  | unchanged unknown =>
    have holds := buffer.holds_frame
    rw [xlat, size] at unknown
    omega
  | cleared => exact ⟨nofun, Or.inl rfl⟩
  | @opened phys mapSize found =>
    have fits := wide phys mapSize found
    have usable : min app.peerSize mapSize = buffer.size := by omega
    exact ⟨fun _ => ⟨buffer, member, xlat, usable, by rw [xlat, size]⟩, Or.inr usable⟩

/-- With half of a pair missing nothing is touched. -/
theorem setup_half {app : AppDev} (missing : app.peerXlat = 0 ∨ app.peerSize = 0) :
    app.trySetupPeerLocked ntb = app := by
  simp only [AppDev.trySetupPeerLocked, missing, if_true]

theorem wide_member (wide : Wide s ntb) (member : buffer ∈ s.made) :
    ∀ phys mapSize, ntb.peerMwGetAddr = .ok (phys, mapSize) → buffer.size ≤ mapSize := by
  intro phys mapSize found
  simp only [Wide, found] at wide
  exact wide buffer member

theorem recv_size {s : State} (held : Inv s) (wide : Wide s ntb)
    (matching : s.app.peerXlat = 0 ∨
      ∃ known ∈ s.made, known.dma = s.app.peerXlat ∧ known.size = buffer.size) :
    Opened (s.app.announce ntb (.size buffer.size)) s.made ∧
      SizeOf (s.app.announce ntb (.size buffer.size)) buffer := by
  let told : AppDev := { s.app with peerSize := buffer.size }
  show Opened (told.trySetupPeerLocked ntb) s.made ∧ SizeOf (told.trySetupPeerLocked ntb) buffer
  rcases matching with unknown | ⟨known, member, xlat, size⟩
  · have closed : s.app.peerIo ≠ true := by
      intro mapped
      obtain ⟨other, other_member, xlat, _, _⟩ := held.opened mapped
      exact held.addressed other other_member (xlat.symm.trans unknown)
    have untouched : told.trySetupPeerLocked ntb = told := setup_half (Or.inl unknown)
    rw [untouched]
    exact ⟨fun mapped => absurd mapped closed, Or.inr rfl⟩
  · have opened :=
      setup_pair (told.trySetupPeerLocked_setUp ntb) member (held.addressed known member)
      xlat.symm size.symm (wide_member wide member)
    exact ⟨opened.1, opened.2.imp_right (·.trans size)⟩

theorem recv_xlat {s : State} (held : Inv s) (wide : Wide s ntb) (member : buffer ∈ s.made)
    (size : SizeOf s.app buffer) : Opened (s.app.announce ntb (.xlat buffer.dma)) s.made := by
  let told : AppDev := { s.app with peerXlat := buffer.dma }
  show Opened (told.trySetupPeerLocked ntb) s.made
  rcases size with unknown | known
  · have closed : s.app.peerIo ≠ true := by
      intro mapped
      obtain ⟨other, _, _, size, _⟩ := held.opened mapped
      have holds := other.holds_frame
      omega
    have untouched : told.trySetupPeerLocked ntb = told := setup_half (Or.inr unknown)
    rw [untouched]
    exact fun mapped => absurd mapped closed
  · have opened :=
      setup_pair (told.trySetupPeerLocked_setUp ntb) member (held.addressed buffer member)
      rfl known (wide_member wide member)
    exact opened.1

/-- While the second half is outstanding only the first can be in flight. -/
theorem Inv.not_publishing {s : State} (held : Inv s) (waiting : s.inbox = some command)
    (other : ∀ data, command ≠ .size data) : s.publishing = none := by
  cases publishing : s.publishing with
  | none => rfl
  | some buffer =>
    obtain ⟨_, sent | ⟨empty, _⟩⟩ := held.publishing buffer publishing
    · rw [waiting] at sent
      exact absurd (Option.some.inj sent) (other buffer.size)
    · rw [waiting] at empty
      cases empty

theorem recv_inv {s : State} (held : Inv s) (wide : Wide s ntb) (matching : Matching s)
    (waiting : s.inbox = some command) :
    Inv { s with app := s.app.announce ntb command, inbox := none } := by
  have known := held.inbox command waiting
  simp only [Matching, waiting] at matching
  cases command with
  | size data =>
    obtain ⟨buffer, member, rfl⟩ := known
    obtain ⟨opened, size⟩ := recv_size held wide matching
    refine ⟨held.addressed, held.peer, opened, nofun, ?_⟩
    intro current publishing
    obtain ⟨current_member, sent | ⟨empty, _⟩⟩ := held.publishing current publishing
    · have same : buffer.size = current.size := by
        rw [waiting] at sent
        exact Command.size.inj (Option.some.inj sent)
      exact ⟨current_member, Or.inr ⟨rfl, size.imp_right (·.trans same)⟩⟩
    · rw [waiting] at empty
      cases empty
  | xlat data =>
    obtain ⟨buffer, member, rfl, size⟩ := known
    have finished := held.not_publishing waiting nofun
    exact ⟨held.addressed, held.peer, recv_xlat held wide member size, nofun,
      fun current publishing => absurd (finished.symm.trans publishing) nofun⟩
  | kick data =>
    have finished := held.not_publishing waiting nofun
    exact ⟨held.addressed, held.peer, held.opened, nofun,
      fun current publishing => absurd (finished.symm.trans publishing) nofun⟩
  | unknown cmd data =>
    have finished := held.not_publishing waiting nofun
    exact ⟨held.addressed, held.peer, held.opened, nofun,
      fun current publishing => absurd (finished.symm.trans publishing) nofun⟩

theorem Opened.mono (opened : Opened app made) (more : ∀ buffer ∈ made, buffer ∈ made') :
    Opened app made' := by
  intro mapped
  obtain ⟨buffer, member, pair⟩ := opened mapped
  exact ⟨buffer, more buffer member, pair⟩

theorem InFlight.mono (known : InFlight app made command) (more : ∀ buffer ∈ made, buffer ∈ made') :
    InFlight app made' command := by
  cases command with
  | size data =>
    obtain ⟨buffer, member, same⟩ := known
    exact ⟨buffer, more buffer member, same⟩
  | xlat data =>
    obtain ⟨buffer, member, same⟩ := known
    exact ⟨buffer, more buffer member, same⟩
  | kick data => trivial
  | unknown cmd data => trivial

theorem load_inv {s : State} (held : Inv s) (addressed : ntb.dmaAlloc ≠ some 0) :
    Inv (s.load ntb bufferSize) := by
  unfold State.load
  cases loaded : AppDev.probed.setupInboundMw ntb bufferSize with
  | error e => exact ⟨held.addressed, nofun, held.opened, held.inbox, nofun⟩
  | ok peer =>
    obtain ⟨buffer, made, kept | ⟨-, dma⟩⟩ := AppDev.setupInboundMw_ok loaded
    · cases kept
    have allocated : peer.rx = some buffer := by rw [made]
    have more : ∀ known ∈ s.made, known ∈ peer.rx.toList ++ s.made :=
      fun known member => List.mem_append_right _ member
    refine ⟨?_, ?_, held.opened.mono more, ?_, nofun⟩
    · intro known member
      rcases List.mem_append.mp member with new | old
      · obtain rfl : known = buffer := by simpa [allocated] using new
        exact fun zero => addressed (zero ▸ dma)
      · exact held.addressed known old
    · intro known current
      exact List.mem_append_left _ (by simp [show peer.rx = some known from current])
    · intro command waiting
      exact (held.inbox command waiting).mono more

theorem State.send_posts {s : State} (sent : s.send command = some t) :
    s.inbox = none ∧ t = { s with inbox := some command } := by
  unfold State.send at sent
  cases waiting : s.inbox with
  | some _ =>
    rw [waiting] at sent
    cases sent
  | none =>
    rw [waiting] at sent
    exact ⟨rfl, (Option.some.inj sent).symm⟩

theorem publish_inv {s : State} (held : Inv s) (current : s.peer = some buffer)
    (sent : { s with publishing := some buffer }.send (.size buffer.size) = some t) : Inv t := by
  have member := held.peer buffer current
  obtain ⟨-, rfl⟩ := State.send_posts sent
  refine ⟨held.addressed, held.peer, held.opened, ?_, ?_⟩
  · intro command posted
    obtain rfl := Option.some.inj posted
    exact ⟨buffer, member, rfl⟩
  · intro known publishing
    obtain rfl := Option.some.inj publishing
    exact ⟨member, Or.inl rfl⟩

theorem publishXlat_inv {s : State} (held : Inv s) (publishing : s.publishing = some buffer)
    (sent : { s with publishing := none }.send (.xlat buffer.dma) = some t) : Inv t := by
  obtain ⟨member, before⟩ := held.publishing buffer publishing
  obtain ⟨empty, rfl⟩ := State.send_posts sent
  refine ⟨held.addressed, held.peer, held.opened, ?_, nofun⟩
  intro command posted
  obtain rfl := Option.some.inj posted
  rcases before with waiting | ⟨_, size⟩
  · rw [show s.inbox = none from empty] at waiting
    cases waiting
  · exact ⟨buffer, member, rfl, size⟩

theorem kick_inv {s : State} (held : Inv s) (idle : s.publishing = none)
    (sent : s.send (.kick data) = some t) : Inv t := by
  obtain ⟨-, rfl⟩ := State.send_posts sent
  refine ⟨held.addressed, held.peer, held.opened, ?_, ?_⟩
  · intro command posted
    obtain rfl := Option.some.inj posted
    trivial
  · intro buffer publishing
    exact absurd (idle.symm.trans publishing) nofun

theorem reload_inv {s : State} (held : Inv s) : Inv s.reload :=
  ⟨held.addressed, held.peer, nofun, nofun, fun buffer publishing =>
    ⟨(held.publishing buffer publishing).1, Or.inr ⟨rfl, Or.inl rfl⟩⟩⟩

theorem link_inv {s : State} (held : Inv s) (up : Bool) :
    Inv { s with app := s.app.setLink up } := by
  refine ⟨held.addressed, held.peer, held.opened, ?_, held.publishing⟩
  intro command waiting
  have known := held.inbox command waiting
  cases command with
  | size data => exact known
  | xlat data => exact known
  | kick data => trivial
  | unknown cmd data => trivial

theorem next_inv {s : State} (held : Inv s) (unmixed : Unmixed s l) (stepped : s.next l = some t) :
    Inv t := by
  cases l with
  | load ntb bufferSize =>
    cases stepped
    exact load_inv held unmixed
  | publish =>
    simp only [State.next] at stepped
    split at stepped
    case h_1 buffer _ current => exact publish_inv held current stepped
    case h_2 => cases stepped
  | publishXlat =>
    simp only [State.next] at stepped
    split at stepped
    case h_1 buffer publishing => exact publishXlat_inv held publishing stepped
    case h_2 => cases stepped
  | abandon =>
    cases stepped
    exact ⟨held.addressed, held.peer, held.opened, held.inbox, nofun⟩
  | kick data =>
    simp only [State.next] at stepped
    split at stepped
    case h_1 idle => exact kick_inv held idle stepped
    case h_2 => cases stepped
  | reload =>
    cases stepped
    exact reload_inv held
  | link up =>
    cases stepped
    exact link_inv held up
  | recv ntb =>
    simp only [State.next] at stepped
    split_ifs at stepped
    obtain ⟨command, waiting, rfl⟩ := Option.map_eq_some_iff.mp stepped
    exact recv_inv held unmixed.1 unmixed.2 waiting

theorem step_inv {s : State} (held : Inv s) (unmixed : Unmixed s l)
    (stepped : s.step l = some (t, es)) : Inv t :=
  next_inv held unmixed (silent_eq_some stepped)

/-- Both modules are about to be loaded for the first time. -/
def start : State where
  app := .probed
  peer := none
  publishing := none
  inbox := none
  made := []

theorem start_inv : Inv start :=
  ⟨nofun, nofun, nofun, nofun, nofun⟩

/-- A mapped window, ready or not, was given the address and the size of one
buffer. -/
theorem window_of_one_buffer (unmixed : Along State.step Unmixed start ls)
    (path : run State.step start ls = some (t, es)) (mapped : t.app.peerIo = true) :
    ∃ buffer ∈ t.made, t.app.peerXlat = buffer.dma ∧
      t.app.trans = some (t.app.peerXlat, buffer.size) := by
  have held : Inv t := run_preserves step_inv start_inv unmixed path
  obtain ⟨buffer, member, xlat, _, trans⟩ := held.opened mapped
  exact ⟨buffer, member, xlat, xlat ▸ trans⟩

def publication : List Label :=
  [.publish, .recv (.paged 0), .publishXlat, .recv (.paged 0)]

/-- The peer loads, publishes, goes away with the link and publishes again. -/
def relinkSchedule : List Label :=
  [Label.load (.paged 0x10000) 0x4000, .link true] ++ publication ++
    [Label.link false, .link true] ++ publication

theorem window_of_one_buffer_relinked :
    ∃ t es, run State.step start relinkSchedule = some (t, es) ∧ t.app.peerReady = true ∧
      ∃ buffer ∈ t.made, t.app.peerXlat = buffer.dma ∧
        t.app.trans = some (t.app.peerXlat, buffer.size) := by
  have outcome : (run State.step start relinkSchedule).map
      (fun r => (r.1.app.peerReady, r.1.app.peerIo)) = some (true, true) := by decide +kernel
  obtain ⟨⟨t, es⟩, path, reached⟩ := Option.map_eq_some_iff.mp outcome
  obtain ⟨ready, mapped⟩ := Prod.mk.inj reached
  have unmixed : Along State.step Unmixed start relinkSchedule := by decide +kernel
  exact ⟨t, es, path, ready, window_of_one_buffer unmixed path mapped⟩

def reloadSchedule : List Label :=
  [Label.load (.paged 0x10000) 0x4000, .link true] ++ publication ++
    [Label.link false, .load (.paged 0x20000) 0x2000, .link true, .publish, .recv (.paged 0)]

theorem window_of_two_buffers :
    ∃ t es, run State.step start reloadSchedule = some (t, es) ∧ t.app.peerReady = true ∧
      t.app.peerIo = true ∧ t.app.trans = some (0x10000, 0x2000) ∧
      ¬∃ buffer ∈ t.made, t.app.peerXlat = buffer.dma ∧
        t.app.trans = some (t.app.peerXlat, buffer.size) := by
  have outcome : (run State.step start reloadSchedule).map (fun r =>
      (r.1.app.peerReady, r.1.app.peerIo, r.1.app.trans,
        decide (∃ buffer ∈ r.1.made, r.1.app.peerXlat = buffer.dma ∧
          r.1.app.trans = some (r.1.app.peerXlat, buffer.size)))) =
      some (true, true, some (0x10000, 0x2000), false) := by decide +kernel
  obtain ⟨⟨t, es⟩, path, reached⟩ := Option.map_eq_some_iff.mp outcome
  simp only [Prod.mk.injEq, decide_eq_false_iff_not] at reached
  exact ⟨t, es, path, reached⟩

end IdtNtb.App.Announcements
