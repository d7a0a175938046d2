import IdtNtb.Lib.Transition
import IdtNtb.Sisci.Driver

/-! The remote window of one SISCI driver, whatever the peer sends. The worker
and the ioctls share the mutex, but `set_removed` writes its flags without it,
so its writes fall anywhere between those of the worker. -/
namespace IdtNtb.Sisci
open Kernel Transition

/-- Where the worker is, and with it the mutex: between two commands, past the
flag of an AVAIL, or with the window set up and not yet marked ready. -/
inductive Worker where
  | idle
  | recv
  | announced
  | opened
  deriving DecidableEq

/-- How far the module's removal has got: the writes of `set_removed`, one by
one, and the cleanup once the worker is cancelled. -/
inductive Removal where
  | no
  | removed
  | unready
  | cleared
  | gone
  deriving DecidableEq

/-- What the window was set up with: the flag, the arguments of
`ntb_peer_mw_set_trans` and the size of the BAR. -/
structure Opening where
  announced : Bool
  xlat : Nat
  size : Nat
  mapSize : Nat
  deriving DecidableEq

/-- `opening` is the last one that succeeded. -/
structure Remote where
  dev : SisciDev
  worker : Worker
  removal : Removal
  opening : Option Opening

def Remote.loaded : Remote := ⟨.probed, .idle, .no, none⟩

inductive RemoteStep where
  | service (link : Bool)
  | recv (ntb : Ntb) (command : Command)
  | setup (ntb : Ntb)
  | ready
  | done
  | remove
  | connect (id : BitVec 32)
  | mmap (size : Nat) (remap : Except Errno Unit)

/-- A size that CONNECT_SEGMENT returns and a mapping that is accepted, with the
opening of the window at that moment. -/
inductive Granted where
  | connected (size : Nat) (opening : Option Opening)
  | mapped (size : Nat) (opening : Option Opening)

namespace Remote

/-- `setup_peer_mw_locked` up to its last flag. -/
def setup (s : Remote) (ntb : Ntb) : Remote :=
  let dev := s.dev.setupPeerMwLocked ntb
  if dev.peerIo && !s.dev.peerIo then
    { s with
      dev := { dev with peerReady := s.dev.peerReady }
      worker := .opened
      opening := some ⟨s.dev.remoteAnnounced, s.dev.remoteXlat, s.dev.remoteSize, dev.peerMapSize⟩ }
  else { s with dev, worker := .recv }

/-- The next write of the removal. The cleanup waits for the worker. -/
def remove (s : Remote) : Option Remote :=
  match s.removal with
  | .no => some { s with removal := .removed, dev := { s.dev with removed := true } }
  | .removed => some { s with removal := .unready, dev := { s.dev with peerReady := false } }
  | .unready =>
      some { s with
        removal := .cleared
        dev := { s.dev with
          remoteAnnounced := false, localAvailable := false, localPublished := false } }
  | .cleared =>
      if s.worker = .idle then
        some { s with removal := .gone, dev := s.dev.markPeerUnreadyLocked.freeLocalSegmentLocked }
      else none
  | .gone => none

def step (s : Remote) : RemoteStep → Option (Remote × List Granted)
  | .service link =>
      if s.worker = .idle ∧ s.removal ≠ .gone then
        if s.dev.removed then some (s, [])
        else if link then some ({ s with dev := s.dev.setLink true, worker := .recv }, [])
        else some ({ s with dev := (s.dev.setLink false).markPeerUnreadyLocked }, [])
      else none
  | .recv ntb command =>
      if s.worker = .recv then
        match command with
        | .avail id =>
            some ({ s with
              dev := { s.dev with remoteSegmentId := id, remoteAnnounced := true }
              worker := .announced }, [])
        -- The other commands do not read what `set_removed` writes.
        | command => some ({ s with dev := s.dev.handle ntb command }, [])
      else none
  | .setup ntb => if s.worker = .announced then some (s.setup ntb, []) else none
  | .ready =>
      if s.worker = .opened then
        some ({ s with dev := { s.dev with peerReady := true }, worker := .recv }, [])
      else none
  | .done => if s.worker = .recv then some ({ s with worker := .idle }, []) else none
  | .remove => s.remove.map fun t => (t, [])
  | .connect id =>
      if s.worker = .idle then
        match s.dev.connectSegment id with
        | .error _ => some (s, [])
        | .ok size => some (s, [.connected size s.opening])
      else none
  | .mmap size remap =>
      if s.worker = .idle then
        match s.dev.mmap .remoteSegment size remap with
        | .error _ => some (s, [])
        | .ok _ => some (s, [.mapped size s.opening])
      else none

end Remote

/-- The BAR that the call reports has a size. -/
def RemoteStep.Sized : RemoteStep → Prop
  | .setup ntb => ∀ phys mapSize, ntb.peerMwGetAddr = .ok (phys, mapSize) → mapSize ≠ 0
  | _ => True

structure Opening.Opens (o : Opening) (dev : SisciDev) : Prop where
  announced : o.announced = true
  trans : dev.trans = some (o.xlat, o.size)
  mapSize : dev.peerMapSize = o.mapSize
  usable : dev.peerUsableSize = min o.size o.mapSize
  sized : 0 < min o.size o.mapSize

def SisciDev.window (dev : SisciDev) : Bool × Option (Nat × Nat) × Nat × Nat :=
  (dev.peerIo, dev.trans, dev.peerMapSize, dev.peerUsableSize)

/-- A mapped window has its opening, and what is ready, or about to be, is mapped
and announced. Only the removal takes the announcement back by itself. -/
structure WindowSound (s : Remote) : Prop where
  mapped : s.dev.peerIo = true → ∃ o, s.opening = some o ∧ o.Opens s.dev
  ready : s.dev.peerReady = true ∨ s.worker = .opened → s.dev.peerIo = true
  announced : s.dev.peerReady = true ∨ s.worker = .opened ∨ s.worker = .announced →
    s.dev.remoteAnnounced = true ∨ s.dev.removed = true

def Granted.Bounded : Granted → Prop
  | .connected size opening => ∃ o, opening = some o ∧ 0 < size ∧ size ≤ min o.mapSize o.size
  | .mapped size opening => ∃ o, opening = some o ∧ size ≤ alignUp (min o.mapSize o.size) pageSize

variable {s t : Remote} {es : List Granted}

/-- A window that was taken down. -/
theorem sound_unmapped (unmapped : t.dev.peerIo = false) (unready : t.dev.peerReady = false)
    (between : t.worker = .idle ∨ t.worker = .recv) : WindowSound t := by
  refine ⟨?_, ?_, ?_⟩
  · rw [unmapped]
    nofun
  · rw [unready]
    rcases between with worker | worker <;> rw [worker] <;> rintro (ready | opened) <;>
      contradiction
  · rw [unready]
    rcases between with worker | worker <;> rw [worker] <;> rintro (ready | opened | announced) <;>
      contradiction

theorem WindowSound.unready (held : WindowSound s) (unmapped : s.dev.peerIo = false) :
    s.dev.peerReady = false := by
  cases ready : s.dev.peerReady with
  | false => rfl
  | true => exact absurd (unmapped.symm.trans (held.ready (Or.inl ready))) nofun

theorem Opening.Opens.congr {o : Opening} {dev dev' : SisciDev} (opens : o.Opens dev)
    (same : dev'.window = dev.window) : o.Opens dev' := by
  simp only [SisciDev.window, Prod.mk.injEq] at same
  obtain ⟨-, trans, mapSize, usable⟩ := same
  exact ⟨opens.announced, trans.trans opens.trans, mapSize.trans opens.mapSize,
    usable.trans opens.usable, opens.sized⟩

theorem WindowSound.opening (held : WindowSound s) {dev : SisciDev}
    (same : dev.window = s.dev.window)
    (mapped : dev.peerIo = true) : ∃ o, s.opening = some o ∧ o.Opens dev := by
  have io : dev.peerIo = s.dev.peerIo := congrArg Prod.fst same
  obtain ⟨o, opening, before⟩ := held.mapped (io.symm.trans mapped)
  exact ⟨o, opening, before.congr same⟩

/-- The window stays as it is while flags are cleared or the worker goes on to
its next command. -/
theorem WindowSound.kept (held : WindowSound s) {dev : SisciDev} {worker : Worker}
    (removal : Removal)
    (same : dev.window = s.dev.window) (ready : dev.peerReady = true → s.dev.peerReady = true)
    (announced : s.dev.remoteAnnounced = true ∨ s.dev.removed = true →
      dev.remoteAnnounced = true ∨ dev.removed = true)
    (next : worker = s.worker ∨ worker = .idle ∨ worker = .recv) :
    WindowSound ⟨dev, worker, removal, s.opening⟩ := by
  have io : dev.peerIo = s.dev.peerIo := congrArg Prod.fst same
  have worked (w : Worker) (busy : w ≠ .idle ∧ w ≠ .recv) : worker = w → s.worker = w := by
    rintro rfl
    rcases next with rfl | idle | recv
    · rfl
    · exact absurd idle busy.1
    · exact absurd recv busy.2
  refine ⟨held.opening same, ?_, ?_⟩
  · intro due
    exact io.trans (held.ready (due.imp ready (worked .opened (by decide))))
  · intro due
    exact announced (held.announced
      (due.imp ready (Or.imp (worked .opened (by decide)) (worked .announced (by decide)))))

theorem setup_sound (held : WindowSound s) (ntb : Ntb)
    (sized : ∀ phys mapSize, ntb.peerMwGetAddr = .ok (phys, mapSize) → mapSize ≠ 0) :
    WindowSound (s.setup ntb) := by
  unfold Remote.setup
  generalize after : s.dev.setupPeerMwLocked ntb = dev
  have setUp := s.dev.setupPeerMwLocked_setUp ntb
  rw [after] at setUp
  cases setUp with
  | unchanged =>
    simp only [Bool.and_not_self, Bool.false_eq_true, if_false]
    exact held.kept _ rfl id id (Or.inr (Or.inr rfl))
  | cleared unmapped =>
    simp only [Bool.and_not_self, Bool.false_eq_true, if_false]
    exact sound_unmapped unmapped (held.unready unmapped) (Or.inr rfl)
  | @opened phys mapSize unmapped flag size addr =>
    simp only [unmapped, Bool.not_false, Bool.and_self, if_true]
    refine ⟨fun _ => ⟨_, rfl, flag, rfl, rfl, rfl, ?_⟩, fun _ => rfl, fun _ => Or.inl flag⟩
    have nonzero := sized phys mapSize addr
    simp only
    omega

/-- Commands other than AVAIL keep the window or take it down. -/
theorem handle_sound (held : WindowSound s) (receiving : s.worker = .recv) (ntb : Ntb)
    (other : ∀ id, command ≠ .avail id) :
    WindowSound { s with dev := s.dev.handle ntb command } := by
  cases command with
  | segid id => exact sound_unmapped rfl rfl (Or.inr receiving)
  | size data => exact held.kept _ rfl id id (Or.inl rfl)
  | xlat data => exact held.kept _ rfl id id (Or.inl rfl)
  | avail id => exact absurd rfl (other id)
  | unavail id =>
    simp only [SisciDev.handle]
    split
    · exact sound_unmapped rfl rfl (Or.inr receiving)
    · exact held
  | unknown cmd data => exact held

theorem remove_sound (held : WindowSound s) (removed : s.removal ≠ .no → s.dev.removed = true)
    (next : s.remove = some t) : WindowSound t ∧ (t.removal ≠ .no → t.dev.removed = true) := by
  unfold Remote.remove at next
  cases stage : s.removal with
  | no =>
    rw [stage] at next
    cases next
    exact ⟨held.kept _ rfl id (fun _ => Or.inr rfl) (Or.inl rfl), fun _ => rfl⟩
  | removed =>
    rw [stage] at next
    cases next
    exact ⟨held.kept _ rfl nofun id (Or.inl rfl), fun _ => removed (by rw [stage]; nofun)⟩
  | unready =>
    have flag := removed (by rw [stage]; nofun)
    rw [stage] at next
    cases next
    exact ⟨held.kept _ rfl id (fun _ => Or.inr flag) (Or.inl rfl), fun _ => flag⟩
  | cleared =>
    have flag := removed (by rw [stage]; nofun)
    rw [stage] at next
    obtain ⟨idle, same⟩ := Option.ite_none_right_eq_some.mp next
    cases same
    exact ⟨sound_unmapped rfl rfl (Or.inl idle), fun _ => flag⟩
  | gone =>
    rw [stage] at next
    cases next

theorem connect_bounded {id : BitVec 32} (held : WindowSound s)
    (connected : s.dev.connectSegment id = .ok size) :
    (Granted.connected size s.opening).Bounded := by
  unfold SisciDev.connectSegment at connected
  split_ifs at connected with removed refused
  cases connected
  have ready : s.dev.peerReady = true := by
    by_contra unready
    simp [unready] at refused
  obtain ⟨o, opening, opens⟩ := held.mapped (held.ready (Or.inl ready))
  refine ⟨o, opening, ?_, ?_⟩
  · rw [opens.usable]
    exact opens.sized
  · rw [opens.usable, Nat.min_comm]

theorem mmap_bounded (held : WindowSound s)
    (mapped : s.dev.mmap .remoteSegment size remap = .ok found) :
    (Granted.mapped size s.opening).Bounded := by
  obtain ⟨-, io, -, fits⟩ := SisciDev.mmap_remote mapped
  obtain ⟨o, opening, opens⟩ := held.mapped io
  refine ⟨o, opening, Nat.le_trans fits ?_⟩
  rw [opens.usable, Nat.min_comm]
  exact Nat.mod_le _ _

/-- With the last flag set, the steps of an AVAIL are what the function does. -/
theorem setup_then_ready (s : Remote) (ntb : Ntb) :
    (s.setup ntb).worker = .recv ∧ (s.setup ntb).dev = s.dev.setupPeerMwLocked ntb ∨
      (s.setup ntb).worker = .opened ∧
        { (s.setup ntb).dev with peerReady := true } = s.dev.setupPeerMwLocked ntb := by
  unfold Remote.setup
  generalize after : s.dev.setupPeerMwLocked ntb = dev
  have setUp := s.dev.setupPeerMwLocked_setUp ntb
  rw [after] at setUp
  cases setUp with
  | unchanged => exact Or.inl (by simp)
  | cleared unmapped => exact Or.inl (by simp)
  | opened unmapped => exact Or.inr (by simp [unmapped])

structure RemoteSound (s : Remote) : Prop where
  window : WindowSound s
  removed : s.removal ≠ .no → s.dev.removed = true

theorem handle_removed (ntb : Ntb) (dev : SisciDev) (command : Command)
    (other : ∀ id, command ≠ .avail id) :
    (dev.handle ntb command).removed = dev.removed := by
  cases command with
  | avail id => exact absurd rfl (other id)
  | unavail id =>
    simp only [SisciDev.handle]
    split <;> rfl
  | _ => rfl

theorem setup_removed (s : Remote) (ntb : Ntb) :
    (s.setup ntb).dev.removed = s.dev.removed ∧ (s.setup ntb).removal = s.removal := by
  have flag := (s.dev.setupPeerMwLocked_setUp ntb).offer.2
  unfold Remote.setup
  dsimp only
  split
  · exact ⟨flag, rfl⟩
  · exact ⟨flag, rfl⟩

theorem remote_step (held : RemoteSound s) (sized : l.Sized) (next : s.step l = some (t, es)) :
    RemoteSound t ∧ ∀ e ∈ es, e.Bounded := by
  obtain ⟨window, removed⟩ := held
  cases l with
  | service link =>
    obtain ⟨⟨idle, -⟩, served⟩ := Option.ite_none_right_eq_some.mp next
    split_ifs at served with gone up
    · cases served
      exact ⟨⟨window, removed⟩, nofun⟩
    · cases served
      exact ⟨⟨window.kept _ rfl id id (Or.inr (Or.inr rfl)), removed⟩, nofun⟩
    · cases served
      exact ⟨⟨sound_unmapped rfl rfl (Or.inl idle), removed⟩, nofun⟩
  | recv ntb command =>
    obtain ⟨receiving, handled⟩ := Option.ite_none_right_eq_some.mp next
    split at handled
    · cases handled
      refine ⟨⟨⟨window.opening rfl, ?_, fun _ => Or.inl rfl⟩, removed⟩, nofun⟩
      rintro (ready | opened)
      · exact window.ready (Or.inl ready)
      · cases opened
    · rename_i other
      cases handled
      refine ⟨⟨handle_sound window receiving ntb other, ?_⟩, nofun⟩
      rw [handle_removed ntb s.dev command other]
      exact removed
  | setup ntb =>
    obtain ⟨-, setUp⟩ := Option.ite_none_right_eq_some.mp next
    obtain ⟨flag, stage⟩ := setup_removed s ntb
    cases setUp
    refine ⟨⟨setup_sound window ntb sized, ?_⟩, nofun⟩
    rw [flag, stage]
    exact removed
  | ready =>
    obtain ⟨opened, readied⟩ := Option.ite_none_right_eq_some.mp next
    cases readied
    refine ⟨⟨⟨window.opening rfl, fun _ => window.ready (Or.inr opened), fun _ => ?_⟩, removed⟩,
      nofun⟩
    exact window.announced (Or.inr (Or.inl opened))
  | done =>
    obtain ⟨-, ended⟩ := Option.ite_none_right_eq_some.mp next
    cases ended
    exact ⟨⟨window.kept _ rfl id id (Or.inr (Or.inl rfl)), removed⟩, nofun⟩
  | remove =>
    obtain ⟨after, stage, same⟩ := Option.map_eq_some_iff.mp next
    cases same
    obtain ⟨window, removed⟩ := remove_sound window removed stage
    exact ⟨⟨window, removed⟩, nofun⟩
  | connect id =>
    obtain ⟨-, answered⟩ := Option.ite_none_right_eq_some.mp next
    split at answered
    · cases answered
      exact ⟨⟨window, removed⟩, nofun⟩
    · rename_i size connected
      cases answered
      exact ⟨⟨window, removed⟩, by simpa using connect_bounded window connected⟩
  | mmap size remap =>
    obtain ⟨-, answered⟩ := Option.ite_none_right_eq_some.mp next
    split at answered
    · cases answered
      exact ⟨⟨window, removed⟩, nofun⟩
    · rename_i found mapped
      cases answered
      exact ⟨⟨window, removed⟩, by simpa using mmap_bounded window mapped⟩

/-- Whatever the peer sends and whichever calls fail: a ready window is mapped,
was announced, and its usable size is positive and within both the BAR and the
translation that opened it; a mapped window has that translation; and what
CONNECT_SEGMENT returns and `mmap` accepts is within it. -/
theorem window_sound (sized : ∀ l ∈ ls, l.Sized)
    (path : run Remote.step .loaded ls = some (t, es)) :
    (t.dev.peerReady = true → t.dev.peerIo = true ∧
      (t.dev.remoteAnnounced = true ∨ t.dev.removed = true) ∧
      ∃ o, t.opening = some o ∧ o.announced = true ∧ 0 < t.dev.peerUsableSize ∧
        t.dev.peerUsableSize ≤ min t.dev.peerMapSize o.size) ∧
    (t.dev.peerIo = true → ∃ o, t.opening = some o ∧ t.dev.trans = some (o.xlat, o.size)) ∧
    ∀ e ∈ es, e.Bounded := by
  have loaded : RemoteSound .loaded := by
    refine ⟨⟨?_, ?_, ?_⟩, ?_⟩
    all_goals simp [Remote.loaded, SisciDev.probed]
  have held := run_reports remote_step loaded (along_labels sized _) path
  obtain ⟨⟨window, -⟩, bounded⟩ := held
  refine ⟨?_, ?_, bounded⟩
  · intro ready
    have io := window.ready (Or.inl ready)
    obtain ⟨o, opening, opens⟩ := window.mapped io
    refine ⟨io, window.announced (Or.inl ready), o, opening, opens.announced, ?_, ?_⟩
    · rw [opens.usable]
      exact opens.sized
    · rw [opens.usable, opens.mapSize, Nat.min_comm]
  · intro io
    obtain ⟨o, opening, opens⟩ := window.mapped io
    exact ⟨o, opening, opens.trans⟩

/-- The peer publishes more than the BAR holds, the window is used, and SIZE
comes again while it is open. -/
def wideWindow : List RemoteStep :=
  [.service true, .recv bar (.segid 7), .recv bar (.size 0x1000000), .recv bar (.xlat 0x10000),
    .recv bar (.avail 7), .setup bar, .ready, .recv bar (.size 0x2000000), .done, .connect 7,
    .mmap 0x400000 (.ok ())]
where
  bar : Ntb := .paged 0

theorem window_sound_wide :
    ∃ t es, run Remote.step .loaded wideWindow = some (t, es) ∧ t.dev.peerUsableSize = 0x400000 ∧
      es.length = 2 ∧ ∀ e ∈ es, e.Bounded := by
  have reads : (run Remote.step .loaded wideWindow).map
      (fun reached => (reached.1.dev.peerUsableSize, reached.2.length)) = some (0x400000, 2) := by
    decide +kernel
  obtain ⟨⟨t, es⟩, path, same⟩ := Option.map_eq_some_iff.mp reads
  obtain ⟨usable, length⟩ := Prod.mk.inj same
  have sized : ∀ l ∈ wideWindow, l.Sized := by
    simp [wideWindow, RemoteStep.Sized, wideWindow.bar, Ntb.paged, Ntb.granting]
  exact ⟨t, es, path, usable, length, (window_sound sized path).2.2⟩

end IdtNtb.Sisci
