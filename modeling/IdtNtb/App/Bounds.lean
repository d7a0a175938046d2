import IdtNtb.App.Driver
import IdtNtb.Lib.Transition
import Mathlib.Logic.Function.Basic

/-! Where one driver reads and writes, whatever its peer sends. A write is
bounded by `peer_size`, which is also where a SIZE leaves what the peer said until
`setup_peer_mw` replaces it by what was mapped. A read is bounded by a length that
was compared with the buffer when it was taken. -/
namespace IdtNtb.App.Bounds
open Kernel Transition

structure Header where
  magic : BitVec 32
  len : BitVec 32
  seq : BitVec 32

/-- Who holds `lock`. A write holds it from its checks to its commit. -/
inductive Lock where
  | free
  | worker
  | write (count : Nat)
  deriving DecidableEq

/-- A `read` past its first locked section, or an RX_WAIT or a `read` before its
last. -/
inductive ReadCall where
  | copy (len : Nat)
  | retire
  deriving DecidableEq

structure Host (n : Nat) where
  app : AppDev
  lock : Lock
  readers : Fin n → Option ReadCall

/-- `service` is the worker up to its loop, `recv` a round of the loop with the
calls and the header of that round, `finish` the rest, where nothing of the record
changes. `ok` is false when the user's buffer faults. -/
inductive Label (n : Nat) where
  | service (up : Bool) (ntb : Ntb) (bufferSize : Nat)
  | recv (command : Command) (ntb : Ntb) (header : Header)
  | finish
  | write (count : Nat) (ok : Bool)
  | commit
  | txCommit (len : Nat)
  | read (id : Fin n) (count : Nat)
  | rxWait (id : Fin n) (ok : Bool)
  | reader (id : Fin n) (ok : Bool)
  | remove

/-- Accesses with the record of the moment: bytes `first` up to `last` of `peer_io`
for a request of `len` bytes, and `len` bytes behind the header in `rx_buf`. -/
inductive Access where
  | tx (len first last : Nat) (app : AppDev)
  | rx (len : Nat) (app : AppDev)
  deriving DecidableEq

def Access.Within : Access → Prop
  | .tx len _ last app => last ≤ frameSize + len ∧ app.peerIo = true ∧
      ∃ xlat size, app.trans = some (xlat, size) ∧ frameSize + len ≤ min app.peerMapSize size
  | .rx len app => ∃ buffer, app.rx = some buffer ∧ frameSize + len ≤ buffer.size

def completeRx (app : AppDev) (header : Header) (data : Nat) : AppDev :=
  if app.acceptsFrame header.magic.toNat header.len.toNat data then
    app.publishRx header.len.toNat header.seq.toNat
  else app

/-- `ntb_idt_app_tx_commit_locked`, whose KICK may still fail. -/
def txCommitLocked (app : AppDev) (len : Nat) : AppDev × List Access :=
  match app.checkTx len with
  | .error _ => (app, [])
  | .ok () => ({ app with txSeq := (app.txSeq + 1) % (u32Max + 1) }, [.tx len 0 frameSize app])

def service (s : Host n) (up : Bool) (ntb : Ntb) (bufferSize : Nat) : Host n :=
  if s.app.removed then s
  else
    let app := s.app.setLink up
    if up then
      match app.setupInboundMw ntb bufferSize with
      | .error _ => { s with app }
      | .ok app => { s with app, lock := .worker }
    else { s with app }

def handle (app : AppDev) (ntb : Ntb) (header : Header) : Command → AppDev
  | .kick data => completeRx app header data
  | command => app.announce ntb command

/-- `ntb_idt_app_write` under `lock`, up to its commit. -/
def write (s : Host n) (count : Nat) (ok : Bool) : Host n × List Access :=
  if count = 0 then (s, [])
  else match s.app.checkTx count with
    | .error _ => (s, [])
    | .ok () =>
        ({ s with lock := if ok then .write count else .free },
          [.tx count frameSize (frameSize + count) s.app])

/-- The first locked section of a read. -/
def read (s : Host n) (id : Fin n) (count : Nat) : Host n :=
  if count = 0 ∨ s.app.removed ∨ !s.app.rxAvail ∨ count < s.app.rxLen then s
  else { s with readers := Function.update s.readers id (some (.copy s.app.rxLen)) }

def rxWait (s : Host n) (id : Fin n) (ok : Bool) : Host n :=
  if s.app.removed ∨ !s.app.rxAvail ∨ !ok then s
  else { s with readers := Function.update s.readers id (some .retire) }

def reader (s : Host n) (id : Fin n) (ok : Bool) : ReadCall → Host n × List Access
  | .copy len =>
      ({ s with readers := Function.update s.readers id (if ok then some .retire else none) },
        [.rx len s.app])
  | .retire =>
      ({ s with app := s.app.retireRx, readers := Function.update s.readers id none }, [])

/-- A call that waits for `lock` first waits for the peer or a frame; what it then
finds is checked again, so only the checks under the locks are here. -/
def step (s : Host n) : Label n → Option (Host n × List Access)
  | .service up ntb bufferSize =>
      if s.lock = .free then some (service s up ntb bufferSize, []) else none
  | .recv command ntb header =>
      if s.lock = .worker then some ({ s with app := handle s.app ntb header command }, [])
      else none
  | .finish => if s.lock = .worker then some ({ s with lock := .free }, []) else none
  | .write count ok => if s.lock = .free then some (write s count ok) else none
  | .commit =>
      match s.lock with
      | .write count =>
          let (app, accesses) := txCommitLocked s.app count
          some ({ s with app, lock := .free }, accesses)
      | _ => none
  | .txCommit len =>
      if s.lock = .free then
        let (app, accesses) := txCommitLocked s.app len
        some ({ s with app }, accesses)
      else none
  | .read id count => if s.readers id = none then some (read s id count, []) else none
  | .rxWait id ok => if s.readers id = none then some (rxWait s id ok, []) else none
  | .reader id ok => (s.readers id).map (reader s id ok)
  | .remove => some ({ s with app := s.app.setRemoved }, [])

def probed : Host n := ⟨.probed, .free, fun _ => none⟩

/-- A SIZE that finds a window without a base does not exceed the window. -/
def Sized (s : Host n) : Label n → Prop
  | .recv (.size data) _ _ => s.app.peerIo = true → s.app.peerXlat = 0 →
      ∀ trans ∈ s.app.trans, data ≤ min s.app.peerMapSize trans.2
  | _ => True

instance (s : Host n) : ∀ l, Decidable (Sized s l)
  | .recv (.size data) _ _ => inferInstanceAs (Decidable (s.app.peerIo = true → s.app.peerXlat = 0 →
      ∀ trans ∈ s.app.trans, data ≤ min s.app.peerMapSize trans.2))
  | .recv (.xlat _) _ _ | .recv (.kick _) _ _ | .recv (.unknown _ _) _ _ => .isTrue trivial
  | .service .. | .finish | .write .. | .commit | .txCommit _ => .isTrue trivial
  | .read .. | .rxWait .. | .reader .. | .remove => .isTrue trivial

/-- The BAR has room for a header and one byte. -/
def Roomy : Label n → Prop
  | .recv _ ntb _ => ∀ bar ∈ ntb.peerMwGetAddr.toOption, frameSize < bar.2
  | _ => True

instance : ∀ l : Label n, Decidable (Roomy l)
  | .recv _ ntb _ =>
      inferInstanceAs (Decidable (∀ bar ∈ ntb.peerMwGetAddr.toOption, frameSize < bar.2))
  | .service .. | .finish | .write .. | .commit | .txCommit _ => .isTrue trivial
  | .read .. | .rxWait .. | .reader .. | .remove => .isTrue trivial

/-! ## The invariant -/

/-- What is mapped holds a header, and `peer_size` bytes of it can be used. -/
def Windowed (app : AppDev) : Prop :=
  app.peerIo = true → ∃ xlat size, app.trans = some (xlat, size) ∧
    frameSize < app.peerMapSize ∧ frameSize < size ∧ app.peerSize ≤ min app.peerMapSize size

def Fits (app : AppDev) (len : Nat) : Prop :=
  ∃ buffer, app.rx = some buffer ∧ frameSize + len ≤ buffer.size

structure Inv (s : Host n) : Prop where
  window : Windowed s.app
  offered : s.app.rxAvail = true → Fits s.app s.app.rxLen
  receiving : s.lock = .worker → s.app.rx ≠ none
  reading : ∀ id len, s.readers id = some (.copy len) → Fits s.app len

theorem setUp_windowed (setUp : AppDev.SetUp ntb app after)
    (kept : app.peerXlat = 0 ∨ app.peerSize ≤ frameSize → Windowed app)
    (roomy : ∀ bar ∈ ntb.peerMwGetAddr.toOption, frameSize < bar.2) : Windowed after := by
  cases setUp with
  | unchanged unknown => exact kept unknown
  | cleared => exact nofun
  | opened found holds =>
    intro _
    refine ⟨_, _, rfl, roomy _ (by rw [found]; rfl), holds, ?_⟩
    exact Nat.le_of_eq (Nat.min_comm _ _)

theorem announce_windowed {app : AppDev} (held : Windowed app)
    (sized : ∀ data, command = .size data → app.peerIo = true → app.peerXlat = 0 →
      ∀ trans ∈ app.trans, data ≤ min app.peerMapSize trans.2)
    (roomy : ∀ bar ∈ ntb.peerMwGetAddr.toOption, frameSize < bar.2) :
    Windowed (app.announce ntb command) := by
  cases command with
  | size data =>
    have setUp := { app with peerSize := data }.trySetupPeerLocked_setUp ntb
    refine setUp_windowed setUp ?_ roomy
    intro unknown mapped
    obtain ⟨xlat, size, trans, bar, holds, -⟩ := held mapped
    refine ⟨xlat, size, trans, bar, holds, ?_⟩
    rcases unknown with unaddressed | small
    · exact sized data rfl mapped unaddressed (xlat, size) trans
    · exact Nat.le_trans small (Nat.le_min.mpr ⟨Nat.le_of_lt bar, Nat.le_of_lt holds⟩)
  | xlat data =>
    have setUp := { app with peerXlat := data }.trySetupPeerLocked_setUp ntb
    exact setUp_windowed setUp (fun _ => held) roomy
  | kick data => exact held
  | unknown cmd data => exact held

/-- What passes the checks of a write lies in the window. -/
theorem checkTx_within {app : AppDev} (held : Windowed app) (passed : app.checkTx len = .ok ()) :
    app.peerIo = true ∧ ∃ xlat size, app.trans = some (xlat, size) ∧
      frameSize + len ≤ min app.peerMapSize size := by
  simp only [AppDev.checkTx] at passed
  split_ifs at passed with removed unready long
  have mapped : app.peerIo = true := by
    simp only [Bool.or_eq_true, not_or, Bool.not_eq_true', Bool.not_eq_false] at unready
    exact unready.2
  obtain ⟨xlat, size, trans, bar, holds, usable⟩ := held mapped
  refine ⟨mapped, xlat, size, trans, ?_⟩
  unfold AppDev.txPayloadSize at long
  split_ifs at long <;> omega

theorem acceptsFrame_fits {app : AppDev} (allocated : app.rx ≠ none)
    (accepted : app.acceptsFrame magic len data = true) : Fits app len := by
  obtain ⟨buffer, found⟩ := Option.ne_none_iff_exists'.mp allocated
  have holds := buffer.holds_frame
  simp only [AppDev.acceptsFrame, AppDev.rxSize, found, Option.elim_some, Bool.and_eq_true,
    decide_eq_true_eq] at accepted
  exact ⟨buffer, found, by omega⟩

variable {s : Host n}

theorem Fits.kept {app after : AppDev} (fits : Fits app len)
    (same : app.rx ≠ none → after.rx = app.rx) :
    Fits after len := by
  obtain ⟨buffer, found, room⟩ := fits
  exact ⟨buffer, (same (by rw [found]; nofun)).trans found, room⟩

theorem service_inv (held : Inv s) (up : Bool) (ntb : Ntb) (bufferSize : Nat) :
    Inv (service s up ntb bufferSize) := by
  simp only [service]
  split_ifs with removed linked
  · exact held
  · split
    · exact ⟨held.window, held.offered, held.receiving, held.reading⟩
    · rename_i app allocated
      obtain ⟨buffer, rfl, source⟩ := AppDev.setupInboundMw_ok allocated
      -- A buffer that frames were received in is the one that stays.
      have same : s.app.rx ≠ none → some buffer = s.app.rx := by
        rcases source with present | ⟨absent, _⟩
        · exact fun _ => present.symm
        · exact fun there => absurd absent there
      exact ⟨held.window, fun offered => (held.offered offered).kept same, nofun,
        fun id len reading => (held.reading id len reading).kept same⟩
  · exact ⟨held.window, held.offered, held.receiving, held.reading⟩

theorem recv_inv (held : Inv s) (receiving : s.lock = .worker)
    (sized : Sized s (.recv command ntb header))
    (roomy : Roomy (.recv command ntb header : Label n)) :
    Inv { s with app := handle s.app ntb header command } := by
  have announced (told : handle s.app ntb header command = s.app.announce ntb command)
      (bounded : ∀ data, command = .size data → s.app.peerIo = true → s.app.peerXlat = 0 →
        ∀ trans ∈ s.app.trans, data ≤ min s.app.peerMapSize trans.2) :
      Inv { s with app := handle s.app ntb header command } := by
    rw [told]
    obtain ⟨rx, avail, len⟩ := s.app.announce_receive ntb command
    refine ⟨announce_windowed held.window bounded roomy, ?_, ?_, ?_⟩
    · intro offered
      dsimp only at offered ⊢
      rw [len]
      exact (held.offered (avail.symm.trans offered)).kept fun _ => rx
    · intro working
      exact fun gone => held.receiving working (rx.symm.trans gone)
    · exact fun id len reading => (held.reading id len reading).kept fun _ => rx
  cases command with
  | size data => exact announced rfl fun other same => by cases same; exact sized
  | xlat data => exact announced rfl nofun
  | unknown cmd data => exact announced rfl nofun
  | kick data =>
    simp only [handle, completeRx]
    split_ifs with accepted
    · exact ⟨held.window, fun _ => acceptsFrame_fits (held.receiving receiving) accepted,
        held.receiving, held.reading⟩
    · exact held

theorem txCommitLocked_inv {app : AppDev} (held : Windowed app) (len : Nat) :
    ((txCommitLocked app len).1 = { app with txSeq := (txCommitLocked app len).1.txSeq }) ∧
      ∀ e ∈ (txCommitLocked app len).2, e.Within := by
  unfold txCommitLocked
  cases passed : app.checkTx len with
  | error e => exact ⟨rfl, List.forall_mem_nil _⟩
  | ok done =>
    refine ⟨rfl, ?_⟩
    intro e access
    cases List.mem_singleton.mp access
    exact ⟨Nat.le_add_right _ _, checkTx_within held passed⟩

/-- A commit leaves all but its counter. -/
theorem Inv.committed (held : Inv s) (len : Nat) {lock : Lock} (unlocked : lock ≠ .worker) :
    Inv { s with app := (txCommitLocked s.app len).1, lock } := by
  rw [(txCommitLocked_inv held.window len).1]
  exact ⟨held.window, held.offered, fun working => absurd working unlocked, held.reading⟩

theorem write_inv (held : Inv s) (count : Nat) (ok : Bool) :
    Inv (write s count ok).1 ∧ ∀ e ∈ (write s count ok).2, e.Within := by
  unfold write
  by_cases empty : count = 0
  · rw [if_pos empty]
    exact ⟨held, List.forall_mem_nil _⟩
  · rw [if_neg empty]
    cases passed : s.app.checkTx count with
    | error e => exact ⟨held, List.forall_mem_nil _⟩
    | ok done =>
      refine ⟨⟨held.window, held.offered, ?_, held.reading⟩, ?_⟩
      · cases ok with
        | false => exact nofun
        | true => exact nofun
      · intro e access
        cases List.mem_singleton.mp access
        exact ⟨Nat.le_refl _, checkTx_within held.window passed⟩

/-- One reader moves on, with a length that fits if it is to copy. -/
theorem Inv.reads (held : Inv s) (id : Fin n) (call : Option ReadCall)
    (fits : ∀ len, call = some (.copy len) → Fits s.app len) :
    Inv { s with readers := Function.update s.readers id call } := by
  refine ⟨held.window, held.offered, held.receiving, ?_⟩
  intro other len reading
  dsimp only at reading
  by_cases same : other = id
  · rw [same, Function.update_self] at reading
    exact fits len reading
  · rw [Function.update_of_ne same] at reading
    exact held.reading other len reading

theorem read_inv (held : Inv s) (id : Fin n) (count : Nat) : Inv (read s id count) := by
  unfold read
  split_ifs with refused
  · exact held
  · have offered : s.app.rxAvail = true := by
      simp only [not_or, Bool.not_eq_true', Bool.not_eq_false] at refused
      exact refused.2.2.1
    refine held.reads id _ ?_
    intro len same
    cases same
    exact held.offered offered

theorem rxWait_inv (held : Inv s) (id : Fin n) (ok : Bool) : Inv (rxWait s id ok) := by
  unfold rxWait
  split_ifs
  · exact held
  · exact held.reads id _ nofun

theorem Inv.retired (held : Inv s) : Inv { s with app := s.app.retireRx } :=
  ⟨held.window, nofun, held.receiving, held.reading⟩

theorem reader_inv (held : Inv s) (id : Fin n) (ok : Bool) (call : ReadCall)
    (found : s.readers id = some call) :
    Inv (reader s id ok call).1 ∧ ∀ e ∈ (reader s id ok call).2, e.Within := by
  cases call with
  | copy len =>
    refine ⟨held.reads id _ ?_, ?_⟩
    · intro other same
      cases ok with
      | false => cases same
      | true => cases same
    · intro e access
      cases List.mem_singleton.mp access
      exact held.reading id len found
  | retire => exact ⟨held.retired.reads id none nofun, List.forall_mem_nil _⟩

theorem step_inv (held : Inv s) (met : Sized s l ∧ Roomy l)
    (stepped : step s l = some (t, accesses)) : Inv t ∧ ∀ e ∈ accesses, e.Within := by
  cases l with
  | service up ntb bufferSize =>
    obtain ⟨_, same⟩ := Option.ite_none_right_eq_some.mp stepped
    cases same
    exact ⟨service_inv held up ntb bufferSize, List.forall_mem_nil _⟩
  | recv command ntb header =>
    obtain ⟨receiving, same⟩ := Option.ite_none_right_eq_some.mp stepped
    cases same
    exact ⟨recv_inv held receiving met.1 met.2, List.forall_mem_nil _⟩
  | finish =>
    obtain ⟨_, same⟩ := Option.ite_none_right_eq_some.mp stepped
    cases same
    exact ⟨⟨held.window, held.offered, nofun, held.reading⟩, List.forall_mem_nil _⟩
  | write count ok =>
    obtain ⟨_, same⟩ := Option.ite_none_right_eq_some.mp stepped
    rw [Option.some.injEq] at same
    have kept := write_inv held count ok
    rw [same] at kept
    exact kept
  | commit =>
    simp only [step] at stepped
    split at stepped
    · rename_i count writing
      cases stepped
      exact ⟨held.committed count nofun, (txCommitLocked_inv held.window count).2⟩
    · cases stepped
  | txCommit len =>
    obtain ⟨unlocked, same⟩ := Option.ite_none_right_eq_some.mp stepped
    cases same
    exact ⟨held.committed len (unlocked ▸ nofun), (txCommitLocked_inv held.window len).2⟩
  | read id count =>
    obtain ⟨_, same⟩ := Option.ite_none_right_eq_some.mp stepped
    cases same
    exact ⟨read_inv held id count, List.forall_mem_nil _⟩
  | rxWait id ok =>
    obtain ⟨_, same⟩ := Option.ite_none_right_eq_some.mp stepped
    cases same
    exact ⟨rxWait_inv held id ok, List.forall_mem_nil _⟩
  | reader id ok =>
    obtain ⟨call, found, same⟩ := Option.map_eq_some_iff.mp stepped
    have kept := reader_inv held id ok call found
    rw [same] at kept
    exact kept
  | remove =>
    cases stepped
    exact ⟨⟨held.window, held.offered, held.receiving, held.reading⟩, List.forall_mem_nil _⟩

theorem probed_inv : Inv (probed : Host n) := ⟨nofun, nofun, nofun, nofun⟩

/-- Every access stays inside the window or the buffer, if the BAR can hold a byte
and no SIZE reaches past an open window while its base is taken back. -/
theorem accesses_bounded (roomy : ∀ l ∈ ls, Roomy l) (sized : Along step Sized (probed : Host n) ls)
    (path : run step probed ls = some (t, accesses)) : ∀ e ∈ accesses, e.Within := by
  exact (run_reports step_inv probed_inv (along_and sized roomy) path).2

def bar : Ntb := { Ntb.paged 0x40000 with peerMwGetAddr := .ok (0xF0000000, 0x2000) }

def page : Buffer := ⟨0x40000, 0x1000, by decide⟩

def noHeader : Header := ⟨0, 0, 0⟩

def received (commands : List Command) : List (Label 1) :=
  .service true bar 0x1000 :: commands.map (Label.recv · bar noHeader) ++ [Label.finish]

/-- The peer announces a window, a frame of 64 bytes arrives from it and one goes out. -/
def exchange (id : Fin n) : List (Label n) :=
  [.service true bar 0x1000, .recv (.size 0x1000) bar noHeader, .recv (.xlat 0x80000) bar noHeader,
    .recv (.kick 64) bar ⟨0x49544150, 64, 1⟩, .finish, .read id 100, .write 4080 true,
    .reader id true, .commit, .reader id true]

def Access.extent : Access → Nat × Nat
  | .tx _ first last _ => (first, last)
  | .rx len _ => (frameSize, frameSize + len)

theorem accesses_bounded_exchange :
    ∃ t accesses, run step probed (exchange (0 : Fin 1)) = some (t, accesses) ∧
      accesses.map Access.extent = [(16, 4096), (16, 80), (0, 16)] ∧ ∀ e ∈ accesses, e.Within := by
  have outcome : (run step probed (exchange (0 : Fin 1))).map (·.2.map Access.extent) =
      some [(16, 4096), (16, 80), (0, 16)] := by decide +kernel
  obtain ⟨⟨t, accesses⟩, path, reached⟩ := Option.map_eq_some_iff.mp outcome
  have roomy : ∀ l ∈ exchange (0 : Fin 1), Roomy l := by decide +kernel
  exact ⟨t, accesses, path, reached, accesses_bounded roomy (by decide +kernel) path⟩

/-- The peer announces a window and takes back its base, and then a size that no
longer meets an address. -/
def overrun : List (Label 1) :=
  received [.size 0x1000, .xlat 0x80000, .xlat 0, .size 0x100000] ++ [Label.write 0x4000 true]

theorem write_past_window :
    ∃ t app, run step probed overrun = some (t, [.tx 0x4000 16 0x4010 app]) ∧
      (∀ l ∈ overrun, Roomy l) ∧ app.peerMapSize = 0x2000 ∧ app.trans = some (0x80000, 0x1000) ∧
      ¬(Access.tx 0x4000 16 0x4010 app).Within := by
  let app : AppDev :=
    { AppDev.probed with
      linkUp := true, peerReady := true, rx := some ⟨0x40000, 0x1000, by decide⟩, peerIo := true,
      peerPhys := 0xF0000000, peerMapSize := 0x2000, peerSize := 0x100000,
      trans := some (0x80000, 0x1000) }
  have outcome : (run step probed overrun).map (·.2) = some [.tx 0x4000 16 0x4010 app] := by
    decide +kernel
  obtain ⟨⟨t, accesses⟩, path, rfl⟩ := Option.map_eq_some_iff.mp outcome
  refine ⟨t, app, path, by decide +kernel, rfl, rfl, ?_⟩
  rintro ⟨-, -, xlat, size, trans, room⟩
  cases trans
  exact absurd room (by decide)

end IdtNtb.App.Bounds
