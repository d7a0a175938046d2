import IdtNtb.Kernel.Ntb

/-! The `ntb_idt_app` driver: its device record and the functions its worker and
its file operations are made of. -/
namespace IdtNtb.App
open Kernel

def frameMagic : Nat := 0x49544150

/-- `sizeof(struct ntb_idt_app_frame)`: magic, len, seq and flags. -/
def frameSize : Nat := 16

/-- The commands `service_work` tells apart, with their data. -/
inductive Command where
  | size (data : Nat)
  | xlat (data : Nat)
  | kick (data : Nat)
  | unknown (cmd data : Nat)
  deriving DecidableEq, Repr

/-- An inbound buffer: `rx_buf` with its `rx_dma` and `rx_size`. One that cannot
hold a frame header is never allocated. -/
structure Buffer where
  dma : Nat
  size : Nat
  holds_frame : frameSize < size
  deriving DecidableEq

/-- `struct ntb_idt_app_dev`. `trans` is the translation the driver has given to
`ntb_peer_mw_set_trans` and not cleared since. -/
structure AppDev where
  removed : Bool
  linkUp : Bool
  peerReady : Bool
  rxAvail : Bool
  rx : Option Buffer
  rxLen : Nat
  peerIo : Bool
  peerPhys : Nat
  peerMapSize : Nat
  peerSize : Nat
  peerXlat : Nat
  txSeq : Nat
  rxSeq : Nat
  trans : Option (Nat × Nat)
  deriving DecidableEq

/-- The record `kzalloc` returns to `probe`. -/
def AppDev.probed : AppDev where
  removed := false
  linkUp := false
  peerReady := false
  rxAvail := false
  rx := none
  rxLen := 0
  peerIo := false
  peerPhys := 0
  peerMapSize := 0
  peerSize := 0
  peerXlat := 0
  txSeq := 0
  rxSeq := 0
  trans := none

namespace AppDev

def rxSize (app : AppDev) : Nat := app.rx.elim 0 Buffer.size

def canRead (app : AppDev) : Bool := app.rxAvail || app.removed

def canWrite (app : AppDev) : Bool := (app.peerReady && app.linkUp) || app.removed

def setLink (app : AppDev) (linkUp : Bool) : AppDev :=
  { app with linkUp, peerReady := app.peerReady && linkUp }

def setRemoved (app : AppDev) : AppDev := { app with removed := true, peerReady := false }

def freePeerMw (app : AppDev) : AppDev :=
  { app with
    peerIo := false, trans := none, peerPhys := 0, peerMapSize := 0, peerSize := 0, peerXlat := 0 }

def reqSize (bufferSize : Nat) (align : MwAlign) : Nat :=
  let capped := if align.sizeMax ≠ 0 ∧ bufferSize > align.sizeMax then align.sizeMax else bufferSize
  if align.sizeAlign > 1 then roundDown capped align.sizeAlign else capped

/-- `ntb_idt_app_setup_inbound_mw` under the module parameter `buffer_size`. -/
def setupInboundMw (ntb : Ntb) (bufferSize : Nat) (app : AppDev) : Except Errno AppDev :=
  if app.rx.isSome then .ok app
  else do
    let align ← ntb.getAlign
    let size := reqSize bufferSize align
    if holds : frameSize < size then
      match ntb.dmaAlloc with
      | none => .error .enomem
      | some dma =>
          if align.addrAlign > 1 ∧ dma % align.addrAlign ≠ 0 then .error .einval
          else do
            ntb.mwSetTrans dma size
            .ok { app with rx := some ⟨dma, size, holds⟩ }
    else .error .einval

/-- A buffer that is there stays; a new one is where the allocator said. -/
theorem setupInboundMw_ok {app : AppDev} (done : app.setupInboundMw ntb bufferSize = .ok after) :
    ∃ buffer, after = { app with rx := some buffer } ∧
      (app.rx = some buffer ∨ app.rx = none ∧ ntb.dmaAlloc = some buffer.dma) := by
  unfold setupInboundMw at done
  cases present : app.rx with
  | some buffer =>
    rw [present] at done
    cases done
    exact ⟨buffer, by rw [← present], Or.inl rfl⟩
  | none =>
    simp only [present, Option.isSome_none, Bool.false_eq_true, if_false] at done
    cases aligned : ntb.getAlign with
    | error e => rw [aligned] at done; cases done
    | ok align =>
      rw [aligned] at done
      simp only [bind, Except.bind] at done
      split_ifs at done with holds
      cases allocated : ntb.dmaAlloc with
      | none => rw [allocated] at done; cases done
      | some dma =>
        rw [allocated] at done
        dsimp only at done
        split_ifs at done with misaligned
        cases translated : ntb.mwSetTrans dma (reqSize bufferSize align) with
        | error e => rw [translated] at done; cases done
        | ok finished =>
          rw [translated] at done
          cases done
          exact ⟨_, rfl, Or.inr ⟨rfl, rfl⟩⟩

/-- `ntb_idt_app_setup_peer_mw`: the record it leaves and its result. The old
window is gone before the first call that can fail. -/
def setupPeerMw (ntb : Ntb) (app : AppDev) : AppDev × Except Errno Unit :=
  if app.peerXlat = 0 ∨ app.peerSize ≤ frameSize then (app, .error .enodata)
  else
    let freed := app.freePeerMw
    match ntb.peerMwGetAddr with
    | .error e => (freed, .error e)
    | .ok (phys, mapSize) =>
        match ntb.peerMwSetTrans app.peerXlat app.peerSize with
        | .error e => (freed, .error e)
        | .ok () =>
            if ntb.ioremap then
              ({ freed with
                  peerIo := true, trans := some (app.peerXlat, app.peerSize), peerPhys := phys,
                  peerMapSize := mapSize, peerXlat := app.peerXlat,
                  peerSize := min app.peerSize mapSize }, .ok ())
            else (freed, .error .enomem)

def trySetupPeerLocked (ntb : Ntb) (app : AppDev) : AppDev :=
  if app.peerXlat = 0 ∨ app.peerSize = 0 then app
  else
    match app.setupPeerMw ntb with
    | (app, .error _) => app
    | (app, .ok ()) => { app with peerReady := true }

/-- The address and size of the window, if all three calls that open it succeed. -/
def peerWindow (ntb : Ntb) (app : AppDev) : Option (Nat × Nat) :=
  match ntb.peerMwGetAddr, ntb.peerMwSetTrans app.peerXlat app.peerSize, ntb.ioremap with
  | .ok bar, .ok (), true => some bar
  | _, _, _ => none

theorem trySetupPeerLocked_eq (ntb : Ntb) (app : AppDev) :
    app.trySetupPeerLocked ntb =
      if app.peerXlat = 0 ∨ app.peerSize ≤ frameSize then app
      else match app.peerWindow ntb with
        | none => app.freePeerMw
        | some (phys, mapSize) =>
            { app with
              peerReady := true, peerIo := true, trans := some (app.peerXlat, app.peerSize),
              peerPhys := phys, peerMapSize := mapSize, peerSize := min app.peerSize mapSize } := by
  unfold trySetupPeerLocked setupPeerMw
  by_cases unknown : app.peerXlat = 0 ∨ app.peerSize ≤ frameSize
  · simp only [unknown, if_true, ite_self]
  · have announced : ¬(app.peerXlat = 0 ∨ app.peerSize = 0) := by
      simp only [frameSize] at unknown
      omega
    simp only [unknown, announced, if_false, peerWindow]
    rcases ntb.peerMwGetAddr with e | ⟨phys, mapSize⟩
    · rfl
    · rcases ntb.peerMwSetTrans app.peerXlat app.peerSize with e | done
      · rfl
      · cases ntb.ioremap with
        | false => rfl
        | true => rfl

theorem peerWindow_found {app : AppDev} (found : app.peerWindow ntb = some bar) :
    ntb.peerMwGetAddr = .ok bar := by
  unfold peerWindow at found
  split at found
  · rename_i got _ _
    rw [got, Option.some.inj found]
  · cases found

/-- The three outcomes of an attempt: nothing is known to set up, the old window
is gone and the new one failed, or the window stands. -/
inductive SetUp (ntb : Ntb) (app : AppDev) : AppDev → Prop where
  | unchanged (unknown : app.peerXlat = 0 ∨ app.peerSize ≤ frameSize) : SetUp ntb app app
  | cleared : SetUp ntb app app.freePeerMw
  | opened {phys mapSize : Nat} (found : ntb.peerMwGetAddr = .ok (phys, mapSize))
      (holds : frameSize < app.peerSize) :
      SetUp ntb app
        { app with
          peerReady := true, peerIo := true, trans := some (app.peerXlat, app.peerSize),
          peerPhys := phys, peerMapSize := mapSize, peerSize := min app.peerSize mapSize }

theorem trySetupPeerLocked_setUp (ntb : Ntb) (app : AppDev) :
    SetUp ntb app (app.trySetupPeerLocked ntb) := by
  rw [trySetupPeerLocked_eq]
  by_cases unknown : app.peerXlat = 0 ∨ app.peerSize ≤ frameSize
  · rw [if_pos unknown]
    exact .unchanged unknown
  · rw [if_neg unknown]
    cases found : app.peerWindow ntb with
    | none => exact .cleared
    | some bar => exact .opened (peerWindow_found found) (by omega)

/-- The SIZE and XLAT cases of `service_work`. -/
def announce (ntb : Ntb) (app : AppDev) : Command → AppDev
  | .size data => { app with peerSize := data }.trySetupPeerLocked ntb
  | .xlat data => { app with peerXlat := data }.trySetupPeerLocked ntb
  | _ => app

theorem SetUp.receive (setUp : SetUp ntb app after) :
    after.rx = app.rx ∧ after.rxAvail = app.rxAvail ∧ after.rxLen = app.rxLen := by
  cases setUp with
  | unchanged => exact ⟨rfl, rfl, rfl⟩
  | cleared => exact ⟨rfl, rfl, rfl⟩
  | opened => exact ⟨rfl, rfl, rfl⟩

/-- An announcement concerns the outbound side alone. -/
theorem announce_receive (ntb : Ntb) (app : AppDev) (command : Command) :
    (app.announce ntb command).rx = app.rx ∧ (app.announce ntb command).rxAvail = app.rxAvail ∧
      (app.announce ntb command).rxLen = app.rxLen := by
  cases command with
  | size data =>
    have received := ({ app with peerSize := data }.trySetupPeerLocked_setUp ntb).receive
    exact received
  | xlat data =>
    have received := ({ app with peerXlat := data }.trySetupPeerLocked_setUp ntb).receive
    exact received
  | kick data => exact ⟨rfl, rfl, rfl⟩
  | unknown cmd data => exact ⟨rfl, rfl, rfl⟩

def txPayloadSize (app : AppDev) : Nat :=
  if app.peerSize ≤ frameSize then 0 else app.peerSize - frameSize

/-- The checks `write` and `tx_commit_locked` make before they touch the window. -/
def checkTx (app : AppDev) (len : Nat) : Except Errno Unit :=
  if app.removed then .error .enodev
  else if !app.peerReady || !app.peerIo then .error .enolink
  else if len > u32Max ∨ len > app.txPayloadSize then .error .emsgsize
  else .ok ()

/-- The header test of `ntb_idt_app_complete_rx` on a KICK with `data`. -/
def acceptsFrame (app : AppDev) (magic len data : Nat) : Bool :=
  magic = frameMagic && len = data && len ≤ app.rxSize - frameSize

/-- The locked part of `complete_rx`, with the sequence number in the header. -/
def publishRx (app : AppDev) (len seq : Nat) : AppDev :=
  { app with rxLen := len, rxSeq := seq, rxAvail := true }

/-- What a read does to the record once its copy is complete. -/
def retireRx (app : AppDev) : AppDev := { app with rxAvail := false, rxLen := 0 }

end AppDev
end IdtNtb.App
