import IdtNtb.Device.Layout

/-! The state of one emulated device outside the shared block, the host
answers it depends on, and the handlers that signal the peer or keep the RAM
aliases of the memory-window BARs. -/
namespace IdtNtb.Device

/-- A connected ivshmem peer: how many of its event descriptors have arrived. -/
structure Peer where
  nbEventfds : Nat
  deriving DecidableEq, Repr

/-- A BAR's alias into the peer RAM region, with the offset and size last set. -/
structure RamAlias where
  initialized : Bool
  mapped : Bool
  offset : BitVec 64
  size : BitVec 64
  deriving DecidableEq

/-- `IVShmemState`. `attached` says whether realize has set the register
pointers; `peerMem` is the length of the peer RAM mapping, if it was made.
`requesterId` is the PCI requester id of the device. -/
structure IVShmemState where
  vmId : Int
  otherVmId : Int
  peers : List Peer
  attached : Bool
  lregs : LocalRegisters
  bars : Fin 6 → BitVec 64
  peerMem : Option Nat
  peerRamInitialized : Bool
  peerRamSize : BitVec 64
  peerRamAlias : Fin 6 → RamAlias
  requesterId : BitVec 16

/-- What the host answers when the device opens the peer's RAM file: whether
`open` succeeds, the size from `fstat` (`none` on failure), and whether the
mapping call on the descriptor succeeds. -/
structure PeerRamFile where
  opens : Bool
  stSize : Option Int
  maps : Bool

def PeerRamFile.absent : PeerRamFile := ⟨false, none, false⟩

/-- Calls out of the device that leave the register file unchanged. -/
inductive Effect where
  | eventNotifierSet (peer : Int) (vector : Nat)
  | msiNotify (vector : Nat)
  | addSubregion (idx : Fin 6)
  | delSubregion (idx : Fin 6)
  deriving DecidableEq

def eventfdVmId : Nat := 0
def eventfdInterruptHost : Nat := 1

def ntintstsMsg : BitVec 32 := 0x1
def ntintstsDbell : BitVec 32 := 0x2
def ntintstsSevent : BitVec 32 := 0x8

def fieldBit (n : Nat) : BitVec 32 := 1#32 <<< n

def barsetupMode : Nat := 10
def barsetupEnable : Nat := 31
def barApertureSize : BitVec 64 := 1#64 <<< 22

/-- Adopts the id in the peer's shared word when none is known yet, then tests
that the peer's descriptor for `vector` has arrived. -/
def idtPeerEventfdReady (r : Role) (s : IVShmemState) (shm : SharedMemory) (vector : Nat) :
    IVShmemState × Bool :=
  let shared := (shm.vm r.peer).id.toInt
  let s :=
    if s.otherVmId = -1 ∧ s.attached ∧ 0 ≤ shared ∧ shared < s.peers.length ∧ shared ≠ s.vmId then
      { s with otherVmId := shared }
    else s
  if s.otherVmId < 0 ∨ s.peers.length ≤ s.otherVmId then (s, false)
  else (s, decide (vector < ((s.peers[s.otherVmId.toNat]?).map Peer.nbEventfds).getD 0))

def idtKickPeerInterrupt (r : Role) (s : IVShmemState) (shm : SharedMemory) :
    IVShmemState × List Effect :=
  if s.attached then
    let (s, ready) := idtPeerEventfdReady r s shm eventfdInterruptHost
    if ready ∧ (shm.vm r.peer).regs.intsts &&& (~~~shm.gregs.ntIntMask).setWidth 64 ≠ 0 then
      (s, [.eventNotifierSet s.otherVmId eventfdInterruptHost])
    else (s, [])
  else (s, [])

def idtRaisePeerInterrupt (r : Role) (s : IVShmemState) (shm : SharedMemory) (bit : BitVec 32) :
    IVShmemState × SharedMemory × List Effect :=
  let shm := shm.mapRegs r.peer fun g => { g with intsts := g.intsts ||| bit.setWidth 64 }
  let (s, effects) := idtKickPeerInterrupt r s shm
  (s, shm, effects)

def idtNotifyPeerBarConfigChanged (r : Role) (s : IVShmemState) (shm : SharedMemory) :
    IVShmemState × List Effect :=
  let (s, ready) := idtPeerEventfdReady r s shm eventfdVmId
  if ready then (s, [.eventNotifierSet s.otherVmId eventfdVmId]) else (s, [])

def idtInitPeerRamRegion (file : PeerRamFile) (s : IVShmemState) : IVShmemState × Bool :=
  if s.peerRamInitialized then (s, true)
  else if !file.opens then (s, false)
  else match file.stSize with
    | none => (s, false)
    | some size =>
        if size ≤ 0 ∨ !file.maps then (s, false)
        else ({ s with peerRamSize := BitVec.ofInt 64 size, peerRamInitialized := true }, true)

def IVShmemState.setAlias (s : IVShmemState) (idx : Fin 6) (a : RamAlias) : IVShmemState :=
  { s with peerRamAlias := Function.update s.peerRamAlias idx a }

def idtBarRemovePeerRamAlias (s : IVShmemState) (idx : Fin 6) : IVShmemState × List Effect :=
  if (s.peerRamAlias idx).mapped then
    (s.setAlias idx { s.peerRamAlias idx with mapped := false }, [.delSubregion idx])
  else (s, [])

/-- The translation base of a window, `((uint64_t)utbase << 32) + ltbase`. -/
def BARConfig.translation (c : BARConfig) : BitVec 64 :=
  (c.utbase.setWidth 64 <<< 32) + c.ltbase.setWidth 64

def idtBarUpdatePeerRamAlias (file : PeerRamFile) (s : IVShmemState) (c : BARConfig) (idx : Fin 6) :
    IVShmemState × List Effect :=
  if idx.val < 2 ∨ 4 < idx.val then (s, [])
  else
    let barBase := s.bars idx
    let limit := c.limit.setWidth 64
    if c.setup &&& fieldBit barsetupEnable = 0 ∨ c.setup &&& fieldBit barsetupMode ≠ 0 ∨
        limit ≤ barBase then
      idtBarRemovePeerRamAlias s idx
    else
      let windowSize := if barApertureSize < limit - barBase then barApertureSize
        else limit - barBase
      if windowSize = 0 then idtBarRemovePeerRamAlias s idx
      else
        let (s, opened) := idtInitPeerRamRegion file s
        if !opened ∨ s.peerRamSize ≤ c.translation ∨ s.peerRamSize - c.translation < windowSize then
          idtBarRemovePeerRamAlias s idx
        else
          let removed := if (s.peerRamAlias idx).mapped then [Effect.delSubregion idx] else []
          (s.setAlias idx ⟨true, true, c.translation, windowSize⟩, removed ++ [.addSubregion idx])

/-- `idt_bar_refresh_peer_ram_aliases`, over BAR 2, 3 and 4. -/
def idtBarRefreshPeerRamAliases (file : PeerRamFile) (r : Role) (s : IVShmemState)
    (shm : SharedMemory) : IVShmemState × List Effect :=
  ([2, 3, 4] : List (Fin 6)).foldl (fun (s, effects) idx =>
    let (s, more) := idtBarUpdatePeerRamAlias file s ((shm.vm r).barConfig idx) idx
    (s, effects ++ more)) (s, [])

/-- The event descriptors of `ivshmem_vector_notify`. -/
inductive EventVector where
  | vmId
  | interruptHost
  deriving DecidableEq

def ivshmemVectorNotify (file : PeerRamFile) (r : Role) (s : IVShmemState) (shm : SharedMemory) :
    EventVector → IVShmemState × List Effect
  | .vmId =>
      let s := { s with otherVmId := (shm.vm r.peer).id.toInt }
      let (s, refreshed) := idtBarRefreshPeerRamAliases file r s shm
      let (s, kicked) := idtKickPeerInterrupt r s shm
      (s, refreshed ++ kicked)
  | .interruptHost => (s, [.msiNotify 0])

def SharedRegisters.zero : SharedRegisters :=
  ⟨0, 0, 0, 0, 0, 0, fun _ => 0, 0, fun _ => 0, fun _ => 0⟩

def SharedMemory.zero : SharedMemory :=
  ⟨⟨0, 0, 0, 0⟩, fun _ => ⟨0, .zero, fun _ => ⟨0, 0, 0, 0⟩⟩, fun _ => 0⟩

def valueNtIntMask : BitVec 32 := 0xBB
def valueNtpNtctl : BitVec 64 := 0x0
def valueNtBarsetup0 : BitVec 32 := 0x800004C0
def valueNtBarsetup2 : BitVec 32 := 0x80000160

/-- What `ivshmem_common_realize` leaves in the shared block. The peer's table
is copied only when the peer has not been realized yet. -/
def ivshmemCommonRealize (r : Role) (shm : SharedMemory) : SharedMemory :=
  let shm := { shm with gregs := { shm.gregs with ntIntMask := valueNtIntMask } }
  let shm := shm.mapRegs r fun g => { g with ntctl := valueNtpNtctl }
  let shm := shm.setBar r 0 .setup valueNtBarsetup0
  let shm := shm.setBar r 2 .setup valueNtBarsetup2
  let shm := shm.setBar r 3 .setup valueNtBarsetup2
  let shm := shm.setBar r 4 .setup valueNtBarsetup2
  if ((shm.vm r.peer).barConfig 0).setup = 0 then
    shm.mapVm r.peer fun v => { v with barConfig := (shm.vm r).barConfig }
  else shm

/-- A realized device: QEMU zero-fills the instance, there is space for 16
peers, and the server has sent the device's id but no descriptors yet. -/
def IVShmemState.realized (vmId : Int) (bars : Fin 6 → BitVec 64) : IVShmemState :=
  ⟨vmId, -1, List.replicate 16 ⟨0⟩, true, ⟨0, 0, 0⟩, bars, none, false, 0,
    fun _ => ⟨false, false, 0, 0⟩, 0⟩

end IdtNtb.Device
