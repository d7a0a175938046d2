import IdtNtb.Device.Messages
import IdtNtb.Lib.Transition

/-! The BAR 0 handlers `ivshmem_io_write` and `ivshmem_io_read`, and the switch
made of the two devices over one shared block. Each handler runs atomically. -/
namespace IdtNtb.Device

/-- Registers reached through GASAADDR and GASADATA. Port 0 is `vm1`'s and port
2 is `vm2`'s. -/
inductive GlobalRegister where
  | swportSts (port : Role)
  | swpart0sts
  | ntpPciecmdsts (port : Role)
  | ntpNtctl (port : Role)
  | ntpBarsetup (port : Role) (i : Fin 6)
  | swp0msgctl (i : Fin 4)
  | sests
  | selinkupsts
  | selinkdnsts
  | segsigsts
  deriving DecidableEq

def portBase : Role → Nat
  | .vm1 => 0x1000
  | .vm2 => 0x5000

def GlobalRegister.addr : GlobalRegister → Nat
  | .swportSts .vm1 => 0x3E204
  | .swportSts .vm2 => 0x3E244
  | .swpart0sts => 0x3E104
  | .ntpPciecmdsts port => portBase port + 0x4
  | .ntpNtctl port => portBase port + 0x400
  | .ntpBarsetup port i => portBase port + 0x470 + 0x10 * i
  | .swp0msgctl i => 0x3EE00 + 0x20 * i
  | .sests => 0x3EC00
  | .selinkupsts => 0x3EC0C
  | .selinkdnsts => 0x3EC14
  | .segsigsts => 0x3EC30

def GlobalRegister.ofPort (port : Role) : List GlobalRegister :=
  [GlobalRegister.swportSts port, .ntpPciecmdsts port, .ntpNtctl port] ++
    (List.finRange 6).map (GlobalRegister.ntpBarsetup port)

def GlobalRegister.all : List GlobalRegister :=
  [GlobalRegister.swpart0sts, .sests, .selinkupsts, .selinkdnsts, .segsigsts] ++
    ofPort .vm1 ++ ofPort .vm2 ++ (List.finRange 4).map GlobalRegister.swp0msgctl

def GlobalRegister.decode (addr : BitVec 64) : Option GlobalRegister :=
  GlobalRegister.all.find? (·.addr == addr.toNat)

def valueSwportSts : BitVec 64 := 0x210
def valueSwpart0sts : BitVec 64 := 0x20
def valuePciecmdsts : BitVec 64 := 0x4

def getGasadata (s : IVShmemState) (shm : SharedMemory) : BitVec 64 :=
  match GlobalRegister.decode s.lregs.gasaaddr with
  | some (.swportSts _) => valueSwportSts
  | some .swpart0sts => valueSwpart0sts
  | some (.ntpPciecmdsts _) => valuePciecmdsts
  | some (.ntpNtctl port) => (shm.vm port).regs.ntctl
  | some (.ntpBarsetup port i) => ((shm.vm port).barConfig i).setup.setWidth 64
  | _ => 0

def writeGasadata (r : Role) (s : IVShmemState) (shm : SharedMemory) (val : BitVec 64) :
    SharedMemory :=
  match GlobalRegister.decode s.lregs.gasaaddr with
  | some (.swp0msgctl i) =>
      shm.mapRegs r fun g => { g with part0MsgControl := Function.update g.part0MsgControl i val }
  | some .segsigsts =>
      { shm with
        gregs := { shm.gregs with segsigsts := shm.gregs.segsigsts &&& (~~~val).setWidth 32 } }
  | _ => shm

def getNtMtbData (s : IVShmemState) (shm : SharedMemory) : BitVec 64 :=
  if s.lregs.ntMtbAddr = 0 then shm.gregs.ntmtbl0.setWidth 64 else 0

def setNtMtbData (s : IVShmemState) (shm : SharedMemory) (val : BitVec 32) : SharedMemory :=
  if s.lregs.ntMtbAddr = 0 then { shm with gregs := { shm.gregs with ntmtbl0 := val } } else shm

/-- A store to `peer_bar_config[inbound_mw_bar]`, at whatever word the latched
index selects, followed by the notification of the peer. -/
def writeInboundWindow (r : Role) (s : IVShmemState) (shm : SharedMemory) (field : BarField)
    (val : BitVec 64) : IVShmemState × SharedMemory × List Effect :=
  let shm := shm.storeBar r.peer s.lregs.inboundMwBar field (val.setWidth 32)
  let (s, effects) := idtNotifyPeerBarConfigChanged r s shm
  (s, shm, effects)

/-- `ivshmem_io_write` on device `r`; `none` is the failed assertion of NTGSIGNAL. -/
def ivshmemIoWrite (file : PeerRamFile) (r : Role) (s : IVShmemState) (shm : SharedMemory)
    (addr : Nat) (val : BitVec 64) : Option (IVShmemState × SharedMemory × List Effect) :=
  match ConfigRegister.decode addr with
  | some .gasaaddr => some ({ s with lregs := { s.lregs with gasaaddr := val } }, shm, [])
  | some .gasadata => some (s, writeGasadata r s shm val, [])
  | some .ntctl => some (s, shm.mapRegs r fun g => { g with ntctl := val }, [])
  | some .ntmtbladdr =>
      some ({ s with lregs := { s.lregs with ntMtbAddr := val &&& 0x7F } }, shm, [])
  | some .ntmtbldata => some (s, setNtMtbData s shm (val.setWidth 32), [])
  | some .ntintsts => some (s, shm.mapRegs r fun g => { g with intsts := g.intsts &&& ~~~val }, [])
  | some (.outmsg i) => some (writeOutboundMsg r s shm i val)
  | some .outdbellset =>
      let shm := shm.mapRegs r.peer fun g => { g with db := val.setWidth 32 }
      if ~~~shm.gregs.ntIntMask &&& ntintstsDbell ≠ 0 then
        some (idtRaisePeerInterrupt r s shm ntintstsDbell)
      else some (s, shm, [])
  | some .indbellsts =>
      some (s, shm.mapRegs r fun g => { g with db := g.db &&& (~~~val).setWidth 32 }, [])
  | some .indbellmsk => some (s, shm.mapRegs r fun g => { g with dbMask := val.setWidth 32 }, [])
  | some .msgsts => some (s, shm.mapRegs r fun g => { g with msgsts := g.msgsts &&& ~~~val }, [])
  | some .msgstsmsk => some (s, shm.mapRegs r fun g => { g with msgstsMask := val }, [])
  | some .ntgsignal =>
      if val = 1 then
        let shm := { shm with gregs := { shm.gregs with segsigsts := shm.gregs.segsigsts ||| 1 } }
        if ~~~shm.gregs.ntIntMask &&& ntintstsSevent ≠ 0 then
          some (idtRaisePeerInterrupt r s shm ntintstsSevent)
        else some (s, shm, [])
      else none
  | some (.bar field i) =>
      let shm := shm.setBar r i field (val.setWidth 32)
      let (s, effects) := idtBarUpdatePeerRamAlias file s ((shm.vm r).barConfig i) i
      some (s, shm, effects)
  | some .oofTpart =>
      some (s, shm.mapRegs r fun g => { g with inboundMwPart := val.setWidth 32 }, [])
  | some .oofLutoff =>
      some ({ s with lregs := { s.lregs with inboundMwBar := val.setWidth 32 } }, shm, [])
  | some .oofLdata => some (writeInboundWindow r s shm .ltbase val)
  | some .oofHdata => some (writeInboundWindow r s shm .utbase val)
  | some .oofLlimit | some .oofHlimit => some (writeInboundWindow r s shm .limit val)
  | some .ntintmsk =>
      some (s, { shm with gregs := { shm.gregs with ntIntMask := val.setWidth 32 } }, [])
  | _ => some (s, shm, [])

def valuePcielcap : Role → BitVec 64
  | .vm1 => 0x0
  | .vm2 => 0x2000000

def valuePcielctlsts : BitVec 64 := 0x410000
def valuePcicmdsts : BitVec 64 := 0x4

def ivshmemIoRead (r : Role) (s : IVShmemState) (shm : SharedMemory) (addr : Nat) : BitVec 64 :=
  let regs := (shm.vm r).regs
  match ConfigRegister.decode addr with
  | some .gasadata => getGasadata s shm
  | some .pcielcap => valuePcielcap r
  | some .pcielctlsts => valuePcielctlsts
  | some .pcicmdsts => valuePcicmdsts
  | some .ntctl => regs.ntctl
  | some .ntmtbldata => getNtMtbData s shm
  | some .ntintsts => regs.intsts
  | some (.inmsg i) => regs.msg i
  | some (.inmsgsrc i) => regs.inbMsgSrc i
  | some .indbellsts => regs.db.setWidth 64
  | some .indbellmsk => regs.dbMask.setWidth 64
  | some .msgsts => regs.msgsts
  | some .msgstsmsk => regs.msgstsMask
  | some .ntintmsk => shm.gregs.ntIntMask.setWidth 64
  | some .reqidcap => s.requesterId.setWidth 64
  | some (.bar field i) => (((shm.vm r).barConfig i).get field).setWidth 64
  | _ => 0

/-- Both devices, each private to its QEMU process, over the shared block. -/
structure Switch where
  shm : SharedMemory
  dev : Role → IVShmemState

/-- Both devices realized over a new shared block, `vm1` first. -/
def Switch.realized : Switch :=
  ⟨ivshmemCommonRealize .vm2 (ivshmemCommonRealize .vm1 .zero), fun
    | .vm1 => .realized 0 fun _ => 0
    | .vm2 => .realized 1 fun _ => 0⟩

/-- A guest's 32-bit store into BAR 0 of its device, with the host answers in
effect while the handler runs. -/
structure Bar0Write where
  role : Role
  addr : Nat
  val : BitVec 32
  file : PeerRamFile

def Switch.write (w : Switch) (access : Bar0Write) : Option (Switch × List (Role × Effect)) :=
  (ivshmemIoWrite access.file access.role (w.dev access.role) w.shm access.addr
    (access.val.setWidth 64)).map fun (s, shm, effects) =>
      (⟨shm, Function.update w.dev access.role s⟩, effects.map fun e => (access.role, e))

def Switch.notify (w : Switch) (file : PeerRamFile) (r : Role) (vector : EventVector) :
    Switch × List (Role × Effect) :=
  let (s, effects) := ivshmemVectorNotify file r (w.dev r) w.shm vector
  (⟨w.shm, Function.update w.dev r s⟩, effects.map fun e => (r, e))

/-- A guest's 32-bit load from BAR 0: the low half of what the handler returns. -/
def Switch.read (w : Switch) (r : Role) (addr : Nat) : BitVec 32 :=
  (ivshmemIoRead r (w.dev r) w.shm addr).setWidth 32

/-- Guest `r`'s plain accesses to message registers, as the drivers use them. -/
def Switch.writeReg (w : Switch) (file : PeerRamFile) (r : Role) (reg : ConfigRegister)
    (val : BitVec 32) : Option Switch :=
  (w.write ⟨r, reg.addr, val, file⟩).map Prod.fst

def Switch.readReg (w : Switch) (r : Role) (reg : ConfigRegister) : BitVec 32 := w.read r reg.addr

def MsgView.clear (v : MsgView) (r : Role) (val : BitVec 32) : MsgView :=
  { v with
    busy := Function.update v.busy r fun i => v.busy r i && !val.getLsbD (inmsgsts i)
    error := Function.update v.error r fun i => v.error r i && !val.getLsbD (outmsgsts i) }

/-- A store to OUTMSG always completes; its effect on the message registers is
one post. -/
theorem write_outmsg (w : Switch) (file : PeerRamFile) (r : Role) (i : Fin 4) (val : BitVec 32) :
    ∃ next, w.writeReg file r (.outmsg i) val = some next ∧
      msgView next.shm = (msgView w.shm).post r i (val.setWidth 64) := by
  let sent := writeOutboundMsg r (w.dev r) w.shm i (val.setWidth 64)
  refine ⟨⟨sent.2.1, Function.update w.dev r sent.1⟩, ?_, writeOutboundMsg_msgView ..⟩
  simp only [Switch.writeReg, Switch.write, ivshmemIoWrite, decode_addr, Option.map_some, sent]

theorem write_msgsts (w : Switch) (file : PeerRamFile) (r : Role) (val : BitVec 32) :
    ∃ next, w.writeReg file r .msgsts val = some next ∧
      msgView next.shm = (msgView w.shm).clear r val := by
  refine ⟨⟨w.shm.mapRegs r fun g => { g with msgsts := g.msgsts &&& ~~~val.setWidth 64 },
    Function.update w.dev r (w.dev r)⟩, ?_, ?_⟩
  · simp only [Switch.writeReg, Switch.write, ivshmemIoWrite, decode_addr, Option.map_some]
  · have mask : ∀ (x : BitVec 64) {n : Nat}, n < 32 →
        (x &&& ~~~val.setWidth 64).getLsbD n = (x.getLsbD n && !val.getLsbD n) := by
      intro x n bound
      have inside : n < 64 := by omega
      simp [inside]
    simp only [MsgView.clear, msgView, MsgView.mk.injEq]
    refine ⟨?_, ?_, ?_⟩
    · funext q i
      rcases Role.eq_or_peer r q with rfl | rfl
      · simp [inBusy, mask _ (inmsgsts_lt i)]
      · simp [inBusy]
    · funext q i
      rcases Role.eq_or_peer r q with rfl | rfl
      · simp [outError, mask _ (outmsgsts_lt i)]
      · simp [outError]
    · funext q
      rcases Role.eq_or_peer r q with rfl | rfl <;> simp

theorem read_msgsts_in (w : Switch) (r : Role) (i : Fin 4) :
    (w.readReg r .msgsts).getLsbD (inmsgsts i) = inBusy w.shm r i := by
  have bound := inmsgsts_lt i
  simp [Switch.readReg, Switch.read, ivshmemIoRead, decode_addr, inBusy, bound]

theorem read_msgsts_out (w : Switch) (r : Role) (i : Fin 4) :
    (w.readReg r .msgsts).getLsbD (outmsgsts i) = outError w.shm r i := by
  have bound := outmsgsts_lt i
  simp [Switch.readReg, Switch.read, ivshmemIoRead, decode_addr, outError, bound]

theorem read_inmsg (w : Switch) (r : Role) (i : Fin 4) :
    w.readReg r (.inmsg i) = ((w.shm.vm r).regs.msg i).setWidth 32 := by
  simp only [Switch.readReg, Switch.read, ivshmemIoRead, decode_addr]

end IdtNtb.Device
