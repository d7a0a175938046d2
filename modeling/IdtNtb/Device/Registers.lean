import Mathlib.Algebra.GroupWithZero.Nat
import Mathlib.Data.Fintype.Pi

/-! The register file of the emulated IDT switch. Registers that the peer's
QEMU process also reads or writes live in one shared memory block, split into
global registers and one block per VM; the rest are private to a device. -/
namespace IdtNtb.Device

/-- The two devices on the switch, by their `number` property: `self_number`
0 owns the `vm1` block of the shared storage, any other number the `vm2` block. -/
inductive Role where
  | vm1
  | vm2
  deriving DecidableEq, Repr

def Role.peer : Role → Role
  | .vm1 => .vm2
  | .vm2 => .vm1

@[simp] theorem Role.peer_peer (r : Role) : r.peer.peer = r := by cases r <;> rfl

@[simp] theorem Role.peer_ne (r : Role) : r.peer ≠ r := by cases r <;> decide

@[simp] theorem Role.ne_peer (r : Role) : r ≠ r.peer := by cases r <;> decide

theorem Role.eq_or_peer (r q : Role) : q = r ∨ q = r.peer := by cases r <;> cases q <;> decide

instance : Fintype Role := ⟨{.vm1, .vm2}, fun r => by cases r <;> decide⟩

/-! The index types of the register file are not empty: halves of a 64-bit register,
message registers and BARs. -/

instance halfIndex_ne : NeZero 2 := ⟨by decide⟩

instance msgIndex_ne : NeZero 4 := ⟨by decide⟩

instance barIndex_ne : NeZero 6 := ⟨by decide⟩

structure BARConfig where
  setup : BitVec 32
  limit : BitVec 32
  ltbase : BitVec 32
  utbase : BitVec 32
  deriving DecidableEq, Repr

inductive BarField where
  | setup
  | limit
  | ltbase
  | utbase
  deriving DecidableEq, Repr

def BARConfig.get (c : BARConfig) : BarField → BitVec 32
  | .setup => c.setup
  | .limit => c.limit
  | .ltbase => c.ltbase
  | .utbase => c.utbase

def BARConfig.set (c : BARConfig) (value : BitVec 32) : BarField → BARConfig
  | .setup => { c with setup := value }
  | .limit => { c with limit := value }
  | .ltbase => { c with ltbase := value }
  | .utbase => { c with utbase := value }

structure GlobalRegisters where
  segsigsts : BitVec 32
  segsigmsk : BitVec 32
  ntIntMask : BitVec 32
  ntmtbl0 : BitVec 32
  deriving DecidableEq

/-- `idt_shared_registers`: written by both QEMU processes. -/
structure SharedRegisters where
  db : BitVec 32
  dbMask : BitVec 32
  inboundMwPart : BitVec 32
  ntctl : BitVec 64
  msgsts : BitVec 64
  msgstsMask : BitVec 64
  msg : Fin 4 → BitVec 64
  intsts : BitVec 64
  part0MsgControl : Fin 4 → BitVec 64
  inbMsgSrc : Fin 4 → BitVec 64
  deriving DecidableEq

structure VmStorage where
  id : BitVec 32
  regs : SharedRegisters
  barConfig : Fin 6 → BARConfig
  deriving DecidableEq

/-- `idt_ivshmem_shm_storage`, with the words of the shared block that lie
beyond the packed structure. -/
structure SharedMemory where
  gregs : GlobalRegisters
  vm : Role → VmStorage
  beyond : Nat → BitVec 32

def SharedMemory.mapVm (m : SharedMemory) (r : Role) (f : VmStorage → VmStorage) : SharedMemory :=
  { m with vm := Function.update m.vm r (f (m.vm r)) }

def SharedMemory.mapRegs (m : SharedMemory) (r : Role) (f : SharedRegisters → SharedRegisters) :
    SharedMemory :=
  m.mapVm r fun v => { v with regs := f v.regs }

def SharedMemory.setBar (m : SharedMemory) (r : Role) (i : Fin 6) (field : BarField)
    (value : BitVec 32) : SharedMemory :=
  m.mapVm r fun v =>
    { v with barConfig := Function.update v.barConfig i ((v.barConfig i).set value field) }

@[simp] theorem mapVm_same (m : SharedMemory) (r : Role) (f) : (m.mapVm r f).vm r = f (m.vm r) := by
  simp [SharedMemory.mapVm]

theorem mapVm_other (m : SharedMemory) (f) (other : q ≠ r) : (m.mapVm r f).vm q = m.vm q := by
  simp [SharedMemory.mapVm, Function.update_of_ne other]

@[simp] theorem mapVm_gregs (m : SharedMemory) (r : Role) (f) : (m.mapVm r f).gregs = m.gregs := rfl

@[simp] theorem mapVm_beyond (m : SharedMemory) (r : Role) (f) : (m.mapVm r f).beyond = m.beyond :=
  rfl

@[simp] theorem mapRegs_same (m : SharedMemory) (r : Role) (f) :
    ((m.mapRegs r f).vm r).regs = f (m.vm r).regs := by
  simp [SharedMemory.mapRegs]

theorem mapRegs_other (m : SharedMemory) (f) (other : q ≠ r) : (m.mapRegs r f).vm q = m.vm q :=
  mapVm_other m _ other

@[simp] theorem mapRegs_peer (m : SharedMemory) (r : Role) (f) :
    (m.mapRegs r f).vm r.peer = m.vm r.peer :=
  mapRegs_other m f r.peer_ne

@[simp] theorem mapRegs_of_peer (m : SharedMemory) (r : Role) (f) :
    (m.mapRegs r.peer f).vm r = m.vm r :=
  mapRegs_other m f r.ne_peer

@[simp] theorem mapRegs_gregs (m : SharedMemory) (r : Role) (f) : (m.mapRegs r f).gregs = m.gregs :=
  rfl

/-- `idt_local_registers`: never visible to the peer process. -/
structure LocalRegisters where
  gasaaddr : BitVec 64
  ntMtbAddr : BitVec 64
  inboundMwBar : BitVec 32
  deriving DecidableEq

/-- The registers of the NT function's BAR 0, `idt_config_registers` together
with `IDT_NT_NTINTMSK`. -/
inductive ConfigRegister where
  | pcicmdsts
  | pcielcap
  | pcielctlsts
  | ntctl
  | ntintsts
  | ntintmsk
  | ntgsignal
  | outdbellset
  | indbellsts
  | indbellmsk
  | outmsg (i : Fin 4)
  | inmsg (i : Fin 4)
  | inmsgsrc (i : Fin 4)
  | msgsts
  | msgstsmsk
  | ntmtbladdr
  | ntmtbldata
  | reqidcap
  | gasaaddr
  | gasadata
  | bar (field : BarField) (i : Fin 6)
  | oofTpart
  | oofLutoff
  | oofLdata
  | oofHdata
  | oofLlimit
  | oofHlimit
  deriving DecidableEq

def BarField.offset : BarField → Nat
  | .setup => 0x0
  | .limit => 0x4
  | .ltbase => 0x8
  | .utbase => 0xC

def ConfigRegister.addr : ConfigRegister → Nat
  | .pcicmdsts => 0x4
  | .pcielcap => 0x4C
  | .pcielctlsts => 0x50
  | .ntctl => 0x400
  | .ntintsts => 0x404
  | .ntintmsk => 0x408
  | .ntgsignal => 0x410
  | .outdbellset => 0x420
  | .indbellsts => 0x428
  | .indbellmsk => 0x42C
  | .outmsg i => 0x430 + 4 * i
  | .inmsg i => 0x440 + 4 * i
  | .inmsgsrc i => 0x450 + 4 * i
  | .msgsts => 0x460
  | .msgstsmsk => 0x464
  | .bar field i => 0x470 + 0x10 * i + field.offset
  | .ntmtbladdr => 0x4D0
  | .ntmtbldata => 0x4D8
  | .reqidcap => 0x4DC
  | .gasaaddr => 0xFF8
  | .gasadata => 0xFFC
  | .oofTpart => 0x1000
  | .oofLutoff => 0x1004
  | .oofLdata => 0x1008
  | .oofHdata => 0x100C
  | .oofLlimit => 0x1010
  | .oofHlimit => 0x1014

def ConfigRegister.scalars : List ConfigRegister :=
  [.pcicmdsts, .pcielcap, .pcielctlsts, .ntctl, .ntintsts, .ntintmsk, .ntgsignal, .outdbellset,
    .indbellsts, .indbellmsk, .msgsts, .msgstsmsk, .ntmtbladdr, .ntmtbldata, .reqidcap, .gasaaddr,
    .gasadata, .oofTpart, .oofLutoff, .oofLdata, .oofHdata, .oofLlimit, .oofHlimit]

def ConfigRegister.messages (i : Fin 4) : List ConfigRegister := [.outmsg i, .inmsg i, .inmsgsrc i]

def ConfigRegister.bars (i : Fin 6) : List ConfigRegister :=
  [.bar .setup i, .bar .limit i, .bar .ltbase i, .bar .utbase i]

def ConfigRegister.all : List ConfigRegister :=
  scalars ++ (List.finRange 4).flatMap messages ++ (List.finRange 6).flatMap bars

/-- The `switch (addr)` of the MMIO handlers: the register at an offset, if any. -/
def ConfigRegister.decode (addr : Nat) : Option ConfigRegister :=
  ConfigRegister.all.find? (·.addr == addr)

theorem decode_addr (reg : ConfigRegister) : ConfigRegister.decode reg.addr = some reg := by
  cases reg with
  | outmsg i | inmsg i | inmsgsrc i => revert i; decide +kernel
  | bar field i => cases field <;> revert i <;> decide +kernel
  | _ => decide +kernel

theorem addr_of_decode (found : ConfigRegister.decode addr = some reg) : reg.addr = addr := by
  have matched := List.find?_some found
  simpa only [beq_iff_eq] using matched

end IdtNtb.Device
