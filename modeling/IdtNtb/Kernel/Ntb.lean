import Mathlib.Data.Nat.Basic

/-! What the two drivers use of the kernel: error numbers, size rounding and the
NTB calls. The calls one function makes enter it as a record of their results,
so a caller can quantify over every outcome. -/
namespace IdtNtb.Kernel

inductive Errno where
  | enodev
  | enoent
  | enolink
  | enodata
  | enomem
  | einval
  | ebusy
  | efault
  | emsgsize
  | eagain
  deriving DecidableEq, Repr

def u32Max : Nat := 0xFFFFFFFF

/-- `SIZE_MAX`, and the largest `resource_size_t`. -/
def sizeMax : Nat := 0xFFFFFFFFFFFFFFFF

/-- `round_down` to a multiple of a power of two. -/
def roundDown (x align : Nat) : Nat := x / align * align

/-- `ALIGN`: up to a multiple of a power of two. -/
def alignUp (x align : Nat) : Nat := roundDown (x + (align - 1)) align

def pageSize : Nat := 4096

/-- `PAGE_ALIGN`, in 64 bits. -/
def pageAlign (x : Nat) : Nat := alignUp x pageSize % (sizeMax + 1)

structure MwAlign where
  addrAlign : Nat
  sizeAlign : Nat
  sizeMax : Nat
  deriving DecidableEq

/-- The results of the NTB and allocation calls of one invocation. -/
structure Ntb where
  getAlign : Except Errno MwAlign
  dmaAlloc : Option Nat
  mwSetTrans : Nat → Nat → Except Errno Unit
  peerMwGetAddr : Except Errno (Nat × Nat)
  peerMwSetTrans : Nat → Nat → Except Errno Unit
  ioremap : Bool

def Ntb.granting (align : MwAlign) (dma phys mapSize : Nat) : Ntb where
  getAlign := .ok align
  dmaAlloc := some dma
  mwSetTrans := fun _ _ => .ok ()
  peerMwGetAddr := .ok (phys, mapSize)
  peerMwSetTrans := fun _ _ => .ok ()
  ioremap := true

/-- They succeed with an allocation at `dma` and a window of 4 MiB. -/
def Ntb.paged (dma : Nat) : Ntb := .granting ⟨4096, 4096, 0x400000⟩ dma 0xF0000000 0x400000

end IdtNtb.Kernel
