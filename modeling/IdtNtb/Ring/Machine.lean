import IdtNtb.Ring.Layout
import IdtNtb.Lib.Transition

/-! The receive loop of `run_rx` and the whole of `run_tx` over one mapped ring.
Each step makes one load or store of the shared memory, so every interleaving
of the two programs is a schedule; the copy of the payload is byte by byte. The
four geometry fields of the header are read together, in `slotPtr`: they are
written only before the ring is published. Outcomes of clocks, allocation and
barriers are scheduling choices. -/
namespace IdtNtb.Ring
open Bytes

inductive RxResult where
  | success
  | invalidSlot
  | timedOut
  deriving DecidableEq

/-- The next access of `run_rx`, with the locals that are live there. -/
inductive RxPc where
  | loadTail
  | loadHead (tail : Nat)
  | slotPtr (tail : Nat)
  | loadLen (tail slot : Nat)
  | loadSeq (tail slot len : Nat)
  | checkSlot (tail len seq : Nat)
  | storeTail (tail : Nat)
  | loadFlags (tail : Nat)
  | reloadHead (tail : Nat)
  | checkTimeout
  | loadElapsed
  | loadTotalBytes
  | done (result : RxResult)
  deriving DecidableEq

structure Rx where
  received : Nat
  pc : RxPc
  deriving DecidableEq

inductive TxResult where
  | success
  | timedOut
  | slotTooSmall
  | noMemory
  | barrierFailed
  deriving DecidableEq

/-- The slot being filled: its index, its address and that of its payload, and
the number of payload bytes. -/
structure Filling where
  head : Nat
  slot : Nat
  dest : Nat
  payload : Nat
  deriving DecidableEq

inductive TxPc where
  | waitMagic
  | waitVersion
  | waitFlags
  | waitHead
  | waitTail
  | waitTimeout
  | loadSlotCount
  | loadSlotSize
  | allocate
  | loop
  | loadTail (head : Nat)
  | checkTimeout
  | slotPtr (head : Nat)
  | copy (slot : Filling) (k : Nat)
  | storeTotal (slot : Filling)
  | storeFlags (slot : Filling)
  | storeLen (slot : Filling)
  | barrier (slot : Filling)
  | storeSeq (slot : Filling)
  | storeHead (slot : Filling)
  | drainHead
  | drainTail (head : Nat)
  | drainTimeout
  | storeTotalBytes
  | storeElapsed
  | finalBarrier
  | storeDone
  | done (result : TxResult)
  deriving DecidableEq

structure Tx where
  sent : Nat
  slotCount : Nat
  slotSize : Nat
  pc : TxPc
  deriving DecidableEq

structure System where
  mem : Memory
  rx : Rx
  tx : Tx

/-- `stored` reports a store of the sender with the values that head and tail
had in memory at that moment; `produced` and `consumed` report an advanced head
and tail; `reported` is the last line `run_rx` prints. -/
inductive Event where
  | stored (addr width tail head : Nat)
  | produced
  | consumed
  | reported (received totalBytes : Nat)
  deriving DecidableEq

/-- `fails` makes a timeout check, an allocation or a barrier fail; `elapsed` is
what the clock shows at the end of `run_tx`. -/
inductive Label where
  | rx (fails : Bool)
  | tx (fails : Bool) (elapsed : Nat)
  deriving DecidableEq

def Rx.goto (rx : Rx) (m : Memory) (pc : RxPc) : Option (Memory × Rx × List Event) :=
  some (m, { rx with pc }, [])

def stepRx (m : Memory) (rx : Rx) (fails : Bool) : Option (Memory × Rx × List Event) :=
  match rx.pc with
  | .loadTail => rx.goto m (.loadHead (get m .tail))
  | .loadHead tail => rx.goto m (if tail < get m .head then .slotPtr tail else .loadFlags tail)
  | .slotPtr tail => rx.goto m (.loadLen tail (ntbRingSlot m tail))
  | .loadLen tail slot => rx.goto m (.loadSeq tail slot (slotGet m slot .len))
  | .loadSeq tail slot len => rx.goto m (.checkSlot tail len (slotGet m slot .seq))
  | .checkSlot tail len seq =>
      if seq ≠ u64 (tail + 1) ∨ get m .slotSize < len then rx.goto m (.done .invalidSlot)
      else some (m, ⟨u64 (rx.received + len), .storeTail tail⟩, [])
  | .storeTail tail => some (put m .tail (u64 (tail + 1)), { rx with pc := .loadTail }, [.consumed])
  | .loadFlags tail =>
      rx.goto m (if get m .flags &&& flagDone ≠ 0 then .reloadHead tail else .checkTimeout)
  | .reloadHead tail => rx.goto m (if tail = get m .head then .loadElapsed else .checkTimeout)
  | .checkTimeout => rx.goto m (if fails then .done .timedOut else .loadTail)
  | .loadElapsed => rx.goto m .loadTotalBytes
  | .loadTotalBytes =>
      some (m, { rx with pc := .done .success }, [.reported rx.received (get m .totalBytes)])
  | .done _ => none

def Tx.goto (tx : Tx) (m : Memory) (pc : TxPc) : Option (Memory × Tx × List Event) :=
  some (m, { tx with pc }, [])

def Tx.write (tx : Tx) (m : Memory) (addr width value : Nat) (pc : TxPc) :
    Option (Memory × Tx × List Event) :=
  some (store m addr width value, { tx with pc }, [.stored addr width (get m .tail) (get m .head)])

def Tx.writeSlot (tx : Tx) (m : Memory) (slot : Filling) (f : SlotField) (value : Nat) (pc : TxPc) :
    Option (Memory × Tx × List Event) :=
  tx.write m (slot.slot + f.offset) f.width value pc

def Tx.writeHeader (tx : Tx) (m : Memory) (f : Field) (value : Nat) (pc : TxPc) :
    Option (Memory × Tx × List Event) :=
  tx.write m f.offset f.width value pc

def Tx.await (tx : Tx) (m : Memory) (f : Field) (value : Nat) (pc : TxPc) :
    Option (Memory × Tx × List Event) :=
  tx.goto m (if get m f = value then pc else .waitTimeout)

def patternByte : Nat := 0xa5

/-- `payload`, cut to what is left to send. -/
def nextPayload (o : Options) (sent : Nat) : Nat :=
  if u64 (o.total + 2 ^ 64 - sent) < o.txChunk then u64 (o.total + 2 ^ 64 - sent) else o.txChunk

def stepTx (o : Options) (m : Memory) (tx : Tx) (fails : Bool) (elapsed : Nat) :
    Option (Memory × Tx × List Event) :=
  match tx.pc with
  | .waitMagic => tx.await m .magic ringMagic .waitVersion
  | .waitVersion => tx.await m .version ringVersion .waitFlags
  | .waitFlags => tx.await m .flags 0 .waitHead
  | .waitHead => tx.await m .head 0 .waitTail
  | .waitTail => tx.await m .tail 0 .loadSlotCount
  | .waitTimeout => tx.goto m (if fails then .done .timedOut else .waitMagic)
  | .loadSlotCount => some (m, { tx with slotCount := get m .slotCount, pc := .loadSlotSize }, [])
  | .loadSlotSize =>
      let slotSize := get m .slotSize
      let pc := if tx.slotCount = 0 ∨ slotSize = 0 ∨ slotSize < o.txChunk then .done .slotTooSmall
        else .allocate
      some (m, { tx with slotSize, pc }, [])
  | .allocate => tx.goto m (if fails then .done .noMemory else .loop)
  | .loop => tx.goto m (if tx.sent < o.total then .loadTail (get m .head) else .drainHead)
  | .loadTail head =>
      tx.goto m (if tx.slotCount ≤ u64 (head + 2 ^ 64 - get m .tail) then .checkTimeout
        else .slotPtr head)
  | .checkTimeout => tx.goto m (if fails then .done .timedOut else .loop)
  | .slotPtr head =>
      let slot := ntbRingSlot m head
      tx.goto m (.copy ⟨head, slot, ntbRingSlotPayload m slot, nextPayload o tx.sent⟩ 0)
  | .copy slot k =>
      if k < slot.payload then tx.write m (slot.dest + k) 1 patternByte (.copy slot (k + 1))
      else tx.goto m (.storeTotal slot)
  | .storeTotal slot =>
      tx.writeSlot m slot .total (u64 (tx.sent + slot.payload)) (.storeFlags slot)
  | .storeFlags slot => tx.writeSlot m slot .flags 0 (.storeLen slot)
  | .storeLen slot => tx.writeSlot m slot .len slot.payload (.barrier slot)
  | .barrier slot => tx.goto m (if fails then .done .barrierFailed else .storeSeq slot)
  | .storeSeq slot => tx.writeSlot m slot .seq (u64 (slot.head + 1)) (.storeHead slot)
  | .storeHead slot =>
      (tx.writeHeader m .head (u64 (slot.head + 1)) .loop).map fun (m, tx, es) =>
        (m, { tx with sent := u64 (tx.sent + slot.payload) }, es ++ [.produced])
  | .drainHead => tx.goto m (.drainTail (get m .head))
  | .drainTail head => tx.goto m (if get m .tail = head then .storeTotalBytes else .drainTimeout)
  | .drainTimeout => tx.goto m (if fails then .done .timedOut else .drainHead)
  | .storeTotalBytes => tx.writeHeader m .totalBytes tx.sent .storeElapsed
  | .storeElapsed => tx.writeHeader m .elapsedNs elapsed .finalBarrier
  | .finalBarrier => tx.goto m (if fails then .done .barrierFailed else .storeDone)
  | .storeDone => tx.writeHeader m .flags flagDone (.done .success)
  | .done _ => none

def System.step (o : Options) (s : System) : Label → Option (System × List Event)
  | .rx fails => (stepRx s.mem s.rx fails).map fun (m, rx, es) => ({ s with mem := m, rx }, es)
  | .tx fails elapsed =>
      (stepTx o s.mem s.tx fails elapsed).map fun (m, tx, es) => ({ s with mem := m, tx }, es)

/-- `run_rx` has published the ring and enters its loop; `run_tx` starts. -/
def System.start (m : Memory) : System := ⟨m, ⟨0, .loadTail⟩, ⟨0, 0, 0, .waitMagic⟩⟩

end IdtNtb.Ring
