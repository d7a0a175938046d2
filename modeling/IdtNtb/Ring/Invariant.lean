import IdtNtb.Ring.Machine

/-! The invariant of the profiling ring. With `h` slots produced and `t`
consumed, head and tail hold `h` and `t` themselves, the slots of the indices
from `t` to `h` hold complete frames, and each program's locals agree with what
it has read, by the access it makes next. -/
namespace IdtNtb.Ring
open Bytes Slots

/-- Bytes sent once `i` slots are filled, and the bytes of slot `i`. -/
def upto (o : Options) (i : Nat) : Nat := min o.total (i * o.txChunk)

def piece (o : Options) (i : Nat) : Nat := min o.txChunk (o.total - i * o.txChunk)

theorem upto_zero (o : Options) : upto o 0 = 0 := by simp [upto]

theorem upto_succ (o : Options) (i : Nat) : upto o (i + 1) = upto o i + piece o i := by
  simp only [upto, piece, Nat.add_mul, Nat.one_mul]
  omega

theorem upto_lt (o : Options) (i : Nat) : upto o i < 2 ^ 64 :=
  Nat.lt_of_le_of_lt (Nat.min_le_left ..) o.total_lt

theorem piece_le (o : Options) (i : Nat) : piece o i ≤ o.txChunk := Nat.min_le_left ..

/-- A slot that holds the complete frame of index `i`. -/
def Filled (o : Options) (g : Geometry) (m : Memory) (i : Nat) : Prop :=
  slotGet m (g.slot i) .seq = i + 1 ∧ slotGet m (g.slot i) .len = piece o i

structure Shared (o : Options) (g : Geometry) (m : Memory) (h t : Nat) : Prop where
  published : Published g m
  head : get m .head = h
  tail : get m .tail = t
  order : t ≤ h
  room : h ≤ t + g.count
  within : ∀ i, i < h → i * o.txChunk < o.total
  sized : 0 < h → o.txChunk ≤ g.size
  filled : ∀ i, t ≤ i → i < h → Filled o g m i

def RxAt (o : Options) (g : Geometry) (m : Memory) (h t : Nat) (rx : Rx) : Prop :=
  match rx.pc with
  | .loadTail | .checkTimeout => rx.received = upto o t
  | .loadHead tail | .loadFlags tail => rx.received = upto o t ∧ tail = t
  | .slotPtr tail => rx.received = upto o t ∧ tail = t ∧ t < h
  | .loadLen tail slot => rx.received = upto o t ∧ tail = t ∧ t < h ∧ slot = g.slot t
  | .loadSeq tail slot len =>
      rx.received = upto o t ∧ tail = t ∧ t < h ∧ slot = g.slot t ∧ len = piece o t
  | .checkSlot tail len seq =>
      rx.received = upto o t ∧ tail = t ∧ t < h ∧ len = piece o t ∧ seq = t + 1
  | .storeTail tail => rx.received = upto o (t + 1) ∧ tail = t ∧ t < h
  | .reloadHead tail => rx.received = upto o t ∧ tail = t ∧ get m .flags ≠ 0
  | .loadElapsed | .loadTotalBytes | .done .success => rx.received = upto o t ∧ get m .flags ≠ 0
  | .done .invalidSlot => False
  | .done .timedOut => True

/-- The sender is past the handshake and has not set DONE. -/
structure Producing (o : Options) (g : Geometry) (m : Memory) (h : Nat) (tx : Tx) : Prop where
  sent : tx.sent = upto o h
  slotCount : tx.slotCount = g.count
  sized : o.txChunk ≤ g.size
  flags : get m .flags = 0

/-- The sender is filling slot `h`, which is free. -/
structure Working (o : Options) (g : Geometry) (m : Memory) (h t : Nat) (tx : Tx) (slot : Filling) :
    Prop extends Producing o g m h tx where
  more : h * o.txChunk < o.total
  free : h < t + g.count
  slot : slot = ⟨h, g.slot h, g.slot h + sizeofSlot, piece o h⟩

def TxAt (o : Options) (g : Geometry) (m : Memory) (h t : Nat) (tx : Tx) : Prop :=
  match tx.pc with
  | .waitMagic | .waitVersion | .waitFlags | .waitHead | .waitTail | .waitTimeout
  | .loadSlotCount =>
      h = 0 ∧ tx.sent = 0 ∧ get m .flags = 0
  | .loadSlotSize => h = 0 ∧ tx.sent = 0 ∧ tx.slotCount = g.count ∧ get m .flags = 0
  | .allocate | .loop | .checkTimeout => Producing o g m h tx
  | .loadTail head => Producing o g m h tx ∧ h * o.txChunk < o.total ∧ head = h
  | .slotPtr head =>
      Producing o g m h tx ∧ h * o.txChunk < o.total ∧ h < t + g.count ∧ head = h
  | .copy slot _ | .storeTotal slot | .storeFlags slot | .storeLen slot => Working o g m h t tx slot
  | .barrier slot | .storeSeq slot =>
      Working o g m h t tx slot ∧ slotGet m (g.slot h) .len = piece o h
  | .storeHead slot => Working o g m h t tx slot ∧ Filled o g m h
  | .drainHead | .drainTimeout => Producing o g m h tx ∧ tx.sent = o.total
  | .drainTail head => Producing o g m h tx ∧ tx.sent = o.total ∧ head = h
  | .storeTotalBytes | .storeElapsed | .finalBarrier | .storeDone =>
      Producing o g m h tx ∧ tx.sent = o.total ∧ t = h
  | .done .success => tx.sent = upto o h ∧ tx.sent = o.total ∧ t = h
  | .done _ => get m .flags = 0

structure Inv (o : Options) (g : Geometry) (h t : Nat) (s : System) : Prop where
  shared : Shared o g s.mem h t
  rx : RxAt o g s.mem h t s.rx
  tx : TxAt o g s.mem h t s.tx

variable {o : Options} {g : Geometry} {m n : Memory} {h t : Nat}

theorem Shared.head_le (shared : Shared o g m h t) : h ≤ o.total := by
  cases h with
  | zero => exact Nat.zero_le _
  | succ k =>
    have last := shared.within k (Nat.lt_succ_self k)
    have scaled := Nat.le_mul_of_pos_right k o.txChunk_pos
    omega

/-- Counters never reach the word size. -/
theorem Shared.u64_succ (shared : Shared o g m h t) (below : i < h) : u64 (i + 1) = i + 1 := by
  have bound := shared.head_le
  have total := o.total_lt
  exact Nat.mod_eq_of_lt (by omega)

def Field.Mutable (f : Field) : Prop :=
  f ≠ .headerSize ∧ f ≠ .slotHeaderSize ∧ f ≠ .slotCount ∧ f ≠ .slotSize

instance (f : Field) : Decidable f.Mutable := inferInstanceAs (Decidable (_ ∧ _))

theorem published_put (published : Published g m) (value : Nat) (changes : f.Mutable) :
    Published g (put m f value) := by
  obtain ⟨first, second, third, fourth⟩ := changes
  obtain ⟨headerSize, slotHeaderSize, slotCount, slotSize⟩ := published
  refine ⟨?_, ?_, ?_, ?_⟩
  · rwa [get_put_ne _ _ first.symm]
  · rwa [get_put_ne _ _ second.symm]
  · rwa [get_put_ne _ _ third.symm]
  · rwa [get_put_ne _ _ fourth.symm]

theorem published_store (published : Published g m) (width value : Nat)
    (behind : sizeofHeader ≤ addr) :
    Published g (store m addr width value) := by
  obtain ⟨headerSize, slotHeaderSize, slotCount, slotSize⟩ := published
  refine ⟨?_, ?_, ?_, ?_⟩ <;> rwa [get_store _ _ _ _ behind]

theorem filled_put (f : Field) (value i : Nat) : Filled o g (put m f value) i ↔ Filled o g m i := by
  simp only [Filled, slotGet_put]

/-- A store into a slot keeps the frames of other slots. -/
theorem filled_store (value : Nat) (different : i % g.count ≠ j % g.count)
    (within : x + width ≤ g.stride) (filled : Filled o g m i) :
    Filled o g (store m (g.slot j + x) width value) i := by
  simpa only [Filled, slotGet_store _ _ _ _ _ different within] using filled

/-- The sender's stores into the free slot `h` change nothing the receiver may
read. -/
theorem Shared.store_slot (shared : Shared o g m h t) (value : Nat) (free : h < t + g.count)
    (within : x + width ≤ g.stride) : Shared o g (store m (g.slot h + x) width value) h t := by
  have behind : sizeofHeader ≤ g.slot h + x := Nat.le_trans (slot_behind g h) (Nat.le_add_right ..)
  refine ⟨published_store shared.published _ _ behind, ?_, ?_, shared.order, shared.room,
    shared.within, shared.sized, ?_⟩
  · rw [get_store _ _ _ _ behind, shared.head]
  · rw [get_store _ _ _ _ behind, shared.tail]
  · intro i lower upper
    exact filled_store value (mod_ne lower upper free) within (shared.filled i lower upper)

theorem Shared.put_other (shared : Shared o g m h t) (value : Nat) (changes : f.Mutable)
    (head : f ≠ .head) (tail : f ≠ .tail) : Shared o g (put m f value) h t := by
  refine ⟨published_put shared.published value changes, ?_, ?_, shared.order, shared.room,
    shared.within, shared.sized, ?_⟩
  · rw [get_put_ne _ _ head.symm, shared.head]
  · rw [get_put_ne _ _ tail.symm, shared.tail]
  · intro i lower upper
    exact (filled_put f value i).mpr (shared.filled i lower upper)

theorem Shared.produce (shared : Shared o g m h t) (free : h < t + g.count)
    (more : h * o.txChunk < o.total) (sized : o.txChunk ≤ g.size) (filled : Filled o g m h) :
    Shared o g (put m .head (h + 1)) (h + 1) t := by
  have order := shared.order
  have bound : h + 1 < 256 ^ Field.head.width := by
    have total := o.total_lt
    have scaled := Nat.le_mul_of_pos_right h o.txChunk_pos
    exact Nat.lt_of_le_of_lt (by omega : h + 1 ≤ o.total) total
  refine ⟨published_put shared.published _ (by decide), get_put_same _ _ bound,
    ?_, by omega, by omega, ?_, fun _ => sized, ?_⟩
  · rw [get_put_ne _ _ (by decide), shared.tail]
  · intro i below
    rcases Nat.lt_succ_iff_lt_or_eq.mp below with earlier | rfl
    · exact shared.within i earlier
    · exact more
  · intro i lower upper
    rw [filled_put]
    rcases Nat.lt_succ_iff_lt_or_eq.mp upper with earlier | rfl
    · exact shared.filled i lower earlier
    · exact filled

theorem Shared.consume (shared : Shared o g m h t) (below : t < h) :
    Shared o g (put m .tail (t + 1)) h (t + 1) := by
  have room := shared.room
  have bound : t + 1 < 256 ^ Field.tail.width := by
    have total := o.total_lt
    have head := shared.head_le
    exact Nat.lt_of_le_of_lt (by omega : t + 1 ≤ o.total) total
  refine ⟨published_put shared.published _ (by decide), ?_,
    get_put_same _ _ bound, by omega, by omega, shared.within, shared.sized, ?_⟩
  · rw [get_put_ne _ _ (by decide), shared.head]
  · intro i lower upper
    rw [filled_put]
    exact shared.filled i (by omega) upper

/-- The receiver's knowledge survives every step of the sender. -/
theorem RxAt.later (held : RxAt o g m h t rx) (grows : h ≤ k)
    (flags : get m .flags ≠ 0 → get n .flags ≠ 0) : RxAt o g n k t rx := by
  obtain ⟨received, pc⟩ := rx
  cases pc with
  | loadTail | checkTimeout => exact held
  | loadHead | loadFlags => exact held
  | slotPtr | storeTail => exact ⟨held.1, held.2.1, Nat.lt_of_lt_of_le held.2.2 grows⟩
  | loadLen | loadSeq | checkSlot =>
    exact ⟨held.1, held.2.1, Nat.lt_of_lt_of_le held.2.2.1 grows, held.2.2.2⟩
  | reloadHead => exact ⟨held.1, held.2.1, flags held.2.2⟩
  | loadElapsed | loadTotalBytes => exact ⟨held.1, flags held.2⟩
  | done result =>
    cases result with
    | success => exact ⟨held.1, flags held.2⟩
    | invalidSlot => exact held
    | timedOut => trivial

theorem Producing.put (held : Producing o g m h tx) (value : Nat) (other : f ≠ .flags) :
    Producing o g (put m f value) h tx :=
  ⟨held.sent, held.slotCount, held.sized, (get_put_ne _ _ other.symm).trans held.flags⟩

/-- The sender's knowledge survives the receiver's only store. -/
theorem TxAt.consume (held : TxAt o g m h t tx) (below : t < h) (value : Nat) :
    TxAt o g (put m .tail value) h (t + 1) tx := by
  have flags : get (put m .tail value) .flags = get m .flags := get_put_ne _ _ (by decide)
  have working : ∀ slot, Working o g m h t tx slot →
      Working o g (put m .tail value) h (t + 1) tx slot := by
    intro slot held
    exact ⟨held.toProducing.put value (by decide),
      held.more, by have := held.free; omega, held.slot⟩
  obtain ⟨sent, slotCount, slotSize, pc⟩ := tx
  cases pc with
  | waitMagic | waitVersion | waitFlags | waitHead | waitTail | waitTimeout | loadSlotCount =>
    exact ⟨held.1, held.2.1, flags.trans held.2.2⟩
  | loadSlotSize => exact ⟨held.1, held.2.1, held.2.2.1, flags.trans held.2.2.2⟩
  | allocate | loop | checkTimeout => exact Producing.put held value (by decide)
  | loadTail => exact ⟨held.1.put value (by decide), held.2⟩
  | slotPtr =>
    obtain ⟨producing, more, free, same⟩ := held
    exact ⟨producing.put value (by decide), more, by omega, same⟩
  | copy slot | storeTotal slot | storeFlags slot | storeLen slot => exact working slot held
  | barrier slot | storeSeq slot =>
    exact ⟨working slot held.1, (slotGet_put ..).trans held.2⟩
  | storeHead slot => exact ⟨working slot held.1, (filled_put ..).mpr held.2⟩
  | drainHead | drainTimeout | drainTail => exact ⟨held.1.put value (by decide), held.2⟩
  | storeTotalBytes | storeElapsed | finalBarrier | storeDone =>
    exact absurd held.2.2 (Nat.ne_of_lt below)
  | done result =>
    cases result with
    | success => exact absurd held.2.2 (Nat.ne_of_lt below)
    | _ => exact flags.trans held

end IdtNtb.Ring
