import IdtNtb.Lib.Fairness
import IdtNtb.Ring.Queue

/-! A transfer over the profiling ring completes. A polling program waits only
while the other one has work to do, and the work that is left bounds how many
rounds a fair interleaving takes, as long as no timeout expires and no
allocation or barrier fails. -/
namespace IdtNtb.Ring
open Bytes Transition Fairness

inductive Party where
  | receiver
  | sender
  deriving DecidableEq

instance : Fintype Party := ⟨{.receiver, .sender}, fun p => by cases p <;> decide⟩

def Label.party : Label → Party
  | .rx _ => .receiver
  | .tx _ _ => .sender

/-- No timeout expires, and the allocation and the barriers succeed. -/
def Label.Calm : Label → Prop
  | .rx fails | .tx fails _ => fails = false

instance : ∀ l : Label, Decidable l.Calm
  | .rx _ | .tx _ _ => inferInstanceAs (Decidable (_ = _))

def RxPc.over : RxPc → Bool
  | .done _ => true
  | _ => false

def TxPc.over : TxPc → Bool
  | .done _ => true
  | _ => false

def System.Over (s : System) : Party → Prop
  | .receiver => s.rx.pc.over
  | .sender => s.tx.pc.over

instance (s : System) : ∀ p, Decidable (s.Over p)
  | .receiver | .sender => inferInstanceAs (Decidable (_ = true))

def frames (o : Options) : Nat := (o.total + (o.txChunk - 1)) / o.txChunk

def rxReady (m : Memory) : Bool := get m .tail < get m .head || get m .flags ≠ 0

/-- The sender is in no polling loop, or leaves it the next time it looks. -/
def txReady (o : Options) (m : Memory) (tx : Tx) : Bool :=
  match tx.pc with
  | .loop | .loadTail _ | .checkTimeout =>
      o.total ≤ tx.sent || get m .head < get m .tail + tx.slotCount
  | .drainHead | .drainTail _ | .drainTimeout => get m .head = get m .tail
  | _ => true

def System.Ready (o : Options) (s : System) : Party → Prop
  | .receiver => rxReady s.mem
  | .sender => txReady o s.mem s.tx

/-- How far the receiver is from taking a frame, or from its end. -/
def RxPc.distance (done : Bool) : RxPc → Nat
  | .loadFlags _ => if done then 4 else 10
  | .checkTimeout => 9
  | .loadTail => 8
  | .loadHead _ => 7
  | .slotPtr _ => 6
  | .loadLen .. => 5
  | .loadSeq .. => 4
  | .checkSlot .. | .reloadHead _ => 3
  | .storeTail _ | .loadElapsed => 2
  | .loadTotalBytes => 1
  | .done _ => 0

/-- How far the sender is from publishing a frame, or from its end. -/
def TxPc.distance (chunk : Nat) : TxPc → Nat
  | .waitTimeout => chunk + 21
  | .waitMagic => chunk + 20
  | .waitVersion => chunk + 19
  | .waitFlags => chunk + 18
  | .waitHead => chunk + 17
  | .waitTail => chunk + 16
  | .loadSlotCount => chunk + 15
  | .loadSlotSize => chunk + 14
  | .allocate => chunk + 13
  | .checkTimeout => chunk + 12
  | .loop => chunk + 11
  | .loadTail _ => chunk + 10
  | .slotPtr _ => chunk + 9
  | .copy slot k => slot.payload - k + 8
  | .storeTotal _ => 7
  | .storeFlags _ => 6
  | .storeLen _ => 5
  | .barrier _ => 4
  | .storeSeq _ => 3
  | .storeHead _ => 2
  | .drainTimeout => 7
  | .drainHead => 6
  | .drainTail _ => 5
  | .storeTotalBytes => 4
  | .storeElapsed => 3
  | .finalBarrier => 2
  | .storeDone => 1
  | .done _ => 0

/-- Frames to publish and to take, and the end of the transfer. -/
def units (o : Options) (m : Memory) : Nat :=
  (frames o - get m .head) + (frames o - get m .tail) + if get m .flags = 0 then 1 else 0

def System.rank (o : Options) (s : System) : Nat :=
  (o.txChunk + 40) * units o s.mem +
    (if rxReady s.mem then s.rx.pc.distance (get s.mem .flags ≠ 0) else 0) +
    if txReady o s.mem s.tx then s.tx.pc.distance o.txChunk else 0

/-- Neither program has failed, and the sender found the ring when it looked. -/
structure Undisturbed (o : Options) (g : Geometry) (h t : Nat) (s : System) : Prop where
  inv : Inv o g h t s
  fits : o.txChunk ≤ g.size
  magic : get s.mem .magic = ringMagic
  version : get s.mem .version = ringVersion
  flags : get s.mem .flags = if s.tx.pc = .done .success then flagDone else 0
  waits : s.tx.pc ≠ .waitTimeout
  receives : s.rx.pc ≠ .done .timedOut
  sends : ∀ r, s.tx.pc = .done r → r = .success

/-- What a step of the receiver does: it takes a frame, or it moves on, closer to
its end if it is ready. -/
inductive RxMoves (m : Memory) (rx : Rx) (h t : Nat) : Memory → Rx → Prop
  | on (next : pc ≠ .done .timedOut)
      (closer : rxReady m → pc.distance (get m .flags ≠ 0) < rx.pc.distance (get m .flags ≠ 0)) :
      RxMoves m rx h t m ⟨received, pc⟩
  | takes (frame : t < h) : RxMoves m rx h t (put m .tail (t + 1)) ⟨received, .loadTail⟩

def Field.Polled (f : Field) : Prop :=
  f = .magic ∨ f = .version ∨ f = .flags ∨ f = .head ∨ f = .tail

/-- What a step of the sender does: it publishes a frame, or DONE, or it moves on,
closer to its end if it is ready, and stays in its loop otherwise. -/
inductive TxMoves (o : Options) (m : Memory) (tx : Tx) (h : Nat) : Memory → Tx → Prop
  | on (same : ∀ f, f.Polled → get n f = get m f) (finds : tx'.pc ≠ .waitTimeout)
      (runs : ∀ r, tx'.pc ≠ .done r)
      (closer : txReady o m tx → tx'.pc.distance o.txChunk < tx.pc.distance o.txChunk)
      (waits : txReady o m tx = false → txReady o m tx' = false) : TxMoves o m tx h n tx'
  | publishes (more : h < frames o) (next : tx'.pc = .loop) :
      TxMoves o m tx h (put m .head (h + 1)) tx'
  | finishes (last : tx.pc = .storeDone) (next : tx'.pc = .done .success) :
      TxMoves o m tx h (put m .flags flagDone) tx'

inductive CalmStep (o : Options) : System → Party → System → Prop
  | rx (moved : stepRx m rx false = some (n, rx', es)) :
      CalmStep o ⟨m, rx, tx⟩ .receiver ⟨n, rx', tx⟩
  | tx (moved : stepTx o m tx false elapsed = some (n, tx', es)) :
      CalmStep o ⟨m, rx, tx⟩ .sender ⟨n, rx, tx'⟩

variable {o : Options} {g : Geometry} {m n : Memory} {h t : Nat} {rx rx' : Rx}
    {tx tx' : Tx} {s : System}

theorem lt_frames_iff (o : Options) (i : Nat) : i < frames o ↔ i * o.txChunk < o.total := by
  rw [frames, Nat.lt_div_iff_mul_lt o.txChunk_pos, Nat.add_sub_cancel]

theorem Shared.head_frames (shared : Shared o g m h t) : h ≤ frames o := by
  cases h with
  | zero => exact Nat.zero_le _
  | succ k => exact (lt_frames_iff o k).mpr (shared.within k (Nat.lt_succ_self k))

theorem Undisturbed.drained (calm : Undisturbed o g h t s) (set : get s.mem .flags ≠ 0) :
    s.tx.pc = .done .success ∧ get s.mem .flags = flagDone ∧ t = h := by
  have ended : s.tx.pc = .done .success := by
    by_contra running
    exact set (calm.flags.trans (if_neg running))
  have sender := calm.inv.tx
  simp only [TxAt, ended] at sender
  exact ⟨ended, calm.flags.trans (if_pos ended), sender.2.2⟩

theorem rx_on (stepped : rx.goto m pc = some (n, rx', es)) (next : pc ≠ .done .timedOut)
    (closer : rxReady m → pc.distance (get m .flags ≠ 0) < rx.pc.distance (get m .flags ≠ 0)) :
    RxMoves m rx h t n rx' := by
  simp only [Rx.goto, Option.some.injEq, Prod.mk.injEq] at stepped
  obtain ⟨rfl, rfl, rfl⟩ := stepped
  exact .on next closer

theorem rx_moves (calm : Undisturbed o g h t ⟨m, rx, tx⟩)
    (stepped : stepRx m rx false = some (n, rx', es)) :
    RxMoves m rx h t n rx' := by
  have shared := calm.inv.shared
  have held := calm.inv.rx
  have drained := calm.drained
  dsimp only at shared held drained
  obtain ⟨received, pc⟩ := rx
  cases pc with
  | loadTail | slotPtr | loadLen | loadSeq | loadElapsed | checkTimeout =>
    exact rx_on stepped (by simp) fun _ => by simp [RxPc.distance]
  | loadTotalBytes =>
    simp only [stepRx, Option.some.injEq, Prod.mk.injEq] at stepped
    obtain ⟨rfl, rfl, rfl⟩ := stepped
    exact .on (by simp) fun _ => by simp [RxPc.distance]
  | loadHead tail =>
    obtain ⟨-, rfl⟩ := held
    simp only [stepRx, shared.head] at stepped
    split at stepped
    · exact rx_on stepped (by simp) fun _ => by simp [RxPc.distance]
    · rename_i empty
      refine rx_on stepped (by simp) fun ready => ?_
      have set : get m .flags ≠ 0 := by simpa [rxReady, shared.head, shared.tail, empty] using ready
      simp [RxPc.distance, set]
  | checkSlot tail len seq =>
    obtain ⟨-, rfl, frame, rfl, rfl⟩ := held
    have size : ¬ get m .slotSize < piece o tail := by
      have length := piece_le o tail
      have fits := calm.fits
      rw [shared.published.slotSize]
      omega
    simp only [stepRx, shared.u64_succ frame, ne_eq, not_true, size, or_self, if_false,
      Option.some.injEq, Prod.mk.injEq] at stepped
    obtain ⟨rfl, rfl, rfl⟩ := stepped
    exact .on (by simp) fun _ => by simp [RxPc.distance]
  | storeTail tail =>
    obtain ⟨-, rfl, frame⟩ := held
    simp only [stepRx, shared.u64_succ frame, Option.some.injEq, Prod.mk.injEq] at stepped
    obtain ⟨rfl, rfl, rfl⟩ := stepped
    exact .takes frame
  | loadFlags tail =>
    simp only [stepRx] at stepped
    by_cases set : get m .flags = 0
    · rw [set] at stepped
      exact rx_on stepped (by simp) fun _ => by simp [RxPc.distance, set]
    · rw [(drained set).2.1] at stepped
      exact rx_on stepped (by simp [flagDone]) fun _ => by simp [RxPc.distance, set, flagDone]
  | reloadHead tail =>
    obtain ⟨-, rfl, set⟩ := held
    simp only [stepRx, shared.head, (drained set).2.2, if_true] at stepped
    exact rx_on stepped (by simp) fun _ => by simp [RxPc.distance]
  | done result => simp [stepRx] at stepped

/-- Moving on outside of the polling loops. -/
theorem tx_on (stepped : tx.goto m pc = some (n, tx', es)) (ready : txReady o m tx)
    (finds : pc ≠ .waitTimeout) (runs : ∀ r, pc ≠ .done r)
    (closer : pc.distance o.txChunk < tx.pc.distance o.txChunk) : TxMoves o m tx h n tx' := by
  simp only [Tx.goto, Option.some.injEq, Prod.mk.injEq] at stepped
  obtain ⟨rfl, rfl, rfl⟩ := stepped
  exact .on (fun _ _ => rfl) finds runs (fun _ => closer)
    (fun waits => absurd ready (by simp [waits]))

/-- A step of a polling loop. -/
theorem tx_polls (stepped : tx.goto m pc = some (n, tx', es)) (finds : pc ≠ .waitTimeout)
    (runs : ∀ r, pc ≠ .done r)
    (closer : txReady o m tx → pc.distance o.txChunk < tx.pc.distance o.txChunk)
    (waits : txReady o m tx = false → txReady o m { tx with pc } = false) :
    TxMoves o m tx h n tx' := by
  simp only [Tx.goto, Option.some.injEq, Prod.mk.injEq] at stepped
  obtain ⟨rfl, rfl, rfl⟩ := stepped
  exact .on (fun _ _ => rfl) finds runs closer waits

/-- A store outside of the polled fields. -/
theorem tx_stores (stepped : tx.write m addr width value pc = some (n, tx', es))
    (ready : txReady o m tx)
    (same : ∀ f, f.Polled → get (store m addr width value) f = get m f) (finds : pc ≠ .waitTimeout)
    (runs : ∀ r, pc ≠ .done r) (closer : pc.distance o.txChunk < tx.pc.distance o.txChunk) :
    TxMoves o m tx h n tx' := by
  simp only [Tx.write, Option.some.injEq, Prod.mk.injEq] at stepped
  obtain ⟨rfl, rfl, rfl⟩ := stepped
  exact .on same finds runs (fun _ => closer) (fun waits => absurd ready (by simp [waits]))

theorem polled_slot (m : Memory) (g : Geometry) (i x width value : Nat) (f : Field) :
    get (store m (g.slot i + x) width value) f = get m f :=
  get_store m f width value (Nat.le_trans (slot_behind g i) (Nat.le_add_right ..))

theorem tx_moves (calm : Undisturbed o g h t ⟨m, rx, tx⟩)
    (stepped : stepTx o m tx false elapsed = some (n, tx', es)) : TxMoves o m tx h n tx' := by
  have shared := calm.inv.shared
  have held := calm.inv.tx
  have fits := calm.fits
  dsimp only at shared held
  obtain ⟨sent, slotCount, slotSize, pc⟩ := tx
  cases pc with
  | waitMagic =>
    simp only [stepTx, Tx.await, calm.magic, if_true] at stepped
    exact tx_on stepped rfl (by simp) (by simp) (by simp [TxPc.distance])
  | waitVersion =>
    simp only [stepTx, Tx.await, calm.version, if_true] at stepped
    exact tx_on stepped rfl (by simp) (by simp) (by simp [TxPc.distance])
  | waitFlags =>
    simp only [stepTx, Tx.await, held.2.2, if_true] at stepped
    exact tx_on stepped rfl (by simp) (by simp) (by simp [TxPc.distance])
  | waitHead =>
    simp only [stepTx, Tx.await, shared.head, held.1, if_true] at stepped
    exact tx_on stepped rfl (by simp) (by simp) (by simp [TxPc.distance])
  | waitTail =>
    have none : t = 0 := Nat.le_zero.mp (held.1 ▸ shared.order)
    simp only [stepTx, Tx.await, shared.tail, none, if_true] at stepped
    exact tx_on stepped rfl (by simp) (by simp) (by simp [TxPc.distance])
  | waitTimeout => exact absurd rfl calm.waits
  | loadSlotCount =>
    simp only [stepTx, Option.some.injEq, Prod.mk.injEq] at stepped
    obtain ⟨rfl, rfl, rfl⟩ := stepped
    exact .on (fun _ _ => rfl) (by simp) (by simp) (fun _ => by simp [TxPc.distance])
      (by simp [txReady])
  | loadSlotSize =>
    obtain ⟨-, -, count, -⟩ := held
    have positive := g.count_pos
    have chunk := o.txChunk_pos
    have usable : ¬(slotCount = 0 ∨ get m .slotSize = 0 ∨ get m .slotSize < o.txChunk) := by
      have count : slotCount = g.count := count
      rw [shared.published.slotSize]
      omega
    simp only [stepTx, if_neg usable, Option.some.injEq, Prod.mk.injEq] at stepped
    obtain ⟨rfl, rfl, rfl⟩ := stepped
    exact .on (fun _ _ => rfl) (by simp) (by simp) (fun _ => by simp [TxPc.distance])
      (by simp [txReady])
  | allocate | barrier | finalBarrier =>
    exact tx_on stepped rfl (by simp) (by simp) (by simp [TxPc.distance])
  | checkTimeout =>
    exact tx_polls stepped (by simp) (by simp) (by simp [TxPc.distance]) (by simp [txReady])
  | loop =>
    simp only [stepTx] at stepped
    split at stepped
    · exact tx_polls stepped (by simp) (by simp) (by simp [TxPc.distance]) (by simp [txReady])
    · rename_i all
      refine tx_on stepped ?_ (by simp) (by simp) ?_
      · simp [txReady, Nat.not_lt.mp all]
      · simp only [TxPc.distance]
        omega
  | loadTail head =>
    obtain ⟨producing, more, rfl⟩ := held
    have count : slotCount = g.count := producing.slotCount
    have sum : sent = upto o head := producing.sent
    have left : ¬ o.total ≤ sent := by
      rw [sum, upto]
      omega
    have order := shared.order
    simp only [stepTx, shared.tail, distance_eq shared] at stepped
    split at stepped
    · rename_i full
      refine tx_polls stepped (by simp) (by simp) (fun ready => ?_) (by simp [txReady])
      simp [txReady, left, shared.head, shared.tail] at ready
      omega
    · rename_i room
      refine tx_on stepped ?_ (by simp) (by simp) (by simp [TxPc.distance])
      simp [txReady, shared.head, shared.tail]
      omega
  | slotPtr head =>
    obtain ⟨producing, more, -, rfl⟩ := held
    have sum : sent = upto o head := producing.sent
    have length := piece_le o head
    refine tx_on stepped rfl (by simp) (by simp) ?_
    simp only [TxPc.distance, sum, nextPayload_eq more]
    omega
  | copy slot k =>
    obtain rfl := held.slot
    simp only [stepTx] at stepped
    split at stepped
    · rename_i below
      rw [Nat.add_assoc] at stepped
      refine tx_stores stepped rfl (fun f _ => polled_slot ..) (by simp) (by simp) ?_
      simp only [TxPc.distance]
      omega
    · refine tx_on stepped rfl (by simp) (by simp) ?_
      simp only [TxPc.distance]
      omega
  | storeTotal slot | storeFlags slot | storeLen slot =>
    obtain rfl := held.slot
    exact tx_stores stepped rfl (fun f _ => polled_slot ..) (by simp) (by simp)
      (by simp [TxPc.distance])
  | storeSeq slot =>
    obtain ⟨working, -⟩ := held
    obtain rfl := working.slot
    exact tx_stores stepped rfl (fun f _ => polled_slot ..) (by simp) (by simp)
      (by simp [TxPc.distance])
  | storeHead slot =>
    obtain ⟨working, filled⟩ := held
    obtain ⟨producing, more, free, rfl⟩ := working
    have exact : u64 (h + 1) = h + 1 :=
      (shared.produce free more producing.sized filled).u64_succ (Nat.lt_succ_self h)
    simp only [stepTx, Tx.writeHeader, Tx.write, exact, Option.map_some, Option.some.injEq,
      Prod.mk.injEq] at stepped
    obtain ⟨rfl, rfl, rfl⟩ := stepped
    exact .publishes ((lt_frames_iff o h).mpr more) rfl
  | drainHead | drainTimeout =>
    exact tx_polls stepped (by simp) (by simp) (by simp [TxPc.distance]) (by simp [txReady])
  | drainTail head =>
    obtain ⟨-, -, rfl⟩ := held
    simp only [stepTx, shared.tail] at stepped
    split at stepped
    · rename_i drained
      refine tx_on stepped ?_ (by simp) (by simp) (by simp [TxPc.distance])
      simp [txReady, shared.head, shared.tail, drained]
    · rename_i pending
      refine tx_polls stepped (by simp) (by simp) (fun ready => ?_) (by simp [txReady])
      simp [txReady, shared.head, shared.tail] at ready
      exact absurd ready.symm pending
  | storeTotalBytes | storeElapsed =>
    refine tx_stores stepped rfl (fun f polled => ?_) (by simp) (by simp) (by simp [TxPc.distance])
    exact get_put_ne _ _ (by rintro rfl; simp [Field.Polled] at polled)
  | storeDone =>
    simp only [stepTx, Tx.writeHeader, Tx.write, Option.some.injEq, Prod.mk.injEq] at stepped
    obtain ⟨rfl, rfl, rfl⟩ := stepped
    exact .finishes rfl rfl
  | done result => simp [stepTx] at stepped

theorem undisturbed_rx (calm : Undisturbed o g h t ⟨m, rx, tx⟩)
    (stepped : stepRx m rx false = some (n, rx', es)) :
    Undisturbed o g (h + produced es) (t + consumed es) ⟨n, rx', tx⟩ := by
  have inv := (rx_step calm.inv stepped).1
  cases rx_moves calm stepped with
  | on next =>
    exact ⟨inv, calm.fits, calm.magic, calm.version, calm.flags, calm.waits, next, calm.sends⟩
  | takes =>
    have same : ∀ f, f ≠ .tail → get (put m .tail (t + 1)) f = get m f :=
      fun f other => get_put_ne _ _ other
    exact ⟨inv, calm.fits, (same _ (by decide)).trans calm.magic,
      (same _ (by decide)).trans calm.version, (same _ (by decide)).trans calm.flags,
        calm.waits, by simp, calm.sends⟩

theorem undisturbed_tx (calm : Undisturbed o g h t ⟨m, rx, tx⟩)
    (stepped : stepTx o m tx false elapsed = some (n, tx', es)) :
    Undisturbed o g (h + produced es) (t + consumed es) ⟨n, rx, tx'⟩ := by
  have inv := (tx_step calm.inv stepped).1
  have running : tx.pc ≠ .done .success := by
    intro ended
    simp only [stepTx, ended, reduceCtorEq] at stepped
  have flags : get m .flags = 0 := calm.flags.trans (if_neg running)
  cases tx_moves calm stepped with
  | on same finds runs =>
    refine ⟨inv, calm.fits, ?_, ?_, ?_, finds, calm.receives, fun r ended => absurd ended (runs r)⟩
    · exact (same _ (by simp [Field.Polled])).trans calm.magic
    · exact (same _ (by simp [Field.Polled])).trans calm.version
    · exact ((same _ (by simp [Field.Polled])).trans flags).trans (if_neg (runs .success)).symm
  | publishes more next =>
    refine ⟨inv, calm.fits, ?_, ?_, ?_, by simp [next], calm.receives, by simp [next]⟩
    · exact (get_put_ne _ _ (by decide)).trans calm.magic
    · exact (get_put_ne _ _ (by decide)).trans calm.version
    · exact ((get_put_ne _ _ (by decide)).trans flags).trans (if_neg (by simp [next])).symm
  | finishes last next =>
    refine ⟨inv, calm.fits, ?_, ?_, ?_, by simp [next], calm.receives, by simp [next]⟩
    · exact (get_put_ne _ _ (by decide)).trans calm.magic
    · exact (get_put_ne _ _ (by decide)).trans calm.version
    · exact (get_put_same _ _ (by decide)).trans (if_pos next).symm

theorem rx_distance_le (done : Bool) (pc : RxPc) : pc.distance done ≤ 10 := by
  cases pc <;> cases done <;> simp [RxPc.distance]

theorem rx_share_le (m : Memory) (pc : RxPc) :
    (if rxReady m then pc.distance (get m .flags ≠ 0) else 0) ≤ 10 := by
  split
  · exact rx_distance_le _ pc
  · exact Nat.zero_le 10

theorem tx_distance_le (held : TxAt o g m h t tx) : tx.pc.distance o.txChunk ≤ o.txChunk + 21 := by
  obtain ⟨sent, slotCount, slotSize, pc⟩ := tx
  cases pc with
  | copy slot k =>
    obtain rfl := held.slot
    have length := piece_le o h
    simp only [TxPc.distance]
    omega
  | _ =>
    simp only [TxPc.distance]
    omega

/-- A unit of work outweighs every distance. -/
theorem rank_drops (held : TxAt o g n h t tx') (fewer : units o n < units o m) :
    System.rank o ⟨n, rx', tx'⟩ < System.rank o ⟨m, rx, tx⟩ := by
  have receiver := rx_share_le n rx'.pc
  have sender := tx_distance_le held
  have unit : (o.txChunk + 40) * (units o n + 1) ≤ (o.txChunk + 40) * units o m :=
    Nat.mul_le_mul_left _ fewer
  rw [Nat.mul_succ] at unit
  have share : (if txReady o n tx' then tx'.pc.distance o.txChunk else 0) ≤ o.txChunk + 21 := by
    split <;> omega
  simp only [System.rank]
  omega

theorem rx_rank (calm : Undisturbed o g h t ⟨m, rx, tx⟩)
    (stepped : stepRx m rx false = some (n, rx', es)) :
    System.rank o ⟨n, rx', tx⟩ ≤ System.rank o ⟨m, rx, tx⟩ ∧
      (rxReady m → System.rank o ⟨n, rx', tx⟩ < System.rank o ⟨m, rx, tx⟩) := by
  have shared := calm.inv.shared
  have after := (undisturbed_rx calm stepped).inv
  cases rx_moves calm stepped with
  | on next closer =>
    simp only [System.rank]
    by_cases ready : rxReady m
    · have lower := closer ready
      simp only [if_pos ready]
      omega
    · simp only [if_neg ready]
      exact ⟨le_rfl, fun held => absurd held ready⟩
  | takes frame =>
    have bound := shared.head_frames
    have fewer : units o (put m .tail (t + 1)) < units o m := by
      have head := get_put_ne m (t + 1) (by decide : Field.head ≠ .tail)
      have flags := get_put_ne m (t + 1) (by decide : Field.flags ≠ .tail)
      have tail : get (put m .tail (t + 1)) .tail = t + 1 := (shared.consume frame).tail
      simp only [units, head, flags, tail, shared.tail]
      omega
    exact ⟨(rank_drops after.tx fewer).le, fun _ => rank_drops after.tx fewer⟩

theorem rxReady_congr (same : ∀ f, f.Polled → get n f = get m f) : rxReady n = rxReady m := by
  simp only [rxReady, same .head (by simp [Field.Polled]), same .tail (by simp [Field.Polled]),
    same .flags (by simp [Field.Polled])]

theorem txReady_congr (head : get n .head = get m .head) (tail : get n .tail = get m .tail)
    (tx : Tx) :
    txReady o n tx = txReady o m tx := by
  simp only [txReady, head, tail]

theorem head_advanced (more : h < frames o) : get (put m .head (h + 1)) .head = h + 1 := by
  refine get_put_same _ _ ?_
  have total := o.total_lt
  have below := (lt_frames_iff o h).mp more
  have scaled := Nat.le_mul_of_pos_right h o.txChunk_pos
  simp only [Field.width]
  omega

theorem tx_rank (calm : Undisturbed o g h t ⟨m, rx, tx⟩)
    (stepped : stepTx o m tx false elapsed = some (n, tx', es)) :
    System.rank o ⟨n, rx, tx'⟩ ≤ System.rank o ⟨m, rx, tx⟩ ∧
      (txReady o m tx → System.rank o ⟨n, rx, tx'⟩ < System.rank o ⟨m, rx, tx⟩) := by
  have shared := calm.inv.shared
  have after := (undisturbed_tx calm stepped).inv
  cases tx_moves calm stepped with
  | on same finds runs closer waits =>
    have head := same .head (by simp [Field.Polled])
    have tail := same .tail (by simp [Field.Polled])
    have flags := same .flags (by simp [Field.Polled])
    simp only [System.rank, units, head, tail, flags, rxReady_congr same, txReady_congr head tail]
    by_cases ready : txReady o m tx
    · have lower := closer ready
      have share : (if txReady o m tx' then tx'.pc.distance o.txChunk else 0) ≤
          tx'.pc.distance o.txChunk := by
        split <;> omega
      simp only [if_pos ready]
      omega
    · have idle := waits (Bool.eq_false_of_not_eq_true ready)
      simp only [if_neg ready, idle, Bool.false_eq_true, if_false]
      exact ⟨le_rfl, fun held => absurd held ready⟩
  | publishes more next =>
    have fewer : units o (put m .head (h + 1)) < units o m := by
      have tail := get_put_ne m (h + 1) (by decide : Field.tail ≠ .head)
      have flags := get_put_ne m (h + 1) (by decide : Field.flags ≠ .head)
      simp only [units, head_advanced more, flags, tail, shared.head]
      omega
    exact ⟨(rank_drops after.tx fewer).le, fun _ => rank_drops after.tx fewer⟩
  | finishes last next =>
    have clear : get m .flags = 0 := calm.flags.trans (if_neg (by simp [last]))
    have fewer : units o (put m .flags flagDone) < units o m := by
      have set : get (put m .flags flagDone) .flags = flagDone := get_put_same _ _ (by decide)
      have head := get_put_ne m flagDone (by decide : Field.head ≠ .flags)
      have tail := get_put_ne m flagDone (by decide : Field.tail ≠ .flags)
      rw [units, units, set, head, tail, clear]
      simp [flagDone]
    exact ⟨(rank_drops after.tx fewer).le, fun _ => rank_drops after.tx fewer⟩

/-- The sender's steps leave the receiver ready. -/
theorem rxReady_kept (calm : Undisturbed o g h t ⟨m, rx, tx⟩)
    (stepped : stepTx o m tx false elapsed = some (n, tx', es)) (ready : rxReady m) :
    rxReady n := by
  have shared := calm.inv.shared
  have order := shared.order
  cases tx_moves calm stepped with
  | on same => rwa [rxReady_congr same]
  | publishes more =>
    have tail := get_put_ne m (h + 1) (by decide : Field.tail ≠ .head)
    simp only [rxReady, head_advanced more, tail, shared.tail, Bool.or_eq_true, decide_eq_true_eq]
    exact Or.inl (by omega)
  | finishes =>
    have set : get (put m .flags flagDone) .flags = flagDone := get_put_same _ _ (by decide)
    rw [rxReady, set]
    simp [flagDone]

/-- The receiver's steps leave the sender ready. -/
theorem txReady_kept (calm : Undisturbed o g h t ⟨m, rx, tx⟩)
    (stepped : stepRx m rx false = some (n, rx', es)) (ready : txReady o m tx) :
    txReady o n tx := by
  have shared := calm.inv.shared
  cases rx_moves calm stepped with
  | on => exact ready
  | takes frame =>
    have head := get_put_ne m (t + 1) (by decide : Field.head ≠ .tail)
    have tail : get (put m .tail (t + 1)) .tail = t + 1 := (shared.consume frame).tail
    obtain ⟨sent, slotCount, slotSize, pc⟩ := tx
    cases pc with
    | loop | loadTail | checkTimeout =>
      simp only [txReady, shared.head, shared.tail, head, tail, Bool.or_eq_true, decide_eq_true_eq]
        at ready ⊢
      omega
    | drainHead | drainTail | drainTimeout =>
      simp only [txReady, shared.head, shared.tail, decide_eq_true_eq] at ready
      omega
    | _ => rfl

/-- A sender that waits has left a frame for the receiver. -/
theorem Undisturbed.frame_left (calm : Undisturbed o g h t ⟨m, rx, tx⟩)
    (waits : txReady o m tx = false) :
    t < h := by
  have shared := calm.inv.shared
  have held := calm.inv.tx
  have order := shared.order
  have positive := g.count_pos
  dsimp only at shared held
  obtain ⟨sent, slotCount, slotSize, pc⟩ := tx
  have full : slotCount = g.count →
      (o.total ≤ sent || get m .head < get m .tail + slotCount) = false → t < h := by
    intro count waits
    simp only [shared.head, shared.tail, Bool.or_eq_false_iff, decide_eq_false_iff_not] at waits
    omega
  cases pc with
  | loop | checkTimeout => exact full held.slotCount waits
  | loadTail => exact full held.1.slotCount waits
  | drainHead | drainTail | drainTimeout =>
    simp only [txReady, shared.head, shared.tail, decide_eq_false_iff_not] at waits
    omega
  | _ => simp [txReady] at waits

theorem Undisturbed.receiving (calm : Undisturbed o g h t s) (running : s.tx.pc ≠ .done .success) :
    s.rx.pc.over = false := by
  have held := calm.inv.rx
  have receives := calm.receives
  obtain ⟨m, ⟨received, pc⟩, tx⟩ := s
  cases pc with
  | done result =>
    cases result with
    | success => exact absurd (calm.drained held.2).1 running
    | invalidSlot => exact held.elim
    | timedOut => exact absurd rfl receives
  | _ => rfl

theorem Undisturbed.sending (calm : Undisturbed o g h t s) :
    s.tx.pc.over = false ∨ s.tx.pc = .done .success := by
  have sends := calm.sends
  obtain ⟨m, rx, sent, slotCount, slotSize, pc⟩ := s
  cases pc with
  | done result => exact Or.inr (congrArg TxPc.done (sends result rfl))
  | _ => exact Or.inl rfl

/-- While one of the programs runs, one that runs is ready. -/
theorem Undisturbed.live (calm : Undisturbed o g h t s) :
    (∀ p, s.Over p) ∨ ∃ p, s.Ready o p ∧ ¬s.Over p := by
  have shared := calm.inv.shared
  rcases calm.sending with running | ended
  · refine Or.inr ?_
    cases ready : txReady o s.mem s.tx with
    | true => exact ⟨.sender, ready, by simp [System.Over, running]⟩
    | false =>
      have frame := calm.frame_left ready
      refine ⟨.receiver, ?_, ?_⟩
      · simp [System.Ready, rxReady, shared.head, shared.tail, frame]
      · have receiving := calm.receiving fun ended => by simp [ended, TxPc.over] at running
        simp [System.Over, receiving]
  · have set : get s.mem .flags = flagDone := calm.flags.trans (if_pos ended)
    by_cases finished : s.rx.pc.over
    · refine Or.inl fun p => ?_
      cases p with
      | receiver => exact finished
      | sender => simp [System.Over, ended, TxPc.over]
    · exact Or.inr ⟨.receiver, by simp [System.Ready, rxReady, set, flagDone], finished⟩

theorem calm_step {l : Label} (calm : l.Calm) (stepped : s.step o l = some (s', es)) :
    CalmStep o s l.party s' := by
  obtain ⟨m, rx, tx⟩ := s
  cases l with
  | rx fails =>
    obtain rfl : fails = false := calm
    simp only [System.step, Option.map_eq_some_iff, Prod.exists, Prod.mk.injEq] at stepped
    obtain ⟨n, rx', es', moved, rfl, rfl⟩ := stepped
    exact .rx moved
  | tx fails elapsed =>
    obtain rfl : fails = false := calm
    simp only [System.step, Option.map_eq_some_iff, Prod.exists, Prod.mk.injEq] at stepped
    obtain ⟨n, tx', es', moved, rfl, rfl⟩ := stepped
    exact .tx moved

theorem over_disabled {l : Label} (finished : s.Over l.party) : s.step o l = none := by
  obtain ⟨m, ⟨received, pc⟩, ⟨sent, slotCount, slotSize, qc⟩⟩ := s
  cases l with
  | rx fails =>
    cases pc with
    | done result => rfl
    | _ => exact absurd finished Bool.false_ne_true
  | tx fails elapsed =>
    cases qc with
    | done result => rfl
    | _ => exact absurd finished Bool.false_ne_true

theorem ring_progress (o : Options) (g : Geometry) :
    Progress (System.step o) Label.party System.Over Label.Calm
      (fun s => ∃ h t, Undisturbed o g h t s) (System.Ready o) (System.rank o) where
  keeps := by
    rintro s l s' es ⟨h, t, calm⟩ allowed stepped
    have moves := calm_step allowed stepped
    generalize l.party = p at moves
    cases moves with
    | rx moved => exact ⟨_, _, undisturbed_rx calm moved⟩
    | tx moved => exact ⟨_, _, undisturbed_tx calm moved⟩
  idle := by
    rintro s l s' es ⟨h, t, calm⟩ allowed stepped
    have moves := calm_step allowed stepped
    generalize l.party = p at moves
    cases moves with
    | rx moved => exact (rx_rank calm moved).1
    | tx moved => exact (tx_rank calm moved).1
  falls := by
    rintro s l s' es ⟨h, t, calm⟩ allowed stepped ready
    have moves := calm_step allowed stepped
    generalize l.party = p at moves ready
    cases moves with
    | rx moved => exact (rx_rank calm moved).2 ready
    | tx moved => exact (tx_rank calm moved).2 ready
  stays := by
    rintro s l s' es p ⟨h, t, calm⟩ allowed stepped ready other
    have moves := calm_step allowed stepped
    generalize l.party = q at moves other
    cases moves with
    | rx moved =>
      cases p with
      | receiver => exact absurd rfl other
      | sender => exact txReady_kept calm moved ready
    | tx moved =>
      cases p with
      | receiver => exact rxReady_kept calm moved ready
      | sender => exact absurd rfl other
  live := by
    rintro s ⟨h, t, calm⟩
    exact calm.live
  ends := over_disabled

theorem start_undisturbed (laid : publishRing o m = some n) (fits : o.txChunk ≤ get n .slotSize) :
    ∃ g, Laid g n ∧ Undisturbed o g 0 0 (.start n) := by
  obtain ⟨g, ring⟩ := publishRing_geometry o laid
  obtain ⟨⟨slotCount, slotSize⟩, -, rfl⟩ := Option.map_eq_some_iff.mp laid
  refine ⟨g, ring, start_inv o ring, ring.published.slotSize ▸ fits, ?_, ?_, ring.flags, ?_, ?_, ?_⟩
  · exact get_put_same _ _ (by decide)
  · simp (disch := decide) only [System.start, writeHeader, get_put_ne, get_put_same]
  · simp [System.start]
  · simp [System.start]
  · simp [System.start]

theorem start_rank (o : Options) (laid : Laid g n) :
    System.rank o (.start n) < (o.txChunk + 40) * (2 * frames o + 2) := by
  have receiver := rx_share_le n .loadTail
  have work : units o n = 2 * frames o + 1 := by
    simp only [units, laid.head, laid.tail, laid.flags, if_true]
    omega
  have split : (o.txChunk + 40) * (2 * frames o + 2) =
      (o.txChunk + 40) * (2 * frames o + 1) + (o.txChunk + 40) := Nat.mul_succ ..
  change (o.txChunk + 40) * units o n +
    (if rxReady n then RxPc.loadTail.distance (get n .flags ≠ 0) else 0) + (o.txChunk + 20) < _
  rw [work, split]
  omega

/-- Two programs that are over after an undisturbed run have transferred everything. -/
theorem Undisturbed.complete (calm : Undisturbed o g h t s) (finished : ∀ p, s.Over p) :
    s.rx = ⟨o.total, .done .success⟩ ∧ s.tx.pc = .done .success ∧ s.tx.sent = o.total ∧
      h = frames o ∧ t = frames o := by
  have held := calm.inv.rx
  have sender := calm.inv.tx
  have bound := calm.inv.shared.head_frames
  have receives := calm.receives
  have ended : s.tx.pc = .done .success := calm.sending.resolve_left fun running => by
    have last := finished .sender
    simp [System.Over, running] at last
  simp only [TxAt, ended] at sender
  obtain ⟨counted, all, rfl⟩ := sender
  have last : t = frames o := by
    have reached : ¬ t < frames o := by
      rw [lt_frames_iff]
      rw [all, upto] at counted
      omega
    omega
  obtain ⟨m, ⟨received, pc⟩, tx⟩ := s
  cases pc with
  | done result =>
    cases result with
    | success =>
      have sum : received = upto o t := held.1
      rw [sum, ← counted, all]
      exact ⟨rfl, ended, rfl, last, last⟩
    | invalidSlot => exact held.elim
    | timedOut => exact absurd rfl receives
  | _ => exact absurd (finished .receiver) Bool.false_ne_true

/-- A transfer whose frames fit the slots completes: after enough rounds of any
fair interleaving without a timeout both programs have ended well, with every
byte sent and received in the same number of frames. -/
theorem ring_completes (o : Options) (laid : publishRing o m = some n)
    (fits : o.txChunk ≤ get n .slotSize)
    (fair : Fair (System.step o) Label.party System.Over (.start n) rounds)
    (calm : ∀ l ∈ rounds.flatten, l.Calm)
    (path : run (System.step o) (.start n) rounds.flatten = some (s, es))
    (enough : (o.txChunk + 40) * (2 * frames o + 2) ≤ rounds.length) :
    s.rx = ⟨o.total, .done .success⟩ ∧ s.tx.pc = .done .success ∧ s.tx.sent = o.total ∧
      produced es = frames o ∧ consumed es = frames o := by
  obtain ⟨g, ring, start⟩ := start_undisturbed laid fits
  have finished := (ring_progress o g).finishes ⟨0, 0, start⟩ fair calm path
    (Nat.lt_of_lt_of_le (start_rank o ring) enough)
  obtain ⟨⟨h, t, ended⟩, -⟩ := (ring_progress o g).run_keeps ⟨0, 0, start⟩ calm path
  obtain ⟨⟨shared, -, -⟩, -⟩ := run_inv ring path
  obtain ⟨received, sent, total, rfl, same⟩ := ended.complete finished
  rw [← shared.head, ← shared.tail, ended.inv.shared.head, ended.inv.shared.tail]
  exact ⟨received, sent, total, rfl, same⟩

/-- The two programs in turn, then the receiver alone, and then nothing is left to do. -/
def inTurn : List (List Label) :=
  List.replicate 52 [.tx false 7, .rx false] ++ List.replicate 4 [.rx false] ++
    List.replicate 190 []

theorem ring_completes_small :
    ∃ n s es, publishRing smallRing (fun _ => 0) = some n ∧
      run (System.step smallRing) (.start n) inTurn.flatten = some (s, es) ∧
      s.rx = ⟨2, .done .success⟩ ∧ s.tx.pc = .done .success ∧ s.tx.sent = 2 ∧
        produced es = 2 ∧ consumed es = 2 := by
  obtain ⟨n, laid⟩ := Option.isSome_iff_exists.mp
    (by decide : (publishRing smallRing fun _ => 0).isSome = true)
  obtain rfl : writeHeader 1 1 (fun _ => 0) = n := Option.some.inj laid
  obtain ⟨⟨s, es⟩, path⟩ := Option.isSome_iff_exists.mp (by decide +kernel :
    (run (System.step smallRing) (.start (writeHeader 1 1 fun _ => 0)) inTurn.flatten).isSome =
      true)
  exact ⟨_, s, es, laid, path, ring_completes smallRing laid (by decide +kernel) (by decide +kernel)
    (by decide +kernel) path (by decide +kernel)⟩

end IdtNtb.Ring
