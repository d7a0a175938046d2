import IdtNtb.Ring.Invariant

/-! The profiling ring is a single-producer single-consumer queue: one step
lemma for each program, and what holds after every interleaving of the two. -/
namespace IdtNtb.Ring
open Bytes Slots Transition

/-- A store of the sender touches no slot that holds an unconsumed index. -/
def Spares (g : Geometry) : Event → Prop
  | .stored addr width tail head =>
      ∀ i, tail ≤ i → i < head → Separate addr width (g.slot i) g.stride
  | _ => True

def produced (es : List Event) : Nat := es.count .produced

def consumed (es : List Event) : Nat := es.count .consumed

def Keeps (o : Options) (g : Geometry) (h t : Nat) (s : System) (es : List Event) : Prop :=
  Inv o g (h + produced es) (t + consumed es) s ∧ ∀ e ∈ es, Spares g e

variable {o : Options} {g : Geometry} {m n : Memory} {h t : Nat} {rx : Rx} {tx : Tx}

/-- Moving on without a store. -/
theorem rx_goto (inv : Inv o g h t ⟨m, rx, tx⟩) (stepped : rx.goto m pc = some (n, rx', es))
    (next : RxAt o g m h t { rx with pc }) : Keeps o g h t ⟨n, rx', tx⟩ es := by
  simp only [Rx.goto, Option.some.injEq, Prod.mk.injEq] at stepped
  obtain ⟨rfl, rfl, rfl⟩ := stepped
  exact ⟨⟨inv.shared, next, inv.tx⟩, by simp⟩

theorem rx_step (inv : Inv o g h t ⟨m, rx, tx⟩) (stepped : stepRx m rx fails = some (n, rx', es)) :
    Keeps o g h t ⟨n, rx', tx⟩ es := by
  obtain ⟨shared, held, sender⟩ := inv
  have inv : Inv o g h t ⟨m, rx, tx⟩ := ⟨shared, held, sender⟩
  dsimp only at shared held sender
  obtain ⟨received, pc⟩ := rx
  cases pc with
  | loadTail => exact rx_goto inv stepped ⟨held, shared.tail⟩
  | loadHead tail =>
    obtain ⟨sum, rfl⟩ := held
    simp only [stepRx, shared.head] at stepped
    split at stepped
    · rename_i below
      exact rx_goto inv stepped ⟨sum, rfl, below⟩
    · exact rx_goto inv stepped ⟨sum, rfl⟩
  | slotPtr tail =>
    obtain ⟨sum, rfl, below⟩ := held
    exact rx_goto inv stepped ⟨sum, rfl, below, ntbRingSlot_eq shared.published tail⟩
  | loadLen tail slot =>
    obtain ⟨sum, rfl, below, rfl⟩ := held
    exact rx_goto inv stepped ⟨sum, rfl, below, rfl, (shared.filled tail (Nat.le_refl _) below).2⟩
  | loadSeq tail slot len =>
    obtain ⟨sum, rfl, below, rfl, length⟩ := held
    exact rx_goto inv stepped ⟨sum, rfl, below, length,
      (shared.filled tail (Nat.le_refl _) below).1⟩
  | checkSlot tail len seq =>
    obtain ⟨sum, rfl, below, rfl, rfl⟩ := held
    have fits : ¬ get m .slotSize < piece o tail := by
      have size := shared.sized (by omega)
      have length := piece_le o tail
      rw [shared.published.slotSize]
      omega
    have total : u64 (received + piece o tail) = upto o (tail + 1) := by
      have sum : received = upto o tail := sum
      rw [upto_succ, sum]
      exact Nat.mod_eq_of_lt (upto_succ o tail ▸ upto_lt o (tail + 1))
    simp only [stepRx, shared.u64_succ below, ne_eq, not_true, fits, or_self, if_false, total,
      Option.some.injEq, Prod.mk.injEq] at stepped
    obtain ⟨rfl, rfl, rfl⟩ := stepped
    exact ⟨⟨shared, ⟨rfl, rfl, below⟩, sender⟩, by simp⟩
  | storeTail tail =>
    obtain ⟨sum, rfl, below⟩ := held
    simp only [stepRx, shared.u64_succ below, Option.some.injEq, Prod.mk.injEq] at stepped
    obtain ⟨rfl, rfl, rfl⟩ := stepped
    exact ⟨⟨shared.consume below, sum, sender.consume below _⟩, by simp [Spares]⟩
  | loadFlags tail =>
    obtain ⟨sum, rfl⟩ := held
    simp only [stepRx] at stepped
    split at stepped
    · rename_i done
      have set : get m .flags ≠ 0 := by
        intro zero
        simp [zero] at done
      exact rx_goto inv stepped ⟨sum, rfl, set⟩
    · exact rx_goto inv stepped sum
  | reloadHead tail =>
    obtain ⟨sum, rfl, set⟩ := held
    simp only [stepRx] at stepped
    split at stepped
    · exact rx_goto inv stepped ⟨sum, set⟩
    · exact rx_goto inv stepped sum
  | checkTimeout =>
    simp only [stepRx] at stepped
    split at stepped
    · exact rx_goto inv stepped trivial
    · exact rx_goto inv stepped held
  | loadElapsed => exact rx_goto inv stepped held
  | loadTotalBytes =>
    simp only [stepRx, Option.some.injEq, Prod.mk.injEq] at stepped
    obtain ⟨rfl, rfl, rfl⟩ := stepped
    exact ⟨⟨shared, held, sender⟩, by simp [Spares]⟩
  | done result => simp [stepRx] at stepped

theorem tx_goto (inv : Inv o g h t ⟨m, rx, tx⟩) (stepped : tx.goto m pc = some (n, tx', es))
    (next : TxAt o g m h t { tx with pc }) : Keeps o g h t ⟨n, rx, tx'⟩ es := by
  simp only [Tx.goto, Option.some.injEq, Prod.mk.injEq] at stepped
  obtain ⟨rfl, rfl, rfl⟩ := stepped
  exact ⟨⟨inv.shared, inv.rx, next⟩, by simp⟩

/-- A comparison of the handshake, before anything is produced. -/
theorem tx_await (inv : Inv o g h t ⟨m, rx, tx⟩)
    (stepped : tx.await m f value pc = some (n, tx', es))
    (next : TxAt o g m h t { tx with pc })
    (waiting : TxAt o g m h t { tx with pc := .waitTimeout }) :
    Keeps o g h t ⟨n, rx, tx'⟩ es := by
  unfold Tx.await at stepped
  split at stepped
  · exact tx_goto inv stepped next
  · exact tx_goto inv stepped waiting

/-- A store into the free slot. -/
theorem tx_write_slot (inv : Inv o g h t ⟨m, rx, tx⟩) (free : h < t + g.count)
    (within : x + width ≤ g.stride)
    (stepped : tx.write m (g.slot h + x) width value pc = some (n, tx', es))
    (next : TxAt o g (store m (g.slot h + x) width value) h t { tx with pc }) :
    Keeps o g h t ⟨n, rx, tx'⟩ es := by
  simp only [Tx.write, Option.some.injEq, Prod.mk.injEq] at stepped
  obtain ⟨rfl, rfl, rfl⟩ := stepped
  have behind : sizeofHeader ≤ g.slot h + x := Nat.le_trans (slot_behind g h) (Nat.le_add_right ..)
  refine ⟨⟨inv.shared.store_slot value free within, ?_, next⟩, ?_⟩
  · exact inv.rx.later (Nat.le_refl _) (fun set => by rwa [get_store _ _ _ _ behind])
  · intro e member
    rw [List.mem_singleton.mp member, inv.shared.head, inv.shared.tail]
    intro i lower upper
    exact slotAt_disjoint sizeofHeader g.count (mod_ne lower upper free).symm within
      (Nat.le_of_eq (Nat.zero_add g.stride))

theorem spares_header (g : Geometry) (f : Field) (tail head : Nat) :
    Spares g (.stored f.offset f.width tail head) := by
  intro i _ _
  have inside := field_inside f
  have behind := slot_behind g i
  exact Or.inl (by omega)

/-- A store into a field that neither side navigates by. -/
theorem tx_write_header (inv : Inv o g h t ⟨m, rx, tx⟩)
    (stepped : tx.writeHeader m f value pc = some (n, tx', es)) (changes : f.Mutable)
    (head : f ≠ .head) (tail : f ≠ .tail)
    (flags : get m .flags ≠ 0 → get (put m f value) .flags ≠ 0)
    (next : TxAt o g (put m f value) h t { tx with pc }) :
    Keeps o g h t ⟨n, rx, tx'⟩ es := by
  simp only [Tx.writeHeader, Tx.write, Option.some.injEq, Prod.mk.injEq] at stepped
  obtain ⟨rfl, rfl, rfl⟩ := stepped
  refine ⟨⟨inv.shared.put_other value changes head tail, inv.rx.later (Nat.le_refl _) flags, next⟩,
    ?_⟩
  intro e member
  rw [List.mem_singleton.mp member]
  exact spares_header g f _ _

theorem nextPayload_eq (more : h * o.txChunk < o.total) : nextPayload o (upto o h) = piece o h := by
  have total := o.total_lt
  have sent : upto o h = h * o.txChunk := Nat.min_eq_right (Nat.le_of_lt more)
  have rest : u64 (o.total + 2 ^ 64 - h * o.txChunk) = o.total - h * o.txChunk := by
    unfold u64
    omega
  simp only [nextPayload, sent, rest, piece]
  split <;> omega

/-- The flow control of the sender sees how full the ring is. -/
theorem distance_eq (shared : Shared o g m h t) : u64 (h + 2 ^ 64 - t) = h - t := by
  have bound := shared.head_le
  have total := o.total_lt
  have order := shared.order
  unfold u64
  omega

theorem Producing.goto (held : Producing o g m h tx) : Producing o g m h { tx with pc } :=
  ⟨held.sent, held.slotCount, held.sized, held.flags⟩

theorem Working.goto (held : Working o g m h t tx s) : Working o g m h t { tx with pc } s :=
  ⟨held.toProducing.goto, held.more, held.free, held.slot⟩

theorem Working.store (held : Working o g m h t tx s) (value : Nat) :
    Working o g (store m (g.slot h + x) width value) h t { tx with pc } s := by
  have behind : sizeofHeader ≤ g.slot h + x := Nat.le_trans (slot_behind g h) (Nat.le_add_right ..)
  exact ⟨⟨held.sent, held.slotCount, held.sized, (get_store _ _ _ _ behind).trans held.flags⟩,
    held.more, held.free, held.slot⟩

theorem slotField_stride (g : Geometry) (f : SlotField) : f.offset + f.width ≤ g.stride :=
  Nat.le_trans (slotField_inside f) (Nat.le_add_right ..)

theorem piece_stride (sized : o.txChunk ≤ g.size) (below : k < piece o h) :
    sizeofSlot + k + 1 ≤ g.stride := by
  have length := piece_le o h
  unfold Geometry.stride
  omega

theorem loop_step (inv : Inv o g h t ⟨m, rx, tx⟩) (producing : Producing o g m h tx)
    (stepped : tx.goto m (if tx.sent < o.total then .loadTail (get m .head) else .drainHead) =
      some (n, tx', es)) : Keeps o g h t ⟨n, rx, tx'⟩ es := by
  have sent := producing.sent
  split at stepped
  · rename_i left
    have more : h * o.txChunk < o.total := by
      rw [sent, upto] at left
      omega
    exact tx_goto inv stepped ⟨producing.goto, more, inv.shared.head⟩
  · rename_i all
    have total : tx.sent = o.total := by
      rw [sent, upto] at all ⊢
      omega
    exact tx_goto inv stepped ⟨producing.goto, total⟩

/-- Advancing head makes the filled slot visible and counts its bytes. -/
theorem storeHead_step (inv : Inv o g h t ⟨m, rx, tx⟩) (working : Working o g m h t tx slot)
    (filled : Filled o g m h)
    (stepped : (tx.writeHeader m .head (u64 (slot.head + 1)) .loop).map (fun (m, tx, es) =>
        (m, { tx with sent := u64 (tx.sent + slot.payload) }, es ++ [Event.produced])) =
      some (n, tx', es)) : Keeps o g h t ⟨n, rx, tx'⟩ es := by
  obtain ⟨producing, more, free, rfl⟩ := working
  have grown := inv.shared.produce free more producing.sized filled
  have exact : u64 (h + 1) = h + 1 := grown.u64_succ (Nat.lt_succ_self h)
  have sum : u64 (tx.sent + piece o h) = upto o (h + 1) := by
    rw [producing.sent, upto_succ]
    exact Nat.mod_eq_of_lt (upto_succ o h ▸ upto_lt o (h + 1))
  simp only [Tx.writeHeader, Tx.write, exact, sum, Option.map_some, Option.some.injEq,
    Prod.mk.injEq] at stepped
  obtain ⟨rfl, rfl, rfl⟩ := stepped
  have flags : get (put m .head (h + 1)) .flags = get m .flags := get_put_ne _ _ (by decide)
  refine ⟨⟨grown, inv.rx.later (Nat.le_succ h) (fun set zero => set (flags.symm.trans zero)), ?_⟩,
    ?_⟩
  · exact ⟨rfl, producing.slotCount, producing.sized, flags.trans producing.flags⟩
  · intro e member
    rcases List.mem_append.mp member with stored | last
    · rw [List.mem_singleton.mp stored]
      exact spares_header g .head _ _
    · rw [List.mem_singleton.mp last]
      trivial

theorem tx_step (inv : Inv o g h t ⟨m, rx, tx⟩)
    (stepped : stepTx o m tx fails elapsed = some (n, tx', es)) :
    Keeps o g h t ⟨n, rx, tx'⟩ es := by
  have shared := inv.shared
  have held := inv.tx
  obtain ⟨sent, slotCount, slotSize, pc⟩ := tx
  cases pc with
  | waitMagic | waitVersion | waitFlags | waitHead | waitTail =>
    exact tx_await inv stepped held held
  | waitTimeout =>
    simp only [stepTx] at stepped
    split at stepped
    · exact tx_goto inv stepped held.2.2
    · exact tx_goto inv stepped held
  | loadSlotCount =>
    simp only [stepTx, Option.some.injEq, Prod.mk.injEq] at stepped
    obtain ⟨rfl, rfl, rfl⟩ := stepped
    exact ⟨⟨shared, inv.rx, held.1, held.2.1, shared.published.slotCount, held.2.2⟩, by simp⟩
  | loadSlotSize =>
    simp only [stepTx, Option.some.injEq, Prod.mk.injEq] at stepped
    obtain ⟨rfl, rfl, rfl⟩ := stepped
    obtain ⟨rfl, none, count, flags⟩ := held
    refine ⟨⟨shared, inv.rx, ?_⟩, by simp⟩
    dsimp only
    split
    · exact flags
    · rename_i usable
      rw [shared.published.slotSize] at usable
      exact ⟨none.trans (upto_zero o).symm, count, by omega, flags⟩
  | allocate | checkTimeout =>
    simp only [stepTx] at stepped
    split at stepped
    · exact tx_goto inv stepped held.flags
    · exact tx_goto inv stepped held.goto
  | loop => exact loop_step inv held stepped
  | loadTail head =>
    obtain ⟨producing, more, rfl⟩ := held
    obtain rfl : slotCount = g.count := producing.slotCount
    have order := shared.order
    simp only [stepTx, shared.tail, distance_eq shared] at stepped
    split at stepped
    · exact tx_goto inv stepped producing.goto
    · exact tx_goto inv stepped ⟨producing.goto, more, by omega, rfl⟩
  | slotPtr head =>
    obtain ⟨producing, more, free, rfl⟩ := held
    have sum : sent = upto o head := producing.sent
    refine tx_goto inv stepped ⟨producing.goto, more, free, ?_⟩
    rw [ntbRingSlot_eq shared.published, ntbRingSlotPayload_eq shared.published, sum,
      nextPayload_eq more]
  | copy slot k =>
    obtain rfl := held.slot
    simp only [stepTx] at stepped
    split at stepped
    · rename_i below
      rw [Nat.add_assoc] at stepped
      exact tx_write_slot inv held.free (piece_stride held.sized below) stepped (held.store _)
    · exact tx_goto inv stepped held.goto
  | storeTotal slot | storeFlags slot =>
    obtain rfl := held.slot
    exact tx_write_slot inv held.free (slotField_stride g _) stepped (held.store _)
  | storeLen slot =>
    obtain rfl := held.slot
    refine tx_write_slot inv held.free (slotField_stride g .len) stepped ⟨held.store _, ?_⟩
    refine slotGet_slotPut_same m (g.slot h) .len ?_
    exact Nat.lt_of_le_of_lt (piece_le o h) o.txChunk_lt
  | barrier | drainTimeout | finalBarrier =>
    simp only [stepTx] at stepped
    split at stepped
    · exact tx_goto inv stepped held.1.flags
    · exact tx_goto inv stepped ⟨held.1.goto, held.2⟩
  | storeSeq slot =>
    obtain ⟨working, length⟩ := held
    obtain rfl := working.slot
    refine tx_write_slot inv working.free (slotField_stride g .seq) stepped ⟨working.store _, ?_,
      ?_⟩
    · have scaled := Nat.le_mul_of_pos_right h o.txChunk_pos
      have more := working.more
      have total := o.total_lt
      have exact : u64 (h + 1) = h + 1 := Nat.mod_eq_of_lt (by omega)
      rw [exact]
      exact slotGet_slotPut_same m (g.slot h) .seq (by simp only [SlotField.width]; omega)
    · exact (slotGet_slotPut_ne m (g.slot h) _ (by decide)).trans length
  | storeHead slot => exact storeHead_step inv held.1 held.2 stepped
  | drainHead =>
    exact tx_goto inv stepped ⟨held.1.goto, held.2, shared.head⟩
  | drainTail head =>
    obtain ⟨producing, all, rfl⟩ := held
    simp only [stepTx, shared.tail] at stepped
    split at stepped
    · rename_i drained
      exact tx_goto inv stepped ⟨producing.goto, all, drained⟩
    · exact tx_goto inv stepped ⟨producing.goto, all⟩
  | storeTotalBytes | storeElapsed =>
    refine tx_write_header inv stepped (by decide) (by decide) (by decide) ?_ ⟨?_, held.2⟩
    · exact fun set => absurd held.1.flags set
    · exact (held.1.put _ (by decide)).goto
  | storeDone =>
    refine tx_write_header inv stepped (by decide) (by decide) (by decide) ?_ ⟨held.1.sent, held.2⟩
    exact fun set => absurd held.1.flags set
  | done result => simp [stepTx] at stepped

theorem system_step {s s' : System} (inv : Inv o g h t s)
    (stepped : s.step o label = some (s', es)) : Keeps o g h t s' es := by
  obtain ⟨m, rx, tx⟩ := s
  cases label with
  | rx fails =>
    simp only [System.step, Option.map_eq_some_iff, Prod.exists, Prod.mk.injEq] at stepped
    obtain ⟨n, rx', es', moved, rfl, rfl⟩ := stepped
    exact rx_step inv moved
  | tx fails elapsed =>
    simp only [System.step, Option.map_eq_some_iff, Prod.exists, Prod.mk.injEq] at stepped
    obtain ⟨n, tx', es', moved, rfl, rfl⟩ := stepped
    exact tx_step inv moved

theorem start_inv (o : Options) (laid : Laid g m) : Inv o g 0 0 (.start m) := by
  refine ⟨⟨laid.published, laid.head, laid.tail, Nat.le_refl 0, Nat.zero_le _, ?_, ?_, ?_⟩, ?_, rfl,
    rfl, laid.flags⟩
  · exact fun i below => absurd below (Nat.not_lt_zero i)
  · exact fun positive => absurd positive (Nat.lt_irrefl 0)
  · exact fun i _ below => absurd below (Nat.not_lt_zero i)
  · exact (upto_zero o).symm

theorem run_inv {s : System} (laid : Laid g m)
    (path : run (System.step o) (.start m) labels = some (s, es)) :
    Inv o g (produced es) (consumed es) s ∧ ∀ e ∈ es, Spares g e := by
  refine run_invariant
    (P := fun es s => Inv o g (produced es) (consumed es) s ∧ ∀ e ∈ es, Spares g e)
    ?_ ⟨start_inv o laid, by simp⟩ (along_true _ _) path
  rintro before s label s' es ⟨inv, spared⟩ - stepped
  obtain ⟨next, now⟩ := system_step inv stepped
  simp only [produced, consumed, List.count_append] at next ⊢
  refine ⟨next, ?_⟩
  intro e member
  rcases List.mem_append.mp member with earlier | latest
  · exact spared e earlier
  · exact now e latest

/-- What the ring guarantees after any run: head and tail in memory are the
numbers of slots produced and consumed, so they never wrap; the ring never
overflows; no store of the sender hits an unconsumed slot; the receiver never
rejects a slot; and two successful ends agree on everything sent. -/
structure RingSafe (o : Options) (g : Geometry) (s : System) (es : List Event) : Prop where
  head : get s.mem .head = produced es
  tail : get s.mem .tail = consumed es
  order : consumed es ≤ produced es
  room : produced es ≤ consumed es + g.count
  spares : ∀ e ∈ es, Spares g e
  valid : s.rx.pc ≠ .done .invalidSlot
  complete : s.rx.pc = .done .success → s.tx.pc = .done .success →
    s.rx.received = s.tx.sent ∧ s.tx.sent = o.total ∧ consumed es = produced es

/-- Every interleaving of `run_rx` and `run_tx` on a published ring is safe. -/
theorem ring_safe (o : Options) (laid : publishRing o m = some n)
    (path : run (System.step o) (.start n) labels = some (s, es)) :
    ∃ g, Published g n ∧ RingSafe o g s es := by
  obtain ⟨g, ring⟩ := publishRing_geometry o laid
  obtain ⟨⟨shared, receiver, sender⟩, spared⟩ := run_inv ring path
  refine ⟨g, ring.published, shared.head, shared.tail, shared.order, shared.room, spared, ?_, ?_⟩
  · intro invalid
    simp only [RxAt, invalid] at receiver
  · intro received sent
    simp only [RxAt, received] at receiver
    simp only [TxAt, sent] at sender
    obtain ⟨counted, all, same⟩ := sender
    refine ⟨?_, all, same⟩
    rw [receiver.1, counted, same]

def smallRing : Options :=
  ⟨129, 1, 1, 2, by decide, by decide, by decide, by decide, by decide⟩

def smallRun : List Label :=
  List.replicate 19 (Label.tx false 7) ++ List.replicate 7 (Label.rx false) ++
    List.replicate 11 (Label.tx false 7) ++ List.replicate 7 (Label.rx false) ++
    List.replicate 7 (Label.tx false 7) ++ List.replicate 6 (Label.rx false)

theorem ring_safe_small :
    ∃ n s es, publishRing smallRing (fun _ => 0) = some n ∧
      run (System.step smallRing) (.start n) smallRun = some (s, es) ∧
      s.rx = ⟨2, .done .success⟩ ∧ s.tx.pc = .done .success ∧
      ∃ g, Published g n ∧ RingSafe smallRing g s es := by
  obtain ⟨n, laid⟩ := Option.isSome_iff_exists.mp
    (by decide : (publishRing smallRing fun _ => 0).isSome = true)
  have ends : (run (System.step smallRing) (.start n) smallRun).map
      (fun out => (out.1.rx, out.1.tx.pc)) = some (⟨2, .done .success⟩, .done .success) := by
    obtain rfl : writeHeader 1 1 (fun _ => 0) = n := Option.some.inj laid
    decide +kernel
  obtain ⟨⟨s, es⟩, path, final⟩ := Option.map_eq_some_iff.mp ends
  obtain ⟨received, sent⟩ := Prod.mk.inj final
  exact ⟨n, s, es, laid, path, received, sent, ring_safe smallRing laid path⟩

end IdtNtb.Ring
