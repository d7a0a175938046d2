import IdtNtb.Ring.Queue

/-! `run_rx` from its first access, beside a `run_tx` that may start before it.
The window holds whatever earlier runs left; the receiver withdraws the magic
number, clears the header byte by byte in any order, fills it in and publishes
the magic number last, while the sender may be anywhere in its handshake. -/
namespace IdtNtb.Ring
open Bytes Transition

/-- The next access of `run_rx`; `left` are the bytes that `memset` has yet to
clear. -/
inductive Opening where
  | prepare
  | withdraw (slotCount slotSize : Nat)
  | clear (slotCount slotSize : Nat) (left : List Nat)
  | fill (stores : List (Field × Nat))
  | running (rx : Rx)
  | failed
  deriving DecidableEq

structure Startup where
  mem : Memory
  rx : Opening
  tx : Tx

/-- `cell` is the byte that `memset` clears next. -/
inductive StartLabel where
  | rx (fails : Bool) (cell : Nat)
  | tx (fails : Bool) (elapsed : Nat)
  deriving DecidableEq

def stepOpening (o : Options) (m : Memory) (fails : Bool) (cell : Nat) :
    Opening → Option (Memory × Opening)
  | .prepare =>
      if fails then some (m, .failed)
      else match ringLayout o with
        | none => some (m, .failed)
        | some (slotCount, slotSize) => some (m, .withdraw slotCount slotSize)
  | .withdraw slotCount slotSize =>
      some (put m .magic 0, .clear slotCount slotSize (List.range sizeofHeader))
  | .clear slotCount slotSize [] => some (m, .fill (headerStores slotCount slotSize))
  | .clear slotCount slotSize left =>
      if cell ∈ left then some (store m cell 1 0, .clear slotCount slotSize (left.erase cell))
      else none
  | .fill [] => none
  | .fill [(f, value)] => some (put m f value, .running ⟨0, .loadTail⟩)
  | .fill ((f, value) :: stores) => some (put m f value, .fill stores)
  | .running rx => (stepRx m rx fails).map fun (m, rx, _) => (m, .running rx)
  | .failed => none

def Startup.next (o : Options) (s : Startup) : StartLabel → Option Startup
  | .rx fails cell =>
      (stepOpening o s.mem fails cell s.rx).map fun (m, rx) => { s with mem := m, rx }
  | .tx fails elapsed =>
      (stepTx o s.mem s.tx fails elapsed).map fun (m, tx, _) => { s with mem := m, tx }

def Startup.step (o : Options) : Startup → StartLabel → Option (Startup × List Unit) :=
  silent (next o)

/-- Both programs before their first access to a window with contents `m`. -/
def Startup.start (m : Memory) : Startup := ⟨m, .prepare, ⟨0, 0, 0, .waitMagic⟩⟩

/-- `run_tx` is past its handshake loop. -/
def Tx.Adopted (tx : Tx) : Prop :=
  match tx.pc with
  | .waitMagic | .waitVersion | .waitFlags | .waitHead | .waitTail | .waitTimeout
  | .done .timedOut => False
  | _ => True

/-- What the sender has adopted is the ring of this `run_rx`, whose magic store
has been made, with the slots of this run. -/
def AdoptsLive (o : Options) (s : Startup) : Prop :=
  s.tx.Adopted → ∃ rx slotCount slotSize, s.rx = .running rx ∧
    ringLayout o = some (slotCount, slotSize) ∧
    get s.mem .headerSize = sizeofHeader ∧ get s.mem .slotHeaderSize = sizeofSlot ∧
    get s.mem .slotCount = slotCount ∧ get s.mem .slotSize = slotSize

/-- This `run_rx` has made its first store, which withdraws the magic number. -/
def Opening.Withdrawn : Opening → Prop
  | .prepare | .withdraw .. | .failed => False
  | _ => True

instance : DecidablePred Opening.Withdrawn := fun rx => by
  cases rx <;> unfold Opening.Withdrawn <;> infer_instance

/-- The sender finds the magic number only after this `run_rx` has withdrawn
whatever was there. -/
def FindsNew (s : Startup) : StartLabel → Prop
  | .tx .. => s.tx.pc = .waitMagic → get s.mem .magic = ringMagic → s.rx.Withdrawn
  | .rx .. => True

instance (s : Startup) : DecidablePred (FindsNew s) := fun label => by
  cases label <;> unfold FindsNew <;> infer_instance

def Waiting (tx : Tx) : Prop :=
  tx.sent = 0 ∧ (tx.pc = .waitMagic ∨ tx.pc = .waitTimeout ∨ tx.pc = .done .timedOut)

/-- What holds of the memory while the receiver opens the ring: the bytes that
are cleared, then the ring that the remaining stores complete. -/
def Opened (o : Options) (m : Memory) (tx : Tx) : Opening → Prop
  | .prepare | .failed => Waiting tx
  | .withdraw slotCount slotSize => Waiting tx ∧ ringLayout o = some (slotCount, slotSize)
  | .clear slotCount slotSize left =>
      Waiting tx ∧ ringLayout o = some (slotCount, slotSize) ∧ ∀ k < sizeofHeader, k < 4 ∨
        k ∉ left → m k = 0
  | .fill stores =>
      Waiting tx ∧ get m .magic = 0 ∧ ∃ g : Geometry, ringLayout o = some (g.count, g.size) ∧
        Laid g (fillIn m stores) ∧ ∃ rest, stores = rest ++ [(.magic, ringMagic)] ∧
          ∀ x ∈ rest, x.1 ≠ .magic
  | .running rx =>
      ∃ (g : Geometry) (h t : Nat), ringLayout o = some (g.count, g.size) ∧ Inv o g h t ⟨m, rx, tx⟩

theorem waiting_step (waiting : Waiting tx) (hidden : tx.pc = .waitMagic → get m .magic ≠ ringMagic)
    (stepped : stepTx o m tx fails elapsed = some (n, tx', es)) : n = m ∧ Waiting tx' := by
  obtain ⟨idle, here | here | here⟩ := waiting
  · simp only [stepTx, here, Tx.await, if_neg (hidden here), Tx.goto, Option.some.injEq,
      Prod.mk.injEq] at stepped
    obtain ⟨rfl, rfl, -⟩ := stepped
    exact ⟨rfl, idle, Or.inr (Or.inl rfl)⟩
  · simp only [stepTx, here, Tx.goto, Option.some.injEq, Prod.mk.injEq] at stepped
    obtain ⟨rfl, rfl, -⟩ := stepped
    refine ⟨rfl, idle, ?_⟩
    cases fails with
    | true => exact Or.inr (Or.inr rfl)
    | false => exact Or.inl rfl
  · simp [stepTx, here] at stepped

theorem header_cleared {m : Memory} (zero : ∀ k < sizeofHeader, k < 4 ∨ k ∉ [] → m k = 0)
    (f : Field) :
    get m f = 0 := by
  apply load_eq_zero
  intro x _ below
  have inside := field_inside f
  exact zero x (by omega) (Or.inr List.not_mem_nil)

/-- The magic number is published over a complete header. -/
theorem running_inv (laid : Laid g m) (waiting : Waiting tx) :
    Inv o g 0 0 ⟨m, ⟨0, .loadTail⟩, tx⟩ := by
  have first := start_inv o laid
  refine ⟨first.shared, first.rx, ?_⟩
  obtain ⟨idle, here | here | here⟩ :=
    waiting <;> simp only [TxAt, here, idle, laid.flags, and_self]

theorem opening_step (inv : Opened o m tx rx)
    (stepped : stepOpening o m fails cell rx = some (n, rx')) : Opened o n tx rx' := by
  cases rx with
  | prepare =>
    simp only [stepOpening] at stepped
    split at stepped
    · cases stepped
      exact inv
    split at stepped
    · cases stepped
      exact inv
    · rename_i laid
      cases stepped
      exact ⟨inv, laid⟩
  | withdraw slotCount slotSize =>
    cases stepped
    refine ⟨inv.1, inv.2, ?_⟩
    intro k inside reason
    rcases reason with first | other
    · change store m 0 4 0 k = 0
      rw [store_inside (Nat.zero_le k) (by omega)]
      simp [byte]
    · exact absurd (List.mem_range.mpr inside) other
  | clear slotCount slotSize left =>
    obtain ⟨waiting, laid, zero⟩ := inv
    cases left with
    | nil =>
      cases stepped
      have cleared := header_cleared zero
      obtain ⟨g, rfl, rfl⟩ := ringLayout_geometry laid
      refine ⟨waiting, cleared .magic, g, laid, fillIn_laid g cleared,
        (headerStores g.count g.size).dropLast, rfl, ?_⟩
      simp [headerStores]
    | cons first left =>
      simp only [stepOpening] at stepped
      split at stepped
      · cases stepped
        refine ⟨waiting, laid, ?_⟩
        intro k inside reason
        by_cases same : k = cell
        · subst same
          rw [store_inside (Nat.le_refl k) (Nat.lt_succ_self k)]
          simp [byte]
        · rw [store_outside (by omega)]
          rw [List.mem_erase_of_ne same] at reason
          exact zero k inside reason
      · contradiction
  | fill stores =>
    obtain ⟨waiting, hidden, g, laid, complete, rest, rfl, fields⟩ := inv
    cases rest with
    | nil =>
      cases stepped
      exact ⟨g, 0, 0, laid, running_inv complete waiting⟩
    | cons x rest =>
      have moved : stepOpening o m fails cell (.fill (x :: rest ++ [(.magic, ringMagic)])) =
          some (put m x.1 x.2, .fill (rest ++ [(.magic, ringMagic)])) := by
        cases rest <;> rfl
      rw [moved] at stepped
      cases stepped
      have apart := fields x List.mem_cons_self
      refine ⟨waiting, ?_, g, laid, complete, rest, rfl, ?_⟩
      · rw [get_put_ne _ _ apart.symm, hidden]
      · intro y member
        exact fields y (List.mem_cons_of_mem x member)
  | running rx =>
    obtain ⟨g, h, t, laid, inv⟩ := inv
    obtain ⟨⟨m', rx', es⟩, moved, same⟩ := Option.map_eq_some_iff.mp stepped
    cases same
    exact ⟨g, _, _, laid, (rx_step inv moved).1⟩
  | failed => contradiction

/-- While the receiver opens the ring, the sender finds no magic number. -/
theorem sender_step (inv : Opened o m tx rx)
    (new : tx.pc = .waitMagic → get m .magic = ringMagic → rx.Withdrawn)
    (stepped : stepTx o m tx fails elapsed = some (n, tx', es)) : Opened o n tx' rx := by
  cases rx with
  | prepare | failed =>
    obtain ⟨rfl, waiting⟩ := waiting_step inv new stepped
    exact waiting
  | withdraw slotCount slotSize =>
    obtain ⟨rfl, waiting⟩ := waiting_step inv.1 new stepped
    exact ⟨waiting, inv.2⟩
  | clear slotCount slotSize left =>
    have hidden : get m .magic = 0 := by
      apply load_eq_zero
      intro x _ below
      have below : x < 0 + 4 := below
      exact inv.2.2 x (by simp only [sizeofHeader]; omega) (Or.inl (by omega))
    obtain ⟨rfl, waiting⟩ := waiting_step inv.1 (fun _ => by rw [hidden]; decide) stepped
    exact ⟨waiting, inv.2⟩
  | fill stores =>
    obtain ⟨rfl, waiting⟩ := waiting_step inv.1 (fun _ => by rw [inv.2.1]; decide) stepped
    exact ⟨waiting, inv.2⟩
  | running rx =>
    obtain ⟨g, h, t, laid, inv⟩ := inv
    exact ⟨g, _, _, laid, (tx_step inv stepped).1⟩

theorem startup_step {s s' : Startup} (inv : Opened o s.mem s.tx s.rx) (new : FindsNew s label)
    (stepped : s.step o label = some (s', es)) : Opened o s'.mem s'.tx s'.rx := by
  have stepped := silent_eq_some stepped
  cases label with
  | rx fails cell =>
    obtain ⟨⟨m, rx⟩, moved, rfl⟩ := Option.map_eq_some_iff.mp stepped
    exact opening_step inv moved
  | tx fails elapsed =>
    obtain ⟨⟨m, tx, es⟩, moved, rfl⟩ := Option.map_eq_some_iff.mp stepped
    exact sender_step inv new moved

theorem waiting_not_adopted (waiting : Waiting tx) : ¬tx.Adopted := by
  obtain ⟨-, here | here | here⟩ := waiting <;> simp [Tx.Adopted, here]

theorem opened_live {s : Startup} (inv : Opened o s.mem s.tx s.rx) : AdoptsLive o s := by
  intro adopted
  cases held : s.rx with
  | running rx =>
    rw [held] at inv
    obtain ⟨g, h, t, laid, inv⟩ := inv
    obtain ⟨headerSize, slotHeaderSize, slotCount, slotSize⟩ := inv.shared.published
    exact ⟨rx, g.count, g.size, rfl, laid, headerSize, slotHeaderSize, slotCount, slotSize⟩
  | prepare | failed =>
    rw [held] at inv
    exact absurd adopted (waiting_not_adopted inv)
  | withdraw | clear | fill =>
    rw [held] at inv
    exact absurd adopted (waiting_not_adopted inv.1)

/-- Over a window with any contents and in any interleaving in which the sender
finds the magic number only once this `run_rx` has withdrawn the old one, the
sender leaves its handshake only for the ring of this run. -/
theorem adopts_live (o : Options) (m : Memory) (labels : List StartLabel)
    (new : Along (Startup.step o) FindsNew (.start m) labels)
    (path : run (Startup.step o) (.start m) labels = some (s, es)) : AdoptsLive o s := by
  have initial : Opened o (Startup.start m).mem (Startup.start m).tx (Startup.start m).rx :=
    ⟨rfl, Or.inl rfl⟩
  exact opened_live (run_preserves (P := fun s => Opened o s.mem s.tx s.rx)
    (fun inv new stepped => startup_step inv new stepped) initial new path)

/-- The whole opening of the receiver, with the bytes cleared in order. -/
def opens : List StartLabel :=
  List.replicate 2 (StartLabel.rx false 0) ++ (List.range sizeofHeader).map (StartLabel.rx false) ++
    List.replicate 7 (StartLabel.rx false 0)

def timesOut : List Label := List.replicate 3 (Label.rx false) ++ [.rx true]

/-- What a `run_rx` leaves that published its ring and timed out. -/
def leftover : Memory := writeHeader 1 1 fun _ => 0

theorem adopts_live_reopened :
    ∃ s es, run (Startup.step smallRing) (.start leftover)
      (opens ++ List.replicate 7 (.tx false 0)) =
      some (s, es) ∧ s.tx.pc = .allocate ∧ AdoptsLive smallRing s := by
  have reads :
      (run (Startup.step smallRing) (.start leftover) (opens ++ List.replicate 7 (.tx false 0))).map
      (fun reached => reached.1.tx.pc) = some .allocate := by decide +kernel
  obtain ⟨⟨s, es⟩, path, here⟩ := Option.map_eq_some_iff.mp reads
  exact ⟨s, es, path, here, adopts_live smallRing leftover _ (by decide +kernel) path⟩

/-- The sender starts first and takes the old ring for a new one. -/
def senderFirst : List StartLabel := List.replicate 5 (.tx false 0)

/-- The sender loads the old magic number, and the rest of the header while the
receiver has filled in no more than its version. -/
def overtaken : List StartLabel :=
  .tx false 0 :: opens.take 68 ++ List.replicate 4 (.tx false 0)

theorem adopts_unpublished (opening : Opening) (unpublished : ∀ rx, opening ≠ .running rx)
    (reads : (run (Startup.step o) (.start m) labels).map (fun reached =>
      (reached.1.rx, reached.1.tx.pc)) =
      some (opening, .loadSlotCount)) :
    ∃ s es, run (Startup.step o) (.start m) labels = some (s, es) ∧ ¬AdoptsLive o s := by
  obtain ⟨⟨s, es⟩, path, same⟩ := Option.map_eq_some_iff.mp reads
  obtain ⟨rfl, adopted⟩ := Prod.mk.inj same
  refine ⟨s, es, path, fun live => ?_⟩
  obtain ⟨rx, _, _, published, -⟩ := live (by rw [Tx.Adopted, adopted]; trivial)
  exact unpublished rx published

/-- An earlier `run_rx` publishes its ring, finds no sender and times out. Over
what it leaves, the sender adopts a ring that the new `run_rx` has not begun to
open, or has not published. -/
theorem stale_ring_adopted :
    ∃ m left es, publishRing smallRing (fun _ => 0) = some m ∧
      run (System.step smallRing) (.start m) timesOut = some (left, es) ∧
      left.rx.pc = .done .timedOut ∧
      (∃ s fs, run (Startup.step smallRing) (.start left.mem) senderFirst = some (s, fs) ∧
        ¬AdoptsLive smallRing s) ∧
      ∃ s fs, run (Startup.step smallRing) (.start left.mem) overtaken = some (s, fs) ∧
        ¬AdoptsLive smallRing s := by
  refine ⟨leftover, ⟨leftover, ⟨0, .done .timedOut⟩, ⟨0, 0, 0, .waitMagic⟩⟩, [], rfl,
    rfl, rfl, ?_, ?_⟩
  · refine adopts_unpublished .prepare ?_ (by decide +kernel)
    simp
  · refine adopts_unpublished (.fill (headerStores 1 1).tail) ?_ (by decide +kernel)
    simp

end IdtNtb.Ring
