import IdtNtb.Kernel.Exposure
import IdtNtb.Ring.Queue
import IdtNtb.Ring.Sender

/-! The profiling ring over the bridge: `run_rx` works in its own RAM, `run_tx`
makes every load and store through its device. Over a window that is shown whole
this is the ring in shared memory, step by step. -/
namespace IdtNtb.Ring
open Bytes Device Kernel Transition

/-- The sender's device and BAR, where its window starts in the receiver's RAM, and
how much of the window lies before the ring. -/
structure Bridge where
  file : PeerRamFile
  role : Role
  shm : SharedMemory
  idx : Fin 6
  base : Nat
  skip : Nat

structure Endpoints where
  dev : IVShmemState
  ram : Memory
  rx : Rx
  tx : Tx

namespace Bridge
variable (b : Bridge)

def start : Nat := b.base + b.skip

/-- A word of the ring as the sender loads it. An access that the device has no
answer for reads as zero. -/
def word (dev : IVShmemState) (ram : Memory) (k : Nat) : Nat :=
  match barLoad b.file b.role dev b.shm ram (BitVec.ofNat 64 (b.skip + 4 * k)) 4 b.idx with
  | some result => result.ret.toNat
  | none => 0

def view (dev : IVShmemState) (ram : Memory) : Memory :=
  fun x => byte (b.word dev ram (x / 4)) (x % 4)

def placed (ram m : Memory) : Memory := fun x => if b.start ≤ x then m (x - b.start) else ram x

def post (dev : IVShmemState) (ram m : Memory) : List Event → Option (IVShmemState × Memory)
  | .stored addr width _ _ :: _ =>
      (barStore b.file b.role dev b.shm ram (BitVec.ofNat 64 (b.skip + addr))
        (BitVec.ofNat 64 (load m addr width)) width b.idx).map fun result =>
          (result.state, result.peerMemory)
  | _ => some (dev, ram)

def step (o : Options) (s : Endpoints) : Label → Option (Endpoints × List Event)
  | .rx fails => (stepRx (behind s.ram b.start) s.rx fails).map fun (m, rx, es) =>
      ({ s with ram := b.placed s.ram m, rx }, es)
  | .tx fails elapsed => (stepTx o (b.view s.dev s.ram) s.tx fails elapsed).bind fun (m, tx, es) =>
      (b.post s.dev s.ram m es).map fun (dev, ram) => ({ s with dev, ram, tx }, es)

/-- `run_rx` has published the ring `m` in its RAM, and `run_tx` starts. -/
def boot (dev : IVShmemState) (ram m : Memory) : Endpoints :=
  ⟨dev, b.placed ram m, ⟨0, .loadTail⟩, ⟨0, 0, 0, .waitMagic⟩⟩

def ring (s : Endpoints) : System := ⟨behind s.ram b.start, s.rx, s.tx⟩

end Bridge

/-! ## A step of the sender depends on the header alone -/

section Congruence
variable {o : Options} {m n : Memory}

/-- What a step does to whatever memory shows the same header: nothing, or one
store that it reports first. -/
inductive Alike (o : Options) (n : Memory) (tx : Tx) (fails : Bool) (elapsed : Nat)
    (m m' : Memory) (tx' : Tx) :
    List Event → Prop
  | quiet (same : m' = m) (stepped : stepTx o n tx fails elapsed = some (n, tx', [])) :
      Alike o n tx fails elapsed m m' tx' []
  | stored (same : m' = store m addr width value) (word : 0 < width ∧ width ≤ 8)
      (stepped : stepTx o n tx fails elapsed = some (store n addr width value, tx',
        .stored addr width t h :: es)) :
      Alike o n tx fails elapsed m m' tx' (.stored addr width t h :: es)

variable (same : ∀ f, get m f = get n f)
include same

theorem stepTx_alike (stepped : stepTx o m tx fails elapsed = some (m', tx', es)) :
    Alike o n tx fails elapsed m m' tx' es := by
  have slot : ∀ i, ntbRingSlot m i = ntbRingSlot n i := fun i => by simp only [ntbRingSlot, same]
  have payload : ∀ i, ntbRingSlotPayload m i = ntbRingSlotPayload n i := fun i => by
    simp only [ntbRingSlotPayload, same]
  obtain ⟨sent, slotCount, slotSize, pc⟩ := tx
  cases pc with
  | copy filling k =>
    simp only [stepTx] at stepped
    split at stepped
    · rename_i more
      cases stepped
      refine .stored rfl (by decide) ?_
      simp only [stepTx, more, if_true, Tx.write, same]
    · rename_i last
      cases stepped
      refine .quiet rfl ?_
      simp only [stepTx, last, if_false, Tx.goto]
  | storeTotal | storeFlags | storeLen | storeSeq =>
    cases stepped
    refine .stored rfl (by decide) ?_
    simp only [stepTx, Tx.writeSlot, Tx.write, same]
  | storeHead =>
    cases stepped
    refine .stored rfl (by decide) ?_
    simp only [stepTx, Tx.writeHeader, Tx.write, same, Option.map_some]
    rfl
  | storeTotalBytes | storeElapsed | storeDone =>
    cases stepped
    refine .stored rfl (by decide) ?_
    simp only [stepTx, Tx.writeHeader, Tx.write, same]
  | done => cases stepped
  | _ =>
    cases stepped
    refine .quiet rfl ?_
    simp only [stepTx, Tx.await, Tx.goto, same, slot, payload]

end Congruence

theorem publishRing_behind (published : publishRing o m = some n) (past : sizeofHeader ≤ x) :
    n x = m x := by
  obtain ⟨⟨count, size⟩, -, rfl⟩ := Option.map_eq_some_iff.mp published
  have kept : ∀ (f : Field) (m : Memory) (value : Nat), put m f value x = m x := fun f m value => by
    have inside := field_inside f
    exact store_outside (Or.inr (by omega))
  simp only [writeHeader, kept]
  rw [store_outside (Or.inr (by simpa only [Nat.zero_add] using past)), kept]

/-- The receiver stores into the header only. -/
theorem stepRx_header (stepped : stepRx m rx fails = some (m', rx', es))
    (behind : sizeofHeader ≤ x) : m' x = m x := by
  obtain ⟨received, pc⟩ := rx
  cases pc with
  | checkSlot =>
    simp only [stepRx] at stepped
    split at stepped <;> cases stepped <;> rfl
  | storeTail =>
    cases stepped
    have inside := field_inside .tail
    exact store_outside (Or.inr (by omega))
  | done => cases stepped
  | _ =>
    cases stepped
    rfl

/-! ## The window shows the ring -/

theorem placed_ring (b : Bridge) (ram m : Memory) : behind (b.placed ram m) b.start = m := by
  funext x
  rw [behind, Bridge.placed, if_pos (Nat.le_add_right ..), Nat.add_sub_cancel_left]

section Window
variable {b : Bridge} {o : Options} {dev : IVShmemState} {ram : Memory}
  (exposes : Exposes dev b.idx b.base (b.skip + o.capacity))
include exposes

theorem view_byte (inside : 4 * (x / 4) + 4 ≤ o.capacity) :
    b.view dev ram x = behind ram b.start x := by
  obtain ⟨access, loaded⟩ := exposes.barLoad (by decide : 0 < 4)
    (by omega : b.skip + 4 * (x / 4) + 4 ≤ b.skip + o.capacity) b.file b.role b.shm ram
  have small := load_lt ram (b.base + (b.skip + 4 * (x / 4))) 4
  have exact : (BitVec.ofNat 64 (load ram (b.base + (b.skip + 4 * (x / 4))) 4)).toNat =
      load ram (b.base + (b.skip + 4 * (x / 4))) 4 := by
    rw [BitVec.toNat_ofNat]
    exact Nat.mod_eq_of_lt (by omega)
  rw [Bridge.view, Bridge.word, loaded]
  dsimp only
  rw [exact, byte_load _ (Nat.mod_lt x (by decide)), behind, Bridge.start]
  congr 1
  omega

theorem view_header (header : sizeofHeader ≤ o.capacity) (f : Field) :
    get (b.view dev ram) f = get (behind ram b.start) f := by
  refine load_congr fun x lower upper => view_byte exposes ?_
  have inside := field_inside f
  unfold sizeofHeader at inside header
  omega

/-- A store of the sender inside the ring. -/
theorem post_stored (m : Memory) (es : List Event) (word : 0 < width ∧ width ≤ 8)
    (inside : addr + width ≤ o.capacity) :
    b.post dev ram (store m addr width value) (.stored addr width t h :: es) =
      some (dev, store ram (b.start + addr) width value) := by
  obtain ⟨access, stored⟩ := exposes.barStore word.1
    (by omega : b.skip + addr + width ≤ b.skip + o.capacity) b.file b.role b.shm ram
    (BitVec.ofNat 64 (load (store m addr width value) addr width))
  have exact : (BitVec.ofNat 64 (load (store m addr width value) addr width)).toNat =
      load (store m addr width value) addr width := by
    have small := load_lt (store m addr width value) addr width
    have narrow : 256 ^ width ≤ 256 ^ 8 := Nat.pow_le_pow_right (by decide) word.2
    rw [BitVec.toNat_ofNat]
    exact Nat.mod_eq_of_lt (Nat.lt_of_lt_of_le small narrow)
  rw [Bridge.post, stored, Option.map_some, exact, store_load, Bridge.start, ← Nat.add_assoc]

end Window

/-! ## Runs over the bridge -/

/-- What both programs rely on, the ring's invariant and the window, with the
ring `n` that was published and everything else in the RAM untouched. -/
structure Bridge.Carries (b : Bridge) (o : Options) (n : Memory) (dev : IVShmemState) (ram : Memory)
    (s : Endpoints) :
    Prop where
  dev : s.dev = dev
  ring : ∃ g p c, Published g n ∧ Inv o g p c (b.ring s)
  sender : SenderAt o (shapeOf n) s.tx
  outside : ∀ x, x < b.start ∨ b.start + o.capacity ≤ x → s.ram x = ram x

section Runs
variable {b : Bridge} {o : Options} {n : Memory} {dev : IVShmemState} {ram : Memory}
    {s t : Endpoints} {es : List Event}

theorem published_shape {g : Geometry} (first : Published g m) (second : Published g n) :
    shapeOf m = shapeOf n := by
  simp only [shapeOf, first.headerSize, first.slotHeaderSize, first.slotCount, first.slotSize,
    second.headerSize, second.slotHeaderSize, second.slotCount, second.slotSize]

theorem Bridge.Carries.shape (carries : b.Carries o n dev ram s) :
    shapeOf (behind s.ram b.start) = shapeOf n := by
  obtain ⟨g, p, c, published, inv⟩ := carries.ring
  exact published_shape inv.shared.published published

/-- A store of the sender lies in the ring. -/
theorem Bridge.Carries.inside (carries : b.Carries o n dev ram s)
    (header : sizeofHeader ≤ o.capacity) (fits : (shapeOf n).Fits o o.capacity)
    (stepped : stepTx o (behind s.ram b.start) s.tx fails elapsed =
      some (m, tx, .stored addr width p c :: es)) :
    addr + width ≤ o.capacity := by
  have reports := (stepTx_at header carries.sender (fun _ => carries.shape) stepped).2
  exact (reports (.stored addr width) (List.mem_filterMap.mpr ⟨_, List.mem_cons_self, rfl⟩)).2 fits

variable (exposes : Exposes dev b.idx b.base (b.skip + o.capacity))
  (header : sizeofHeader ≤ o.capacity) (fits : (shapeOf n).Fits o o.capacity)
include exposes header

theorem tx_stuck (carries : b.Carries o n dev ram s)
    (stuck : stepTx o (behind s.ram b.start) s.tx fails elapsed = none) :
    b.step o s (.tx fails elapsed) = none := by
  have shown : ∀ f, get (b.view s.dev s.ram) f = get (behind s.ram b.start) f :=
    carries.dev ▸ view_header exposes header
  cases moved : stepTx o (b.view s.dev s.ram) s.tx fails elapsed with
  | none => rw [Bridge.step, moved, Option.bind_none]
  | some next =>
    obtain ⟨m, tx, es⟩ := next
    cases stepTx_alike shown moved with
    | quiet _ stepped =>
      rw [stuck] at stepped
      contradiction
    | stored _ _ stepped =>
      rw [stuck] at stepped
      contradiction

include fits

/-- The sender's step over shared memory, made through the window. -/
theorem tx_made (carries : b.Carries o n dev ram s)
    (moved : stepTx o (behind s.ram b.start) s.tx fails elapsed = some (m, tx, es)) :
    ∃ after, b.step o s (.tx fails elapsed) = some (⟨s.dev, after, s.rx, tx⟩, es) ∧
      behind after b.start = m ∧
      ∀ x, x < b.start ∨ b.start + o.capacity ≤ x → after x = s.ram x := by
  have shown : ∀ f, get (behind s.ram b.start) f = get (b.view s.dev s.ram) f := fun f =>
    (carries.dev ▸ view_header exposes header f).symm
  rw [Bridge.step]
  cases stepTx_alike shown moved with
  | quiet same stepped =>
    refine ⟨s.ram, ?_, same.symm, fun _ _ => rfl⟩
    rw [stepped]
    rfl
  | stored same word stepped =>
    rename_i addr width value _ _ _
    have inside := carries.inside header fits moved
    refine ⟨store s.ram (b.start + addr) width value, ?_, ?_, ?_⟩
    · rw [stepped, Option.bind_some, carries.dev]
      dsimp only
      rw [post_stored exposes _ _ word inside, Option.map_some]
    · rw [store_behind, same]
    · intro x outside
      exact store_outside (by omega)

theorem step_commutes (carries : b.Carries o n dev ram s) (l : Label) :
    (b.step o s l).map (Prod.map b.ring id) = (b.ring s).step o l := by
  cases l with
  | tx fails elapsed =>
    rw [System.step]
    cases moved : stepTx o (behind s.ram b.start) s.tx fails elapsed with
    | none =>
      rw [tx_stuck exposes header carries moved, Bridge.ring, moved, Option.map_none,
        Option.map_none]
    | some next =>
      obtain ⟨m, tx, es⟩ := next
      obtain ⟨after, stepped, shows, -⟩ := tx_made exposes header fits carries moved
      simp only [stepped, Bridge.ring, moved, Option.map_some, Prod.map_apply, id_eq, shows]
  | rx fails =>
    rw [Bridge.step, System.step, Bridge.ring, Option.map_map]
    refine congrArg (Option.map · _) (funext ?_)
    rintro ⟨m, rx, es⟩
    simp only [Function.comp_apply, Prod.map_apply, Bridge.ring, placed_ring, id_eq]

theorem step_carries (carries : b.Carries o n dev ram s) (stepped : b.step o s l = some (t, es)) :
    b.Carries o n dev ram t := by
  have commutes := step_commutes exposes header fits carries l
  rw [stepped, Option.map_some] at commutes
  obtain ⟨g, p, c, published, inv⟩ := carries.ring
  have ring : ∃ g p c, Published g n ∧ Inv o g p c (b.ring t) :=
    ⟨g, _, _, published, (system_step inv commutes.symm).1⟩
  cases l with
  | rx fails =>
    obtain ⟨⟨m, rx, fs⟩, moved, same⟩ := Option.map_eq_some_iff.mp stepped
    cases same
    refine ⟨carries.dev, ring, carries.sender, ?_⟩
    intro x outside
    rw [← carries.outside x outside]
    dsimp only [Bridge.placed]
    split
    · rename_i above
      rw [stepRx_header moved (by omega), behind, Nat.add_sub_cancel' above]
    · rfl
  | tx fails elapsed =>
    cases moved : stepTx o (behind s.ram b.start) s.tx fails elapsed with
    | none =>
      rw [tx_stuck exposes header carries moved] at stepped
      contradiction
    | some next =>
      obtain ⟨m, tx, fs⟩ := next
      obtain ⟨after, made, -, outside⟩ := tx_made exposes header fits carries moved
      cases made.symm.trans stepped
      refine ⟨carries.dev, ring, (stepTx_at header carries.sender (fun _ => carries.shape) moved).1,
        ?_⟩
      exact fun x out => (outside x out).trans (carries.outside x out)

end Runs

/-- Over a window that shows the ring, both programs run as in shared memory, and
nothing else in the receiver's RAM and nothing of the sender's device changes. -/
theorem ring_bridged {b : Bridge} (o : Options)
    (published : publishRing o (behind ram b.start) = some n)
    (exposes : Exposes dev b.idx b.base (b.skip + o.capacity)) (ls : List Label) :
    (run (b.step o) (b.boot dev ram n) ls).map (Prod.map b.ring id) = run (System.step o)
    (.start n) ls ∧
      ∀ t es, run (b.step o) (b.boot dev ram n) ls = some (t, es) → t.dev = dev ∧
        ∀ x, x < b.start ∨ b.start + o.capacity ≤ x → t.ram x = ram x := by
  obtain ⟨g, laid⟩ := publishRing_geometry o published
  have header : sizeofHeader ≤ o.capacity := by
    have roomy := (publishRing_roomy published).1
    omega
  have fits : (shapeOf n).Fits o o.capacity := published_fits published
  have booted : b.ring (b.boot dev ram n) = .start n := by
    rw [Bridge.ring, Bridge.boot, placed_ring, System.start]
  have outside : ∀ x, x < b.start ∨ b.start + o.capacity ≤ x → b.placed ram n x = ram x := by
    intro x out
    unfold Bridge.placed
    split
    · rename_i above
      rw [publishRing_behind published (by omega), behind, Nat.add_sub_cancel' above]
    · rfl
  have carries : b.Carries o n dev ram (b.boot dev ram n) :=
    ⟨rfl, ⟨g, 0, 0, laid.published, booted ▸ start_inv o laid⟩, trivial, outside⟩
  constructor
  · rw [← booted]
    exact run_commutes (fun carries => step_commutes exposes header fits carries _)
      (fun carries stepped => step_carries exposes header fits carries stepped) carries ls
  · intro t es path
    have kept := run_preserves (P := b.Carries o n dev ram)
      (fun carries _ stepped => step_carries exposes header fits carries stepped) carries
        (along_true _ _) path
    exact ⟨kept.dev, kept.outside⟩

/-- The bridge to a buffer at `addr`, over the sender's BAR. -/
def Backend.bridge (backend : Backend) (file : PeerRamFile) (role : Role)
    (shm : SharedMemory) (idx : Fin 6) (addr : BitVec 64) : Bridge :=
  ⟨file, role, shm, idx, addr.toNat, backend.ringOffset⟩

/-- A ring in a buffer for which the receiver's driver has opened a window. The
capacity of the ring is what the buffer has behind the offset of the endpoint. -/
theorem ring_across (o : Options) (backend : Backend) (type64 : BitVec 32 → Bool)
    (own : PeerRamFile) (r : Role)
    (found : checkedGet ndev.mws widx = some mwCfg) (window : MemoryWindow mwCfg.bar)
    (accepted : idtNtbMwSetTrans type64 ndev w r pidx widx addr size = .ok stores)
    (available : RamAvailable file (w.dev r.peer) ramSize)
    (fitting : Fitting ((w.shm.vm r.peer).barConfig mwCfg.bar) ((w.dev r).bars mwCfg.bar)
      ((w.dev r.peer).bars mwCfg.bar) addr size ramSize)
    (holds : backend.ringOffset + o.capacity = size.toNat)
    (published : publishRing o (behind ram (addr.toNat + backend.ringOffset)) = some n) :
    ∃ opened, announce own file r w (idtNtbMwSetTrans type64 ndev w r pidx widx addr size) =
      some opened ∧
      let b := backend.bridge file r.peer opened.shm mwCfg.bar addr
      ∀ ls, (run (b.step o) (b.boot (opened.dev r.peer) ram n) ls).map (Prod.map b.ring id) =
          run (System.step o) (.start n) ls ∧
        ∀ t es, run (b.step o) (b.boot (opened.dev r.peer) ram n) ls = some (t, es) →
          t.dev = opened.dev r.peer ∧
            ∀ x, x < addr.toNat + backend.ringOffset ∨ addr.toNat + size.toNat ≤ x →
              t.ram x = ram x := by
  obtain ⟨opened, opens, exposes⟩ :=
    setTrans_exposes type64 own r found window accepted available fitting
  refine ⟨opened, opens, ?_⟩
  rw [← holds] at exposes ⊢
  simp only [← Nat.add_assoc]
  exact ring_bridged o published exposes

/-- The small ring in a buffer of 145 bytes at 1 MiB, behind a frame header. -/
theorem ring_across_small :
    ∃ opened n t es, announce .absent samplePeer .vm1 (sampleSwitch 0xE0000000 0xE0000000)
        (idtNtbMwSetTrans (fun _ => false) sampleNdev (sampleSwitch 0xE0000000 0xE0000000) .vm1 0 0
          0x100000 145) =
          some opened ∧
      run ((Backend.generic.bridge samplePeer .vm2 opened.shm 2 0x100000).step smallRing)
        ((Backend.generic.bridge samplePeer .vm2 opened.shm 2 0x100000).boot (opened.dev .vm2)
          (fun _ => 0) n)
        smallRun = some (t, es) ∧
      t.rx = ⟨2, .done .success⟩ ∧ t.tx.pc = .done .success ∧ t.ram 0x10000F = 0 := by
  have found : checkedGet sampleNdev.mws 0 = some ⟨.dir, 2, 4, 1, 0x400000⟩ := rfl
  have available :
      RamAvailable samplePeer ((sampleSwitch 0xE0000000 0xE0000000).dev .vm2) 0x800000 :=
    ⟨rfl, rfl, rfl, by decide, by decide, Or.inl rfl, nofun⟩
  obtain ⟨n, published⟩ : ∃ n, publishRing smallRing (behind (fun _ => 0) (0x100000 + 16)) =
    some n := ⟨_, rfl⟩
  have accepted : ∃ stores, idtNtbMwSetTrans (fun _ => false) sampleNdev
      (sampleSwitch 0xE0000000 0xE0000000) .vm1
      0 0 0x100000 145 = .ok stores := ⟨_, rfl⟩
  obtain ⟨stores, accepted⟩ := accepted
  obtain ⟨opened, opens, runs⟩ :=
    ring_across smallRing .generic (fun _ => false) .absent .vm1 found (by decide)
    accepted available (by decide) rfl published
  obtain ⟨same, outside⟩ := runs smallRun
  have ends : (run (System.step smallRing) (.start n) smallRun).map
      (fun out => (out.1.rx, out.1.tx.pc)) = some (⟨2, .done .success⟩, .done .success) := by
    obtain rfl : writeHeader 1 1 (fun _ => 0) = n := Option.some.inj published
    decide +kernel
  rw [← same, Option.map_map] at ends
  obtain ⟨⟨t, es⟩, path, final⟩ := Option.map_eq_some_iff.mp ends
  obtain ⟨received, sent⟩ := Prod.mk.inj final
  refine ⟨opened, n, t, es, opens, path, received, sent, ?_⟩
  exact (outside t es path).2 0x10000F (Or.inl (by decide))

end IdtNtb.Ring
