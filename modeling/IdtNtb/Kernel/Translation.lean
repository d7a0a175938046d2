import IdtNtb.Device.Paths
import IdtNtb.Kernel.MwTrans

/-! Inbound windows end to end: one VM's driver programs the window, the other
VM's device takes it over on the notification, and the other guest stores
through its BAR. The limit is a bus address of the first VM and is compared with
bus addresses of the second. -/
namespace IdtNtb.Kernel
open Device Bytes

/-- A guest's store through BAR `idx`. The alias lies over the I/O region; what
the memory core makes of a store across the alias's end is left open. -/
def barStore (file : PeerRamFile) (r : Role) (s : IVShmemState) (shm : SharedMemory)
    (peerMemory : Memory) (addr value : BitVec 64) (size : Nat) (idx : Fin 6) :
    Option BarWriteResult :=
  let a := s.peerRamAlias idx
  if a.mapped ∧ addr.toNat < a.size.toNat then
    if addr.toNat + size ≤ a.size.toNat then
      let access : Access := ⟨a.offset + addr, size⟩
      some ⟨s, some access, store peerMemory access.offset.toNat size value.toNat⟩
    else none
  else idtBarWrite file r s shm peerMemory addr value size idx

def Arrives (file : PeerRamFile) (r : Role) (w : Switch) (idx : Fin 6) (peerMemory : Memory)
    (addr value : BitVec 64) (size : Nat) (target : BitVec 64) : Prop :=
  ∃ t, barStore file r (w.dev r) w.shm peerMemory addr value size idx =
    some ⟨t, some ⟨target, size⟩, store peerMemory target.toNat size value.toNat⟩

def Refused (file : PeerRamFile) (r : Role) (w : Switch) (idx : Fin 6) (peerMemory : Memory)
    (addr value : BitVec 64) (size : Nat) : Prop :=
  ∃ t, barStore file r (w.dev r) w.shm peerMemory addr value size idx = some ⟨t, none, peerMemory⟩

/-- An aligned store of 4 or 8 bytes inside the BAR. -/
structure AlignedStore (addr : BitVec 64) (size : Nat) : Prop where
  width : size = 4 ∨ size = 8
  aligned : size ∣ addr.toNat
  inside : addr.toNat + size ≤ 2 ^ 22

section Calls
variable (type64 : BitVec 32 → Bool) (ndev : IdtNtbDev) (own file : PeerRamFile) (r : Role)

/-- The call's stores, if it accepts its arguments, and the peer's VM_ID
notification after them. -/
def announce (w : Switch) : Except Errno (List RegisterStore) → Option Switch
  | .ok stores => (program own r w stores).map fun w => (w.notify file r.peer .vmId).1
  | .error _ => none

/-- After the set call the peer's stores inside `size` arrive at `addr` and
those behind it are refused; after the clear call all are. -/
def InboundTranslated (w : Switch) (pidx widx : Int) (addr size : BitVec 64) (idx : Fin 6) : Prop :=
  ∃ opened closed,
    announce own file r w (idtNtbMwSetTrans type64 ndev w r pidx widx addr size) = some opened ∧
    announce own file r opened (idtNtbMwClearTrans type64 ndev opened r pidx widx) = some closed ∧
    ∀ offset width, AlignedStore offset width → ∀ value peerMemory,
      (offset.toNat + width ≤ size.toNat →
        Arrives file r.peer opened idx peerMemory offset value width (addr + offset)) ∧
      (size.toNat ≤ offset.toNat → Refused file r.peer opened idx peerMemory offset value width) ∧
      Refused file r.peer closed idx peerMemory offset value width

end Calls

/-- The bus addresses and sizes that work: equal addresses with a size that no
aligned store meets, a size up to the end of the BAR from an address that is not
lower, and the degenerate sizes for which nothing has to arrive. -/
def Translatable (own peer : BitVec 64) (size : BitVec 64) : Prop :=
  own = peer ∧ size.toNat % 4 ≠ 0 ∨
    2 ^ 22 - 4 < size.toNat ∧ peer ≤ own ∧ own.toNat + size.toNat < 2 ^ 32 ∨
    size.toNat < 4 ∧ own < peer ∨ size = 0 ∧ own = 0 ∧ peer = 0

instance (own peer size : BitVec 64) : Decidable (Translatable own peer size) :=
  inferInstanceAs (Decidable (_ ∨ _ ∨ _ ∨ _))

section Store
variable {file : PeerRamFile} {r : Role} {s : IVShmemState} {c : BARConfig} {idx : Fin 6}
  {addr : BitVec 64}

/-- The I/O path's test, in exact numbers. -/
def Below (c : BARConfig) (base addr : BitVec 64) : Prop :=
  c.limit.toNat ≠ 0 ∧ base.toNat + addr.toNat ≤ c.limit.toNat

theorem admitted_iff (ready : (peerRam file s).isSome)
    (small : (s.bars idx).toNat + addr.toNat < 2 ^ 64) :
    Admitted file s c addr idx ↔ Below c (s.bars idx) addr := by
  have limit : (c.limit.setWidth 64).toNat = c.limit.toNat := by simp; omega
  have active : c.limit ≠ 0 ↔ c.limit.toNat ≠ 0 := by
    rw [ne_eq, ← BitVec.toNat_inj]
    rfl
  rw [Admitted, Below, BitVec.le_def, limit, BitVec.toNat_add, Nat.mod_eq_of_lt small, active]
  simp only [ready, and_true]

theorem alias_extent (fresh : FreshAt s c idx) (mapped : (s.peerRamAlias idx).mapped = true) :
    (s.peerRamAlias idx).offset = c.translation ∧ (s.bars idx).toNat < c.limit.toNat ∧
      (s.peerRamAlias idx).size.toNat = min (2 ^ 22) (c.limit.toNat - (s.bars idx).toNat) := by
  obtain ⟨-, found⟩ := target_eq_some (fresh mapped)
  unfold aliasWindow at found
  split at found
  · rename_i fits
    obtain ⟨offset, size⟩ := Prod.mk.inj (Option.some.inj found)
    obtain ⟨extent, above⟩ := windowSize_toNat fits.1
    exact ⟨offset.symm, above, size ▸ extent⟩
  · contradiction

variable {shm : SharedMemory} (ready : (peerRam file s).isSome)
  (small : (s.bars idx).toNat + addr.toNat < 2 ^ 64)
include ready small

theorem barStore_not_refused (width : size = 4 ∨ size = 8)
    (below : Below ((shm.vm r).barConfig idx) (s.bars idx) addr) :
    ¬∃ t, barStore file r s shm peerMemory addr value size idx = some ⟨t, none, peerMemory⟩ := by
  unfold barStore
  dsimp only
  split
  · split <;> simp
  · obtain ⟨t, served, -⟩ := barAdmit_served ((admitted_iff ready small).mpr below)
    simp only [idtBarWrite, served, width, if_true]
    simp

variable (fresh : FreshAt s ((shm.vm r).barConfig idx) idx)
include fresh

theorem barStore_refused (above : ¬Below ((shm.vm r).barConfig idx) (s.bars idx) addr) :
    barStore file r s shm peerMemory addr value size idx = some ⟨s, none, peerMemory⟩ := by
  have outside :
      ¬((s.peerRamAlias idx).mapped = true ∧ addr.toNat < (s.peerRamAlias idx).size.toNat) := by
    rintro ⟨mapped, covered⟩
    obtain ⟨-, active, extent⟩ := alias_extent fresh mapped
    unfold Below at above
    omega
  have refused := mt (admitted_iff ready small).mp above
  simp only [barStore, outside, if_false, idtBarWrite, barAdmit_refused refused]

theorem barStore_arrives (peerMemory : Memory) (value : BitVec 64) (width : size = 4 ∨ size = 8)
    (inside : addr.toNat + size ≤ 2 ^ 22)
    (below : Below ((shm.vm r).barConfig idx) (s.bars idx) addr)
    (whole : (s.bars idx).toNat + addr.toNat + size ≤ ((shm.vm r).barConfig idx).limit.toNat ∨
      ((shm.vm r).barConfig idx).limit.toNat ≤ (s.bars idx).toNat + addr.toNat) :
    ∃ t, barStore file r s shm peerMemory addr value size idx =
      some ⟨t, some ⟨((shm.vm r).barConfig idx).translation + addr, size⟩,
        store peerMemory (((shm.vm r).barConfig idx).translation + addr).toNat
          size value.toNat⟩ := by
  unfold barStore
  by_cases covered : (s.peerRamAlias idx).mapped = true ∧
    addr.toNat < (s.peerRamAlias idx).size.toNat
  · obtain ⟨offset, active, extent⟩ := alias_extent fresh covered.1
    have fits : addr.toNat + size ≤ (s.peerRamAlias idx).size.toNat := by omega
    simp only [covered, if_true, fits, offset, and_self]
    exact ⟨s, rfl⟩
  · obtain ⟨t, served, -⟩ := barAdmit_served ((admitted_iff ready small).mpr below)
    simp only [covered, if_false, idtBarWrite, served, width, if_true, barAccess]
    exact ⟨t, rfl⟩

end Store

/-- The peer's device after its VM_ID handler: the aliases are those of the
table, its BARs are where they were. -/
theorem notify_fresh (file : PeerRamFile) (w : Switch) (r : Role) (window : MemoryWindow idx) :
    FreshAt ((w.notify file r .vmId).1.dev r) ((w.shm.vm r).barConfig idx) idx ∧
      ((w.notify file r .vmId).1.dev r).bars = (w.dev r).bars := by
  simp only [Switch.notify, ivshmemVectorNotify, kick_eq, Function.update_self]
  have only :=
    refreshAliases_only file r { w.dev r with otherVmId := (w.shm.vm r.peer).id.toInt } w.shm
  obtain ⟨_, _, _, state⟩ := only
  constructor
  · exact refresh_freshAt file r _ w.shm window
  · simp only [IVShmemState.adopt, state]

theorem available_peerRam (available : RamAvailable file s ramSize) (t : IVShmemState) :
    (peerRam file t).isSome := by
  have mapped : mapPeerShm file = some ramSize := by
    have positive := available.positive
    simp [mapPeerShm, available.opens, available.maps, available.size, positive]
  rw [peerRam, mapped]
  cases t.peerMem <;> rfl

theorem translation_split {c : BARConfig} (addr : BitVec 64) (low : c.ltbase = addr.setWidth 32)
    (high : c.utbase = (addr >>> 32).setWidth 32) : c.translation = addr := by
  apply BitVec.eq_of_toNat_eq
  have bound := addr.isLt
  rw [translation_toNat, low, high]
  simp only [BitVec.toNat_setWidth, BitVec.toNat_ushiftRight, Nat.shiftRight_eq_div_pow]
  omega

/-- A BAR of 4 MiB lies at a multiple of its size, here within 32 bits. -/
structure Placed (base : BitVec 64) : Prop where
  aligned : 2 ^ 22 ∣ base.toNat
  inside : base.toNat + 2 ^ 22 ≤ 2 ^ 32

/-- What an accepted set call found. -/
theorem setTrans_accepted (found : checkedGet ndev.mws widx = some mwCfg)
    (accepted : idtNtbMwSetTrans type64 ndev w r pidx widx addr size = .ok stores) :
    ∃ part, checkedGet ndev.peers pidx = some part ∧ mwCfg.type = .dir ∧
      idtNtbMwSetTrans type64 ndev w r pidx widx addr size =
        .ok ([(ConfigRegister.oofTpart, part), (.oofLutoff, BitVec.ofNat 32 mwCfg.bar.val),
          (.oofLdata, addr.setWidth 32), (.oofHdata, (addr >>> 32).setWidth 32),
          (.oofLlimit, ((w.dev r).bars mwCfg.bar + size).setWidth 32)] ++
          if type64 (w.readReg r (.bar .setup mwCfg.bar)) then
            [(ConfigRegister.oofLutoff, BitVec.ofNat 32 (mwCfg.bar.val + 1)),
              (.oofHlimit, (((w.dev r).bars mwCfg.bar + size) >>> 32).setWidth 32)]
          else []) := by
  unfold idtNtbMwSetTrans at accepted ⊢
  rw [found] at accepted ⊢
  cases port : checkedGet ndev.peers pidx with
  | none => simp [port] at accepted
  | some part =>
    refine ⟨part, rfl, ?_⟩
    simp only [port] at accepted ⊢
    split at accepted
    · contradiction
    split at accepted
    · contradiction
    rename_i addrAligned sizeAligned
    rw [if_neg addrAligned, if_neg sizeAligned]
    cases direct : mwCfg.type with
    | dir => exact ⟨rfl, rfl⟩
    | lut => simp [direct] at accepted

/-- The peer after a set call: the entry of the window, taken over by the device. -/
theorem setTrans_peer (found : checkedGet ndev.mws widx = some mwCfg)
    (window : MemoryWindow mwCfg.bar)
    (accepted : idtNtbMwSetTrans type64 ndev w r pidx widx addr size = .ok stores)
    (own file : PeerRamFile) :
    ∃ opened, announce own file r w (idtNtbMwSetTrans type64 ndev w r pidx widx addr size) =
      some opened ∧
      FreshAt (opened.dev r.peer) ((opened.shm.vm r.peer).barConfig mwCfg.bar) mwCfg.bar ∧
      (opened.dev r.peer).bars = (w.dev r.peer).bars ∧
      ((opened.shm.vm r.peer).barConfig mwCfg.bar).translation = addr ∧
      ((opened.shm.vm r.peer).barConfig mwCfg.bar).limit =
        ((w.dev r).bars mwCfg.bar + size).setWidth 32 := by
  obtain ⟨part, -, -, calls⟩ := setTrans_accepted found accepted
  obtain ⟨next, programmed, entry, peer⟩ := program_set w r own (Nat.lt_succ_of_le window.2) part
    (addr.setWidth 32) ((addr >>> 32).setWidth 32) (((w.dev r).bars mwCfg.bar + size).setWidth 32)
    (type64 (w.readReg r (.bar .setup mwCfg.bar)))
    ((((w.dev r).bars mwCfg.bar + size) >>> 32).setWidth 32)
  obtain ⟨fresh, bars⟩ := notify_fresh file next r.peer window
  refine ⟨(next.notify file r.peer .vmId).1, ?_, fresh, bars.trans (congrArg _ peer), ?_, ?_⟩
  · rw [calls, announce, programmed]
    rfl
  · exact translation_split addr (congrArg BARConfig.ltbase entry) (congrArg BARConfig.utbase entry)
  · exact congrArg BARConfig.limit entry

theorem clearTrans_peer (found : checkedGet ndev.mws widx = some mwCfg)
    (window : MemoryWindow mwCfg.bar)
    (port : checkedGet ndev.peers pidx = some part) (direct : mwCfg.type = .dir)
    (type64 : BitVec 32 → Bool) (own file : PeerRamFile) (r : Role) (w : Switch) :
    ∃ closed, announce own file r w (idtNtbMwClearTrans type64 ndev w r pidx widx) = some closed ∧
      FreshAt (closed.dev r.peer) ((closed.shm.vm r.peer).barConfig mwCfg.bar) mwCfg.bar ∧
      (closed.dev r.peer).bars = (w.dev r.peer).bars ∧
      ((closed.shm.vm r.peer).barConfig mwCfg.bar).limit = 0 := by
  obtain ⟨next, programmed, entry, peer⟩ := program_clear w r own (Nat.lt_succ_of_le window.2) part
    (type64 (w.readReg r (.bar .setup mwCfg.bar)))
  obtain ⟨fresh, bars⟩ := notify_fresh file next r.peer window
  refine ⟨(next.notify file r.peer .vmId).1, ?_, fresh, bars.trans (congrArg _ peer), entry⟩
  simp only [idtNtbMwClearTrans, port, found, direct, announce, programmed, Option.map_some]

theorem limit_toNat {c : BARConfig} {base size : BitVec 64}
    (stored : c.limit = (base + size).setWidth 32) :
    c.limit.toNat = (base.toNat + size.toNat) % 2 ^ 32 := by
  rw [stored, BitVec.toNat_setWidth, BitVec.toNat_add]
  omega

section Numbers
variable {base peer size : BitVec 64} {c : BARConfig} (own : Placed base) (other : Placed peer)
  (bound : size.toNat ≤ 2 ^ 22) (stored : c.limit = (base + size).setWidth 32)
include own other bound stored

/-- For addresses that work, the limit admits whole what has to arrive and
nothing that has to be refused. -/
theorem translatable_admits (works : Translatable base peer size)
    (good : AlignedStore offset width) :
    (offset.toNat + width ≤ size.toNat →
      Below c peer offset ∧ peer.toNat + offset.toNat + width ≤ c.limit.toNat) ∧
      (size.toNat ≤ offset.toNat → ¬Below c peer offset) := by
  have limit := limit_toNat stored
  obtain ⟨⟨a, ownMultiple⟩, ownInside⟩ := own
  obtain ⟨⟨b, peerMultiple⟩, peerInside⟩ := other
  obtain ⟨width, aligned, inside⟩ := good
  have word : offset.toNat % 4 = 0 := by rcases width with rfl | rfl <;> omega
  unfold Below
  rcases works with ⟨rfl, ragged⟩ | ⟨whole, below, narrow⟩ | ⟨none, below⟩ | ⟨rfl, rfl, rfl⟩
  · omega
  · rw [BitVec.le_def] at below
    omega
  · rw [BitVec.lt_def] at below
    omega
  · have zero : (0 : BitVec 64).toNat = 0 := rfl
    omega

/-- For all others some store is admitted or refused wrongly. -/
theorem untranslatable_store (fails : ¬Translatable base peer size) :
    ∃ offset : BitVec 64, AlignedStore offset 4 ∧
      (offset.toNat + 4 ≤ size.toNat ∧ ¬Below c peer offset ∨
        size.toNat ≤ offset.toNat ∧ Below c peer offset) := by
  have limit := limit_toNat stored
  obtain ⟨⟨a, ownMultiple⟩, ownInside⟩ := own
  obtain ⟨⟨b, peerMultiple⟩, peerInside⟩ := other
  have toNat_small : ∀ n < 2 ^ 22, (BitVec.ofNat 64 n).toNat = n := by
    intro n small
    rw [BitVec.toNat_ofNat]
    omega
  have placed : ∀ n, 4 ∣ n → n + 4 ≤ 2 ^ 22 → AlignedStore (BitVec.ofNat 64 n) 4 := by
    intro n aligned inside
    refine ⟨Or.inl rfl, ?_, ?_⟩ <;> rw [toNat_small n (by omega)] <;> assumption
  simp only [Translatable, not_or, not_and, ← BitVec.toNat_inj, BitVec.le_def,
    BitVec.lt_def] at fails
  obtain ⟨ragged, whole, none, empty⟩ := fails
  unfold Below
  by_cases wraps : base.toNat + size.toNat = 2 ^ 32
  · refine ⟨BitVec.ofNat 64 0, placed 0 (by decide) (by decide), Or.inl ?_⟩
    rw [toNat_small 0 (by decide)]
    omega
  by_cases lower : base.toNat < peer.toNat
  · by_cases short : size.toNat < 8
    · refine ⟨BitVec.ofNat 64 0, placed 0 (by decide) (by decide), Or.inl ?_⟩
      rw [toNat_small 0 (by decide)]
      omega
    · refine ⟨BitVec.ofNat 64 4, placed 4 (by decide) (by decide), Or.inl ?_⟩
      rw [toNat_small 4 (by decide)]
      omega
  · have fits : size.toNat ≤ 2 ^ 22 - 4 := by omega
    refine ⟨BitVec.ofNat 64 ((size.toNat + 3) / 4 * 4), placed _ (by omega) (by omega), Or.inr ?_⟩
    rw [toNat_small _ (by omega)]
    have zero : (0 : BitVec 64).toNat = 0 := rfl
    omega

end Numbers

section Windows
variable {w : Switch} {r : Role} {idx : Fin 6} {addr size base : BitVec 64}
  (fresh : FreshAt (w.dev r) ((w.shm.vm r).barConfig idx) idx)
  (ready : (peerRam file (w.dev r)).isSome)
  (placed : Placed ((w.dev r).bars idx))
include fresh ready placed

/-- The entry of an opened window, at the device that has taken it over. -/
theorem opened_translates_iff (own : Placed base) (bound : size.toNat ≤ 2 ^ 22)
    (translation : ((w.shm.vm r).barConfig idx).translation = addr)
    (limit : ((w.shm.vm r).barConfig idx).limit = (base + size).setWidth 32) :
    (∀ offset width, AlignedStore offset width → ∀ value peerMemory,
      (offset.toNat + width ≤ size.toNat →
        Arrives file r w idx peerMemory offset value width (addr + offset)) ∧
      (size.toNat ≤ offset.toNat → Refused file r w idx peerMemory offset value width)) ↔
      Translatable base ((w.dev r).bars idx) size := by
  have small : ∀ {offset width}, AlignedStore offset width →
      ((w.dev r).bars idx).toNat + offset.toNat < 2 ^ 64 := by
    intro offset width good
    have inside := placed.inside
    have offsetInside := good.inside
    omega
  constructor
  · intro stores
    by_contra fails
    obtain ⟨offset, good, wrong⟩ := untranslatable_store own placed bound limit fails
    obtain ⟨arrives, refuses⟩ := stores offset 4 good 0 (fun _ => 0)
    rcases wrong with ⟨due, above⟩ | ⟨past, below⟩
    · obtain ⟨t, arrived⟩ := arrives due
      rw [barStore_refused ready (small good) fresh above] at arrived
      simp at arrived
    · exact barStore_not_refused ready (small good) good.width below (refuses past)
  · intro works offset width good value peerMemory
    obtain ⟨admits, rejects⟩ := translatable_admits own placed bound limit works good
    constructor
    · intro due
      obtain ⟨below, whole⟩ := admits due
      have arrived :=
        barStore_arrives ready (small good) fresh peerMemory value good.width good.inside
        below (Or.inl whole)
      rw [translation] at arrived
      exact arrived
    · intro past
      exact ⟨_, barStore_refused ready (small good) fresh (rejects past)⟩

theorem closed_refuses (cleared : ((w.shm.vm r).barConfig idx).limit = 0)
    (good : AlignedStore offset width) : Refused file r w idx peerMemory offset value width := by
  have inside := placed.inside
  have offsetInside := good.inside
  refine ⟨_, barStore_refused ready (by omega) fresh ?_⟩
  rw [Below, cleared]
  exact fun below => below.1 rfl

end Windows

/-- An accepted window of at most 4 MiB over BARs within 32 bits translates
stores end to end exactly when its addresses and size are among those that work. -/
theorem inbound_translated_iff (type64 : BitVec 32 → Bool) (own : PeerRamFile) (r : Role)
    (found : checkedGet ndev.mws widx = some mwCfg) (window : MemoryWindow mwCfg.bar)
    (accepted : idtNtbMwSetTrans type64 ndev w r pidx widx addr size = .ok stores)
    (available : RamAvailable file (w.dev r.peer) ramSize) (bound : size.toNat ≤ 2 ^ 22)
    (base : Placed ((w.dev r).bars mwCfg.bar)) (peer : Placed ((w.dev r.peer).bars mwCfg.bar)) :
    InboundTranslated type64 ndev own file r w pidx widx addr size mwCfg.bar ↔
      Translatable ((w.dev r).bars mwCfg.bar) ((w.dev r.peer).bars mwCfg.bar) size := by
  obtain ⟨part, port, direct, -⟩ := setTrans_accepted found accepted
  obtain ⟨opened, opens, fresh, bars, translation, limit⟩ :=
    setTrans_peer found window accepted own file
  obtain ⟨closed, closes, refreshed, moved, cleared⟩ :=
    clearTrans_peer found window port direct type64 own file r opened
  rw [← bars] at peer ⊢
  rw [← opened_translates_iff fresh (available_peerRam available _) peer base bound
    translation limit]
  constructor
  · rintro ⟨opened', closed', opens', -, stores⟩ offset width good value peerMemory
    obtain rfl := Option.some.inj (opens.symm.trans opens')
    obtain ⟨arrives, refuses, -⟩ := stores offset width good value peerMemory
    exact ⟨arrives, refuses⟩
  · intro works
    refine ⟨opened, closed, opens, closes, ?_⟩
    intro offset width good value peerMemory
    obtain ⟨arrives, refuses⟩ := works offset width good value peerMemory
    rw [← moved] at peer
    exact ⟨arrives, refuses,
      closed_refuses refreshed (available_peerRam available _) peer cleared good⟩

def sampleSwitch (own peer : BitVec 64) : Switch :=
  { Switch.realized with
    dev := fun r => { Switch.realized.dev r with bars := fun _ => if r = .vm1 then own else peer } }

def sampleNdev : IdtNtbDev := ⟨[1], [⟨.dir, 2, 4, 1, 0x400000⟩]⟩

def samplePeer : PeerRamFile := ⟨true, some 0x800000, true⟩

theorem inbound_translated_whole_bar :
    InboundTranslated (fun _ => false) sampleNdev .absent samplePeer .vm1
      (sampleSwitch 0xE0000000 0xE0000000) 0 0 0x100000 0x400000 2 := by
  have found : checkedGet sampleNdev.mws 0 = some ⟨.dir, 2, 4, 1, 0x400000⟩ := rfl
  have available :
      RamAvailable samplePeer ((sampleSwitch 0xE0000000 0xE0000000).dev .vm2) 0x800000 :=
    ⟨rfl, rfl, rfl, by decide, by decide, Or.inl rfl, nofun⟩
  refine (inbound_translated_iff (fun _ => false) .absent .vm1 found (by decide) rfl available
    (by decide) ⟨?_, ?_⟩ ⟨?_, ?_⟩).mpr ?_
  all_goals decide

/-- What becomes of the second guest's 4-byte store at `offset` after the first
one's set call for 64 KiB at 1 MiB. -/
def stored (own peer offset : BitVec 64) : Option (Option Access) :=
  (announce .absent samplePeer .vm1 (sampleSwitch own peer)
    (idtNtbMwSetTrans (fun _ => false) sampleNdev
    (sampleSwitch own peer) .vm1 0 0 0x100000 0x10000)).bind fun opened =>
      (barStore samplePeer .vm2 (opened.dev .vm2) opened.shm (fun _ => 0) offset 7 4 2).map
        (·.access)

/-- A store behind the window is served, or one inside it is refused. -/
theorem stored_wrong (offset : BitVec 64) (good : AlignedStore offset 4)
    (wrong : (0x10000 ≤ offset.toNat ∧ ∃ access, stored own peer offset = some (some access)) ∨
      offset.toNat + 4 ≤ 0x10000 ∧ stored own peer offset = some none) :
    ¬InboundTranslated (fun _ => false) sampleNdev .absent samplePeer .vm1 (sampleSwitch own peer)
      0 0 0x100000 0x10000 2 := by
  rintro ⟨opened, closed, opens, -, stores⟩
  obtain ⟨arrives, refuses, -⟩ := stores offset 4 good 7 (fun _ => 0)
  simp only [stored, opens, Option.bind_some] at wrong
  rcases wrong with ⟨past, access, served⟩ | ⟨due, refused⟩
  · obtain ⟨t, refused⟩ := refuses past
    rw [show Role.vm1.peer = .vm2 from rfl] at refused
    rw [refused] at served
    simp at served
  · obtain ⟨t, arrived⟩ := arrives due
    rw [show Role.vm1.peer = .vm2 from rfl] at arrived
    rw [arrived] at refused
    simp at refused

/-- With equal bus addresses a store at the end of the window is served. With
the first guest's BAR above the second's one far behind it is served, too; with
the BARs exchanged the first word of the window is refused. -/
theorem inbound_translation_broken :
    ¬InboundTranslated (fun _ => false) sampleNdev .absent samplePeer .vm1
      (sampleSwitch 0xE0000000 0xE0000000) 0 0 0x100000 0x10000 2 ∧
    ¬InboundTranslated (fun _ => false) sampleNdev .absent samplePeer .vm1
      (sampleSwitch 0xE0400000 0xE0000000) 0 0 0x100000 0x10000 2 ∧
    ¬InboundTranslated (fun _ => false) sampleNdev .absent samplePeer .vm1
      (sampleSwitch 0xE0000000 0xE0400000) 0 0 0x100000 0x10000 2 := by
  refine ⟨?_, ?_, ?_⟩
  · exact stored_wrong 0x10000 ⟨by decide, by decide, by decide⟩
      (Or.inl ⟨by decide, ⟨0x110000, 4⟩, by decide +kernel⟩)
  · exact stored_wrong 0x3FFFFC ⟨by decide, by decide, by decide⟩
      (Or.inl ⟨by decide, ⟨0x4FFFFC, 4⟩, by decide +kernel⟩)
  · exact stored_wrong 0 ⟨by decide, by decide, by decide⟩
      (Or.inr ⟨by decide, by decide +kernel⟩)

end IdtNtb.Kernel
