import IdtNtb.Kernel.Ntb
import IdtNtb.Device.Handlers

/-! The out-of-spec inbound window calls that the repository's patch adds to the
IDT driver. A call reads BARSETUP of its own device and then makes a sequence of
register stores, which the device turns into an entry of the peer's BAR table. -/
namespace IdtNtb.Kernel
open Device

inductive IdtMwType where
  | dir
  | lut
  deriving DecidableEq

structure IdtMwCfg where
  type : IdtMwType
  bar : Fin 6
  addrAlign : BitVec 64
  sizeAlign : BitVec 64
  sizeMax : BitVec 64

/-- What the calls use of `struct idt_ntb_dev`: the partition of each peer port
and the memory windows. -/
structure IdtNtbDev where
  peers : List (BitVec 32)
  mws : List IdtMwCfg

/-- The element at a C index that has been checked against both ends. -/
def checkedGet (xs : List α) (i : Int) : Option α :=
  if i < 0 ∨ xs.length ≤ i then none else xs[i.toNat]?

def IsAligned (x a : BitVec 64) : Prop := x &&& (a - 1) = 0

instance (x a : BitVec 64) : Decidable (IsAligned x a) := inferInstanceAs (Decidable (_ = _))

abbrev RegisterStore := ConfigRegister × BitVec 32

section Calls
-- `IS_FLD_SET(BARSETUP_TYPE, data, 64)`, from the driver's own header.
variable (type64 : BitVec 32 → Bool) (ndev : IdtNtbDev)

/-- `idt_ntb_mw_set_trans` on device `r`: an error, or the register stores in order. -/
def idtNtbMwSetTrans (w : Switch) (r : Role) (pidx widx : Int) (addr size : BitVec 64) :
    Except Errno (List RegisterStore) :=
  match checkedGet ndev.peers pidx, checkedGet ndev.mws widx with
  | some part, some mwCfg =>
      if ¬IsAligned addr mwCfg.addrAlign then .error .einval
      else if ¬IsAligned size mwCfg.sizeAlign ∨ mwCfg.sizeMax < size then .error .einval
      else match mwCfg.type with
        | .dir =>
            let data := w.readReg r (.bar .setup mwCfg.bar)
            let limit := (w.dev r).bars mwCfg.bar + size
            .ok ([(.oofTpart, part), (.oofLutoff, BitVec.ofNat 32 mwCfg.bar.val),
              (.oofLdata, addr.setWidth 32), (.oofHdata, (addr >>> 32).setWidth 32),
              (.oofLlimit, limit.setWidth 32)] ++
              if type64 data then
                [(.oofLutoff, BitVec.ofNat 32 (mwCfg.bar.val + 1)),
                  (.oofHlimit, (limit >>> 32).setWidth 32)]
              else [])
        | .lut => .error .einval
  | _, _ => .error .einval

def idtNtbMwClearTrans (w : Switch) (r : Role) (pidx widx : Int) :
    Except Errno (List RegisterStore) :=
  match checkedGet ndev.peers pidx, checkedGet ndev.mws widx with
  | some part, some mwCfg =>
      match mwCfg.type with
      | .dir =>
          let data := w.readReg r (.bar .setup mwCfg.bar)
          .ok ([(.oofTpart, part), (.oofLutoff, BitVec.ofNat 32 mwCfg.bar.val), (.oofLlimit, 0)] ++
            if type64 data then [(.oofLutoff, BitVec.ofNat 32 (mwCfg.bar.val + 1)), (.oofHlimit, 0)]
            else [])
      | .lut => .error .einval
  | _, _ => .error .einval

end Calls

def program (file : PeerRamFile) (r : Role) : Switch → List RegisterStore → Option Switch
  | w, [] => some w
  | w, (reg, val) :: stores => (w.writeReg file r reg val).bind fun w => program file r w stores

theorem program_cons (written : w.writeReg file r reg val = some next)
    (stores : List RegisterStore) :
    program file r w ((reg, val) :: stores) = program file r next stores := by
  rw [program, written, Option.bind_some]

theorem program_append (first : program file r w stores = some middle)
    (second : program file r middle more = some next) :
    program file r w (stores ++ more) = some next := by
  induction stores generalizing w with
  | nil =>
    cases first
    exact second
  | cons store stores ih =>
    obtain ⟨after, written, rest⟩ := Option.bind_eq_some_iff.mp first
    exact Option.bind_eq_some_iff.mpr ⟨after, written, ih rest⟩

/-- Device `r` has latched an index and left its peer's table so; the peer's
process is where it was. -/
structure Programmed (w₀ : Switch) (r : Role) (index : BitVec 32) (table : Fin 6 → BARConfig)
    (w : Switch) : Prop where
  latched : (w.dev r).lregs.inboundMwBar = index
  table : (w.shm.vm r.peer).barConfig = table
  peer : w.dev r.peer = w₀.dev r.peer

theorem program_start (w : Switch) (r : Role) :
    Programmed w r (w.dev r).lregs.inboundMwBar (w.shm.vm r.peer).barConfig w :=
  ⟨rfl, rfl, rfl⟩

theorem programmed_tpart (so : Programmed w₀ r index table w) (file : PeerRamFile)
    (val : BitVec 32) :
    ∃ next, w.writeReg file r .oofTpart val = some next ∧ Programmed w₀ r index table next := by
  obtain ⟨latched, entries, peer⟩ := so
  refine ⟨_, by simp only [Switch.writeReg, Switch.write, ivshmemIoWrite, decode_addr,
    Option.map_some]; rfl, ?_⟩
  refine ⟨?_, ?_, ?_⟩
  · simpa using latched
  · simpa using entries
  · simpa using peer

theorem programmed_lutoff (so : Programmed w₀ r index table w) (file : PeerRamFile)
    (val : BitVec 32) :
    ∃ next, w.writeReg file r .oofLutoff val = some next ∧ Programmed w₀ r val table next := by
  obtain ⟨latched, entries, peer⟩ := so
  refine ⟨_, by simp only [Switch.writeReg, Switch.write, ivshmemIoWrite, decode_addr,
    Option.map_some]; rfl, ?_⟩
  refine ⟨?_, ?_, ?_⟩
  · simp
  · simpa using entries
  · simpa using peer

theorem programmed_data (reg : ConfigRegister) (so : Programmed w₀ r index table w)
    (inside : index.toNat < 6)
    (data : reg.inboundField = some field) (file : PeerRamFile) (val : BitVec 32) :
    ∃ next, w.writeReg file r reg val = some next ∧
      Programmed w₀ r index
        (Function.update table ⟨index.toNat, inside⟩ ((table ⟨index.toNat, inside⟩).set val field))
          next := by
  obtain ⟨rfl, rfl, peer⟩ := so
  have narrow : (val.setWidth 64).setWidth 32 = val := by simp
  refine ⟨_, by
    simp only [Switch.writeReg, Switch.write, ioWrite_inbound data, writeInboundWindow,
      storeBar_inside _ _ _ _ _ inside, narrow, notify_eq, Option.map_some]
    rfl, ?_⟩
  refine ⟨?_, ?_, ?_⟩
  · simp [IVShmemState.adopt]
  · simp [SharedMemory.setBar]
  · simpa using peer

/-- The limit of the next BAR, which a 64-bit window has stored as well. -/
theorem program_upper (so : Programmed w₀ r index table w) (file : PeerRamFile)
    (below : idx.val < 5) (wide : Bool) (upper : BitVec 32) :
    ∃ next, program file r w (if wide then
        [(.oofLutoff, BitVec.ofNat 32 (idx.val + 1)), (.oofHlimit, upper)] else []) = some next ∧
      (next.shm.vm r.peer).barConfig idx = table idx ∧ next.dev r.peer = w₀.dev r.peer := by
  cases wide with
  | false => exact ⟨w, rfl, congrFun so.table idx, so.peer⟩
  | true =>
    have position : (BitVec.ofNat 32 (idx.val + 1)).toNat = idx.val + 1 := by simp; omega
    obtain ⟨latched, first, so⟩ := programmed_lutoff so file (BitVec.ofNat 32 (idx.val + 1))
    obtain ⟨next, second, so⟩ :=
      programmed_data .oofHlimit so (by omega) rfl file upper
    refine ⟨next, ?_, ?_, so.peer⟩
    · rw [if_pos rfl, program_cons first, program_cons second, program]
    · rw [so.table, Function.update_of_ne]
      intro same
      have index := congrArg Fin.val same
      simp only [position] at index
      omega

theorem index_toNat (idx : Fin 6) : (BitVec.ofNat 32 idx.val).toNat = idx.val := by
  simp
  omega

/-- The stores of a set call put base and limit into the peer's entry. -/
theorem program_set (w : Switch) (r : Role) (file : PeerRamFile) (below : idx.val < 5)
    (part low high limit : BitVec 32) (wide : Bool) (upper : BitVec 32) :
    ∃ next, program file r w
      ([(ConfigRegister.oofTpart, part), (.oofLutoff, BitVec.ofNat 32 idx.val),
        (.oofLdata, low), (.oofHdata, high), (.oofLlimit, limit)] ++
        if wide then
          [(ConfigRegister.oofLutoff, BitVec.ofNat 32 (idx.val + 1)), (.oofHlimit, upper)]
        else []) = some next ∧
      (next.shm.vm r.peer).barConfig idx =
        { (w.shm.vm r.peer).barConfig idx with ltbase := low, utbase := high, limit := limit } ∧
      next.dev r.peer = w.dev r.peer := by
  have position := index_toNat idx
  generalize BitVec.ofNat 32 idx.val = index at position ⊢
  have inside : index.toNat < 6 := by omega
  have entry : (⟨index.toNat, inside⟩ : Fin 6) = idx := Fin.ext position
  obtain ⟨w₁, first, so⟩ := programmed_tpart (program_start w r) file part
  obtain ⟨w₂, second, so⟩ := programmed_lutoff so file index
  obtain ⟨w₃, third, so⟩ := programmed_data .oofLdata so inside rfl file low
  obtain ⟨w₄, fourth, so⟩ := programmed_data .oofHdata so inside rfl file high
  obtain ⟨w₅, fifth, so⟩ := programmed_data .oofLlimit so inside rfl file limit
  obtain ⟨next, last, stored, peer⟩ := program_upper so file below wide upper
  refine ⟨next, program_append ?_ last, ?_, peer⟩
  · rw [program_cons first, program_cons second, program_cons third, program_cons fourth,
      program_cons fifth, program]
  · rw [stored, entry]
    simp only [Function.update_self, BARConfig.set]

theorem program_clear (w : Switch) (r : Role) (file : PeerRamFile) (below : idx.val < 5)
    (part : BitVec 32) (wide : Bool) :
    ∃ next, program file r w
      ([(ConfigRegister.oofTpart, part), (.oofLutoff, BitVec.ofNat 32 idx.val),
        (.oofLlimit, 0)] ++
        if wide then [(ConfigRegister.oofLutoff, BitVec.ofNat 32 (idx.val + 1)), (.oofHlimit, 0)]
        else []) = some next ∧
      ((next.shm.vm r.peer).barConfig idx).limit = 0 ∧ next.dev r.peer = w.dev r.peer := by
  have position := index_toNat idx
  generalize BitVec.ofNat 32 idx.val = index at position ⊢
  have inside : index.toNat < 6 := by omega
  have entry : (⟨index.toNat, inside⟩ : Fin 6) = idx := Fin.ext position
  obtain ⟨w₁, first, so⟩ := programmed_tpart (program_start w r) file part
  obtain ⟨w₂, second, so⟩ := programmed_lutoff so file index
  obtain ⟨w₃, third, so⟩ := programmed_data .oofLlimit so inside rfl file 0
  obtain ⟨next, last, stored, peer⟩ := program_upper so file below wide 0
  refine ⟨next, program_append ?_ last, ?_, peer⟩
  · rw [program_cons first, program_cons second, program_cons third, program]
  · rw [stored, entry]
    simp only [Function.update_self, BARConfig.set]

end IdtNtb.Kernel
