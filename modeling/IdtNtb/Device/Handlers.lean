import IdtNtb.Device.Mmio

/-! What each handler does, said once. Signalling the peer changes only the
peer id that the device knows, and a BAR 0 store has one of a few shapes. -/
namespace IdtNtb.Device

/-- The peer id after the lookup of `idt_peer_eventfd_ready`. -/
def adoptedId (r : Role) (s : IVShmemState) (shm : SharedMemory) : Int :=
  let shared := (shm.vm r.peer).id.toInt
  if s.otherVmId = -1 ∧ s.attached ∧ 0 ≤ shared ∧ shared < s.peers.length ∧
    shared ≠ s.vmId then shared
  else s.otherVmId

theorem adoptedId_congr (s : IVShmemState) (word : (m.vm r.peer).id = (shm.vm r.peer).id) :
    adoptedId r s m = adoptedId r s shm := by
  simp only [adoptedId, word]

def IVShmemState.adopt (s : IVShmemState) (r : Role) (shm : SharedMemory) : IVShmemState :=
  { s with otherVmId := adoptedId r s shm }

/-- How many descriptors of the peer with the given id have arrived. -/
def IVShmemState.registered (s : IVShmemState) (peer : Int) : Nat :=
  if peer < 0 ∨ s.peers.length ≤ peer then 0
  else ((s.peers[peer.toNat]?).map Peer.nbEventfds).getD 0

/-- The peer's block has an interrupt bit that the shared mask lets through. -/
def Unmasked (r : Role) (shm : SharedMemory) : Prop :=
  (shm.vm r.peer).regs.intsts &&& (~~~shm.gregs.ntIntMask).setWidth 64 ≠ 0

instance (r : Role) (shm : SharedMemory) : Decidable (Unmasked r shm) :=
  inferInstanceAs (Decidable (_ ≠ _))

theorem unmasked_of_bit (bound : k < 32) (pending : (shm.vm r.peer).regs.intsts.getLsbD k = true)
    (uncovered : shm.gregs.ntIntMask.getLsbD k = false) : Unmasked r shm := by
  have bit :
      ((shm.vm r.peer).regs.intsts &&& (~~~shm.gregs.ntIntMask).setWidth 64).getLsbD k = true := by
    rw [BitVec.getLsbD_and, BitVec.getLsbD_setWidth, BitVec.getLsbD_not, pending, uncovered]
    simp [bound, Nat.lt_trans bound]
  intro zero
  rw [zero] at bit
  simp at bit

theorem eventfdReady_eq (r : Role) (s : IVShmemState) (shm : SharedMemory) (vector : Nat) :
    idtPeerEventfdReady r s shm vector =
      (s.adopt r shm, decide (vector < s.registered (adoptedId r s shm))) := by
  have adopted : (if s.otherVmId = -1 ∧ s.attached ∧ 0 ≤ (shm.vm r.peer).id.toInt ∧
      (shm.vm r.peer).id.toInt < s.peers.length ∧ (shm.vm r.peer).id.toInt ≠ s.vmId then
        { s with otherVmId := (shm.vm r.peer).id.toInt } else s) = s.adopt r shm := by
    unfold IVShmemState.adopt adoptedId
    dsimp only
    split <;> rfl
  simp only [idtPeerEventfdReady, adopted]
  by_cases outside : adoptedId r s shm < 0 ∨ s.peers.length ≤ adoptedId r s shm
  · have none : s.registered (adoptedId r s shm) = 0 := if_pos outside
    simp only [none, Nat.not_lt_zero, decide_false]
    exact if_pos outside
  · have arrived : s.registered (adoptedId r s shm) = _ := if_neg outside
    simp only [arrived]
    exact if_neg outside

theorem adopt_detached (r : Role) (s : IVShmemState) (shm : SharedMemory) (detached : ¬s.attached) :
    s.adopt r shm = s := by
  have kept : adoptedId r s shm = s.otherVmId := if_neg fun found => detached found.2.1
  rw [IVShmemState.adopt, kept]

/-- A kick adopts the peer's id and signals it when an unmasked bit is pending
and the peer's interrupt descriptor has arrived. -/
theorem kick_eq (r : Role) (s : IVShmemState) (shm : SharedMemory) :
    idtKickPeerInterrupt r s shm =
      (s.adopt r shm,
        if s.attached ∧ eventfdInterruptHost < s.registered (adoptedId r s shm) ∧
        Unmasked r shm then
          [.eventNotifierSet (adoptedId r s shm) eventfdInterruptHost]
        else []) := by
  by_cases attached : s.attached
  · simp only [idtKickPeerInterrupt, attached, if_true, eventfdReady_eq,
      decide_eq_true_eq, Unmasked, true_and]
    split <;> rfl
  · simp only [idtKickPeerInterrupt, attached, adopt_detached r s shm attached, Bool.false_eq_true,
      false_and, if_false]

def SharedMemory.pend (shm : SharedMemory) (r : Role) (bit : BitVec 32) : SharedMemory :=
  shm.mapRegs r fun g => { g with intsts := g.intsts ||| bit.setWidth 64 }

theorem mapRegs_id (m : SharedMemory) (r : Role) (f : SharedRegisters → SharedRegisters)
    (q : Role) :
    ((m.mapRegs r f).vm q).id = (m.vm q).id := by
  rcases Role.eq_or_peer r q with rfl | rfl
  · simp [SharedMemory.mapRegs]
  · rw [mapRegs_peer]

theorem mapRegs_barConfig (m : SharedMemory) (r : Role) (f : SharedRegisters → SharedRegisters)
    (q : Role) : ((m.mapRegs r f).vm q).barConfig = (m.vm q).barConfig := by
  rcases Role.eq_or_peer r q with rfl | rfl
  · simp [SharedMemory.mapRegs]
  · rw [mapRegs_peer]

theorem setBar_regs (m : SharedMemory) (r : Role) (i : Fin 6) (field : BarField) (v : BitVec 32)
    (q : Role) : ((m.setBar r i field v).vm q).regs = (m.vm q).regs := by
  rcases Role.eq_or_peer r q with rfl | rfl
  · simp [SharedMemory.setBar]
  · simp [SharedMemory.setBar, mapVm_other]

/-- A register that the update keeps in `r`'s block is kept in both. -/
theorem mapRegs_field (field : SharedRegisters → β) (m : SharedMemory) (r : Role)
    (f : SharedRegisters → SharedRegisters) (same : field (f (m.vm r).regs) = field (m.vm r).regs)
    (q : Role) : field ((m.mapRegs r f).vm q).regs = field (m.vm q).regs := by
  rcases Role.eq_or_peer r q with rfl | rfl
  · rw [mapRegs_same, same]
  · rw [mapRegs_peer]

@[simp] theorem pend_id (m : SharedMemory) (r q : Role) (bit : BitVec 32) :
    ((m.pend r bit).vm q).id = (m.vm q).id :=
  mapRegs_id m r _ q

@[simp] theorem pend_barConfig (m : SharedMemory) (r q : Role) (bit : BitVec 32) :
    ((m.pend r bit).vm q).barConfig = (m.vm q).barConfig :=
  mapRegs_barConfig m r _ q

@[simp] theorem pend_gregs (m : SharedMemory) (r : Role) (bit : BitVec 32) :
    (m.pend r bit).gregs = m.gregs :=
  rfl

@[simp] theorem pend_peer (m : SharedMemory) (r : Role) (bit : BitVec 32) :
    (m.pend r bit).vm r.peer = m.vm r.peer :=
  mapRegs_peer m r _

@[simp] theorem pend_msgsts (m : SharedMemory) (r q : Role) (bit : BitVec 32) :
    ((m.pend r bit).vm q).regs.msgsts = (m.vm q).regs.msgsts :=
  mapRegs_field SharedRegisters.msgsts m r _ rfl q

@[simp] theorem pend_msgstsMask (m : SharedMemory) (r q : Role) (bit : BitVec 32) :
    ((m.pend r bit).vm q).regs.msgstsMask = (m.vm q).regs.msgstsMask :=
  mapRegs_field SharedRegisters.msgstsMask m r _ rfl q

@[simp] theorem pend_msg (m : SharedMemory) (r q : Role) (bit : BitVec 32) :
    ((m.pend r bit).vm q).regs.msg = (m.vm q).regs.msg :=
  mapRegs_field SharedRegisters.msg m r _ rfl q

@[simp] theorem pend_inbMsgSrc (m : SharedMemory) (r q : Role) (bit : BitVec 32) :
    ((m.pend r bit).vm q).regs.inbMsgSrc = (m.vm q).regs.inbMsgSrc :=
  mapRegs_field SharedRegisters.inbMsgSrc m r _ rfl q

theorem pend_intsts (m : SharedMemory) (r : Role) (bit : BitVec 32) :
    ((m.pend r bit).vm r).regs.intsts = (m.vm r).regs.intsts ||| bit.setWidth 64 := by
  simp [SharedMemory.pend]

theorem raise_eq (r : Role) (s : IVShmemState) (shm : SharedMemory) (bit : BitVec 32) :
    idtRaisePeerInterrupt r s shm bit =
      (s.adopt r (shm.pend r.peer bit), shm.pend r.peer bit,
        (idtKickPeerInterrupt r s (shm.pend r.peer bit)).2) := by
  have kicked : (idtKickPeerInterrupt r s (shm.pend r.peer bit)).1 = s.adopt r
      (shm.pend r.peer bit) := by
    rw [kick_eq]
  exact Prod.ext kicked rfl

theorem notify_eq (r : Role) (s : IVShmemState) (shm : SharedMemory) :
    idtNotifyPeerBarConfigChanged r s shm =
      (s.adopt r shm,
        if eventfdVmId < s.registered (adoptedId r s shm) then
          [.eventNotifierSet (adoptedId r s shm) eventfdVmId]
        else []) := by
  simp only [idtNotifyPeerBarConfigChanged, eventfdReady_eq, decide_eq_true_eq]
  split <;> rfl

def SharedMemory.refuse (shm : SharedMemory) (r : Role) (i : Fin 4) : SharedMemory :=
  shm.mapRegs r fun g => { g with msgsts := g.msgsts ||| (fieldBit (outmsgsts i)).setWidth 64 }

def SharedMemory.deliver (shm : SharedMemory) (r : Role) (i : Fin 4) (val : BitVec 64) :
    SharedMemory :=
  shm.mapRegs r.peer fun g =>
    { g with
      msg := Function.update g.msg i val
      msgsts := g.msgsts ||| (fieldBit (inmsgsts i)).setWidth 64
      inbMsgSrc := Function.update g.inbMsgSrc i ((shm.vm r).regs.inboundMwPart.setWidth 64) }

/-- One of the two masks between an arriving message and its interrupt is set. -/
def MsgMasked (shm : SharedMemory) (r : Role) (i : Fin 4) : Prop :=
  (shm.vm r).regs.msgstsMask.getLsbD (inmsgsts i) = true ∨ shm.gregs.ntIntMask.getLsbD 0 = true

instance (shm : SharedMemory) (r : Role) (i : Fin 4) : Decidable (MsgMasked shm r i) :=
  inferInstanceAs (Decidable (_ ∨ _))

inductive Sent (r : Role) (s : IVShmemState) (shm : SharedMemory) (i : Fin 4) (val : BitVec 64) :
    IVShmemState → SharedMemory → List Effect → Prop
  | refused (busy : inBusy shm r.peer i = true) : Sent r s shm i val s (shm.refuse r i) []
  | reported (busy : inBusy shm r.peer i = true) :
      Sent r s shm i val s ((shm.refuse r i).pend r ntintstsMsg) [.msiNotify 0]
  | masked (free : inBusy shm r.peer i = false) (hidden : MsgMasked shm r.peer i) :
      Sent r s shm i val s (shm.deliver r i val) []
  | raised (free : inBusy shm r.peer i = false)
      (raise : idtRaisePeerInterrupt r s (shm.deliver r i val) ntintstsMsg = (t, m, effects)) :
      Sent r s shm i val t m effects

theorem not_test_iff (x : BitVec 64) (bound : n < 32) :
    ~~~x &&& (fieldBit n).setWidth 64 ≠ 0 ↔ x.getLsbD n = false := by
  have inside : n < 64 := by omega
  rw [testBit_iff _ bound]
  simp [inside]

/-- The same for a bit of the shared mask. -/
theorem not_mask_iff (x : BitVec 32) (bound : n < 32) :
    ~~~x &&& fieldBit n ≠ 0 ↔ x.getLsbD n = false := by
  constructor
  · intro nonzero
    by_contra set
    apply nonzero
    apply BitVec.eq_of_getLsbD_eq
    intro k inside
    rw [BitVec.getLsbD_and, fieldBit_getLsbD bound]
    by_cases same : k = n
    · subst same
      have bit : x.getLsbD k = true := by simpa using set
      simp [bit]
    · simp [same]
  · intro clear zero
    have value : (~~~x &&& fieldBit n).getLsbD n = false := by simp [zero]
    rw [BitVec.getLsbD_and, fieldBit_getLsbD bound, BitVec.getLsbD_not, clear] at value
    simp [bound] at value

theorem not_test_msg (x : BitVec 32) : ~~~x &&& ntintstsMsg ≠ 0 ↔ x.getLsbD 0 = false :=
  not_mask_iff (n := 0) x (by decide)

/-- A refused message is reported to its sender. -/
theorem outmsg_busy (busy : inBusy m r.peer i = true) :
    writeOutboundMsg r s m i val =
      if ((m.vm r).regs.msgstsMask &&& (~~~fieldBit (outmsgsts i)).setWidth 64 ≠ 0 ∧
          ~~~m.gregs.ntIntMask &&& ntintstsMsg ≠ 0) then
        (s, (m.refuse r i).pend r ntintstsMsg, [.msiNotify 0])
      else (s, m.refuse r i, []) := by
  rw [writeOutboundMsg, if_pos ((testBit_iff _ (inmsgsts_lt i)).mpr busy)]
  simp only [mapRegs_same]
  rfl

theorem outmsg_free (free : inBusy m r.peer i = false) :
    writeOutboundMsg r s m i val =
      if (~~~(m.vm r.peer).regs.msgstsMask &&& (fieldBit (inmsgsts i)).setWidth 64 ≠ 0 ∧
          ~~~m.gregs.ntIntMask &&& ntintstsMsg ≠ 0) then
        idtRaisePeerInterrupt r s (m.deliver r i val) ntintstsMsg
      else (s, m.deliver r i val, []) := by
  have clear : ¬(m.vm r.peer).regs.msgsts &&& (fieldBit (inmsgsts i)).setWidth 64 ≠ 0 := by
    intro set
    exact absurd (free.symm.trans ((testBit_iff _ (inmsgsts_lt i)).mp set)) nofun
  rw [writeOutboundMsg, if_neg clear]
  simp only [mapRegs_same]
  rfl

theorem outmsg_sent (sent : writeOutboundMsg r s shm i val = (t, m, effects)) :
    Sent r s shm i val t m effects := by
  cases busy : inBusy shm r.peer i with
  | true =>
    rw [outmsg_busy busy] at sent
    split at sent
    · cases sent
      exact .reported busy
    · cases sent
      exact .refused busy
  | false =>
    rw [outmsg_free busy] at sent
    split at sent
    · exact .raised busy sent
    · rename_i hidden
      cases sent
      refine .masked busy ?_
      rw [not_test_iff _ (inmsgsts_lt i), not_test_msg] at hidden
      unfold MsgMasked
      by_contra neither
      simp only [not_or, Bool.not_eq_true] at neither
      exact hidden neither

/-- The two blocks agree on ids, BAR tables, message and interrupt registers
and the interrupt mask. -/
structure Aside (m n : SharedMemory) : Prop where
  mask : n.gregs.ntIntMask = m.gregs.ntIntMask
  id : ∀ q, (n.vm q).id = (m.vm q).id
  bars : ∀ q, (n.vm q).barConfig = (m.vm q).barConfig
  msgsts : ∀ q, (n.vm q).regs.msgsts = (m.vm q).regs.msgsts
  msgstsMask : ∀ q, (n.vm q).regs.msgstsMask = (m.vm q).regs.msgstsMask
  msg : ∀ q, (n.vm q).regs.msg = (m.vm q).regs.msg
  intsts : ∀ q, (n.vm q).regs.intsts = (m.vm q).regs.intsts

theorem Aside.refl (m : SharedMemory) : Aside m m :=
  ⟨rfl, fun _ => rfl, fun _ => rfl, fun _ => rfl, fun _ => rfl, fun _ => rfl, fun _ => rfl⟩

theorem aside_mapRegs (m : SharedMemory) (r : Role) (f : SharedRegisters → SharedRegisters)
    (msgsts : (f (m.vm r).regs).msgsts = (m.vm r).regs.msgsts)
    (msgstsMask : (f (m.vm r).regs).msgstsMask = (m.vm r).regs.msgstsMask)
    (msg : (f (m.vm r).regs).msg = (m.vm r).regs.msg)
    (intsts : (f (m.vm r).regs).intsts = (m.vm r).regs.intsts) : Aside m (m.mapRegs r f) :=
  ⟨rfl, mapRegs_id m r f, mapRegs_barConfig m r f, mapRegs_field _ m r f msgsts,
    mapRegs_field _ m r f msgstsMask, mapRegs_field _ m r f msg, mapRegs_field _ m r f intsts⟩

theorem aside_gregs (m : SharedMemory) (g : GlobalRegisters)
    (mask : g.ntIntMask = m.gregs.ntIntMask) :
    Aside m { m with gregs := g } :=
  ⟨mask, fun _ => rfl, fun _ => rfl, fun _ => rfl, fun _ => rfl, fun _ => rfl, fun _ => rfl⟩

/-- The field of `peer_bar_config[inbound_mw_bar]` that a data register writes. -/
def ConfigRegister.inboundField : ConfigRegister → Option BarField
  | .oofLdata => some .ltbase
  | .oofHdata => some .utbase
  | .oofLlimit | .oofHlimit => some .limit
  | _ => none

theorem ioWrite_inbound {reg : ConfigRegister} (data : reg.inboundField = some field)
    (file : PeerRamFile) (r : Role) (s : IVShmemState) (shm : SharedMemory) (val : BitVec 64) :
    ivshmemIoWrite file r s shm reg.addr val = some (writeInboundWindow r s shm field val) := by
  cases reg <;> simp only [ConfigRegister.inboundField, Option.some.injEq, reduceCtorEq] at data
  all_goals
    subst data
    simp only [ivshmemIoWrite, decode_addr]

/-- The shapes of a BAR 0 store, by the register it addresses. -/
inductive Handled (file : PeerRamFile) (r : Role) (s : IVShmemState) (shm : SharedMemory) :
    Option ConfigRegister → BitVec 64 → IVShmemState → SharedMemory → List Effect → Prop
  | latched (lregs : LocalRegisters)
      (kept : reg ≠ some .oofLutoff → lregs.inboundMwBar = s.lregs.inboundMwBar) :
      Handled file r s shm reg val { s with lregs := lregs } shm []
  | aside (same : Aside shm m) : Handled file r s shm reg val s m []
  | raised (middle : SharedMemory) (bit : BitVec 32) (same : Aside shm middle)
      (raise : idtRaisePeerInterrupt r s middle bit = (t, m, effects)) :
      Handled file r s shm reg val t m effects
  | ntintsts : Handled file r s shm (some .ntintsts) val s
      (shm.mapRegs r fun g => { g with intsts := g.intsts &&& ~~~val }) []
  | outmsg (i : Fin 4) (sent : writeOutboundMsg r s shm i val = (t, m, effects)) :
      Handled file r s shm (some (.outmsg i)) val t m effects
  | msgsts : Handled file r s shm (some .msgsts) val s
      (shm.mapRegs r fun g => { g with msgsts := g.msgsts &&& ~~~val }) []
  | msgstsmsk : Handled file r s shm (some .msgstsmsk) val s
      (shm.mapRegs r fun g => { g with msgstsMask := val }) []
  | ntintmsk : Handled file r s shm (some .ntintmsk) val s
      { shm with gregs := { shm.gregs with ntIntMask := val.setWidth 32 } } []
  | bar (field : BarField) (i : Fin 6) (stored : shm.setBar r i field (val.setWidth 32) = m)
      (updated : idtBarUpdatePeerRamAlias file s ((m.vm r).barConfig i) i = (t, effects)) :
      Handled file r s shm (some (.bar field i)) val t m effects
  | inbound (data : reg.inboundField = some field)
      (sent : writeInboundWindow r s shm field val = (t, m, effects)) :
      Handled file r s shm (some reg) val t m effects

theorem ioWrite_handled (written : ivshmemIoWrite file r s shm addr val = some (t, m, effects)) :
    ∃ reg, ConfigRegister.decode addr = reg ∧ Handled file r s shm reg val t m effects := by
  refine ⟨ConfigRegister.decode addr, rfl, ?_⟩
  have plain : ∀ {reg : Option ConfigRegister} {n : SharedMemory}, Aside shm n →
      some (s, n, ([] : List Effect)) = some (t, m, effects) →
      Handled file r s shm reg val t m effects := by
    rintro reg n same ⟨⟩
    exact .aside same
  cases found : ConfigRegister.decode addr with
  | none =>
    simp only [ivshmemIoWrite, found] at written
    exact plain (.refl shm) written
  | some reg =>
    simp only [ivshmemIoWrite, found] at written
    cases reg with
    | gasaaddr =>
      cases written
      exact .latched _ fun _ => rfl
    | ntmtbladdr =>
      cases written
      exact .latched _ fun _ => rfl
    | oofLutoff =>
      cases written
      exact .latched _ fun other => absurd rfl other
    | gasadata =>
      refine plain ?_ written
      unfold writeGasadata
      split
      · exact aside_mapRegs _ _ _ rfl rfl rfl rfl
      · exact aside_gregs _ _ rfl
      · exact .refl shm
    | ntmtbldata =>
      refine plain ?_ written
      unfold setNtMtbData
      split
      · exact aside_gregs _ _ rfl
      · exact .refl shm
    | ntctl => exact plain (aside_mapRegs _ _ _ rfl rfl rfl rfl) written
    | indbellsts => exact plain (aside_mapRegs _ _ _ rfl rfl rfl rfl) written
    | indbellmsk => exact plain (aside_mapRegs _ _ _ rfl rfl rfl rfl) written
    | oofTpart => exact plain (aside_mapRegs _ _ _ rfl rfl rfl rfl) written
    | outdbellset =>
      have rung :=
        aside_mapRegs shm r.peer (fun g => { g with db := val.setWidth 32 }) rfl rfl rfl rfl
      dsimp only at written
      split at written
      · exact .raised _ ntintstsDbell rung (Option.some.inj written)
      · exact plain rung written
    | ntgsignal =>
      have signalled :=
        aside_gregs shm { shm.gregs with segsigsts := shm.gregs.segsigsts ||| 1 } rfl
      dsimp only at written
      split at written
      · split at written
        · exact .raised _ ntintstsSevent signalled (Option.some.inj written)
        · exact plain signalled written
      · contradiction
    | ntintsts =>
      cases written
      exact .ntintsts
    | msgsts =>
      cases written
      exact .msgsts
    | msgstsmsk =>
      cases written
      exact .msgstsmsk
    | ntintmsk =>
      cases written
      exact .ntintmsk
    | outmsg i => exact .outmsg i (Option.some.inj written)
    | bar field i =>
      cases written
      exact .bar field i rfl rfl
    | oofLdata => exact .inbound rfl (Option.some.inj written)
    | oofHdata => exact .inbound rfl (Option.some.inj written)
    | oofLlimit => exact .inbound rfl (Option.some.inj written)
    | oofHlimit => exact .inbound rfl (Option.some.inj written)
    | _ => exact plain (.refl shm) written

/-- A store through the latched index, wherever it lands, is not one to an id. -/
theorem storeBar_id (m : SharedMemory) (r q : Role) (i : BitVec 32) (v : BitVec 32)
    (offset : field ≠ .setup) : ((m.storeBar r i field v).vm q).id = (m.vm q).id := by
  have named : ∀ n : SharedMemory, (n.vm q).id = n.word (vmBase q) := by
    intro n
    cases q <;> rfl
  have apart : vmBase q ≠ barWord r i.toNat field := by
    cases field with
    | setup => exact absurd rfl offset
    | _ => cases q <;> cases r <;> simp only [vmBase, barWord, BarField.index] <;> omega
  rw [named, named, SharedMemory.storeBar, word_store, if_neg apart]

theorem setBar_id (m : SharedMemory) (r : Role) (i : Fin 6) (field : BarField) (v : BitVec 32)
    (q : Role) : ((m.setBar r i field v).vm q).id = (m.vm q).id := by
  rcases Role.eq_or_peer r q with rfl | rfl
  · simp [SharedMemory.setBar]
  · simp [SharedMemory.setBar, mapVm_other]

theorem inboundField_ne_setup {reg : ConfigRegister} (data : reg.inboundField = some field) :
    field ≠ .setup := by
  rintro rfl
  cases reg <;> simp [ConfigRegister.inboundField] at data

theorem handled_ids (handled : Handled file r s shm reg val t m effects) (q : Role) :
    (m.vm q).id = (shm.vm q).id := by
  cases handled with
  | latched => rfl
  | aside same => exact same.id q
  | raised middle bit same raise =>
    rw [raise_eq] at raise
    cases raise
    exact (pend_id ..).trans (same.id q)
  | ntintsts => exact mapRegs_id ..
  | outmsg i sent =>
    cases outmsg_sent sent with
    | refused => exact mapRegs_id ..
    | reported => exact (pend_id ..).trans (mapRegs_id ..)
    | masked => exact mapRegs_id ..
    | raised free raise =>
      rw [raise_eq] at raise
      cases raise
      exact (pend_id ..).trans (mapRegs_id ..)
  | msgsts => exact mapRegs_id ..
  | msgstsmsk => exact mapRegs_id ..
  | ntintmsk => rfl
  | bar field i stored updated =>
    subst stored
    exact setBar_id ..
  | inbound data sent =>
    simp only [writeInboundWindow, notify_eq] at sent
    cases sent
    exact storeBar_id _ _ _ _ _ (inboundField_ne_setup data)

theorem adopt_other (r : Role) (s : IVShmemState) (m : SharedMemory) :
    (s.adopt r m).otherVmId = s.otherVmId ∨ (s.adopt r m).otherVmId = (m.vm r.peer).id.toInt := by
  simp only [IVShmemState.adopt, adoptedId]
  split
  · exact Or.inr rfl
  · exact Or.inl rfl

end IdtNtb.Device
