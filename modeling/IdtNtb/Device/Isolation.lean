import IdtNtb.Device.InboundWindow
import IdtNtb.Device.MessageRegisters

/-! What one guest's private registers mean to the other. Two runs of the switch
are compared that start before and after one store of `r` into a register of its
own NT function. They differ in what only `r` reads, and in whether `r` is
signalled; that never comes back to its peer, unless `r` takes a message in one
run that it refuses in the other. -/
namespace IdtNtb.Device
open Transition

/-- Registers of the NT function that the switch keeps for one VM. NTINTMSK is not
among them. -/
def ConfigRegister.isPrivate : ConfigRegister → Bool
  | .ntctl | .ntintsts | .indbellsts | .indbellmsk | .msgsts | .msgstsmsk => true
  | .gasaaddr | .ntmtbladdr | .bar .. => true
  | _ => false

/-- Registers of the NT function that can be read. -/
def ConfigRegister.isFunction : ConfigRegister → Bool
  | .ntctl | .ntintsts | .ntintmsk | .inmsg _ | .inmsgsrc _ | .msgsts | .msgstsmsk => true
  | .indbellsts | .indbellmsk | .bar .. => true
  | _ => false

def SameSight (q : Role) (w u : Switch) : Prop :=
  ∀ reg : ConfigRegister, reg.isFunction = true → u.readReg q reg = w.readReg q reg

/-- The calls that reach the peer of `r`: the signals of `r`, the interrupts of the
peer itself, and the notifications that have a handler change state. -/
def Concerns (r : Role) : Role × Effect → Bool
  | (q, .eventNotifierSet _ vector) => q = r || vector = eventfdVmId
  | (q, .msiNotify _) => q = r.peer
  | _ => false

/-- A message from the peer finds `r`'s register in the same state in both runs. -/
def SameAcceptance (r : Role) (w u : Switch) : Action → Prop
  | .write access => access.role = r.peer → ∀ i, access.register = some (.outmsg i) →
      inBusy u.shm r i = inBusy w.shm r i
  | .notified .. => True

instance (r : Role) (w u : Switch) : ∀ action, Decidable (SameAcceptance r w u action)
  | .write access => inferInstanceAs (Decidable (access.role = r.peer → ∀ i,
      access.register = some (.outmsg i) → inBusy u.shm r i = inBusy w.shm r i))
  | .notified .. => .isTrue trivial

/-! ## Blocks that differ where only `r` looks -/

/-- The mask, the peer's block and what the peer's code uses of `r`'s are the same:
also the message status, unless that is what was `cleared`. -/
structure ApartFrom (r : Role) (cleared : Prop) (m n : SharedMemory) : Prop where
  mask : n.gregs.ntIntMask = m.gregs.ntIntMask
  peer : n.vm r.peer = m.vm r.peer
  id : (n.vm r).id = (m.vm r).id
  part : (n.vm r).regs.inboundMwPart = (m.vm r).regs.inboundMwPart
  msgsts : ¬cleared → (n.vm r).regs.msgsts = (m.vm r).regs.msgsts

namespace ApartFrom
variable {r q : Role} {cleared : Prop} {m n m' n' : SharedMemory}

theorem refl (m : SharedMemory) : ApartFrom r cleared m m := ⟨rfl, rfl, rfl, rfl, fun _ => rfl⟩

/-- Each block may change where only `r` looks. -/
theorem shift (held : ApartFrom r cleared m n) (left : ApartFrom r False m m')
    (right : ApartFrom r False n n') : ApartFrom r cleared m' n' where
  mask := right.mask.trans (held.mask.trans left.mask.symm)
  peer := right.peer.trans (held.peer.trans left.peer.symm)
  id := right.id.trans (held.id.trans left.id.symm)
  part := right.part.trans (held.part.trans left.part.symm)
  msgsts same :=
    (right.msgsts not_false).trans ((held.msgsts same).trans (left.msgsts not_false).symm)

theorem gregs (m : SharedMemory) (g : GlobalRegisters) (mask : g.ntIntMask = m.gregs.ntIntMask) :
    ApartFrom r cleared m { m with gregs := g } :=
  ⟨mask, rfl, rfl, rfl, fun _ => rfl⟩

theorem own (m : SharedMemory) (f : SharedRegisters → SharedRegisters)
    (part : (f (m.vm r).regs).inboundMwPart = (m.vm r).regs.inboundMwPart)
    (msgsts : ¬cleared → (f (m.vm r).regs).msgsts = (m.vm r).regs.msgsts) :
    ApartFrom r cleared m (m.mapRegs r f) where
  mask := rfl
  peer := mapRegs_peer m r f
  id := mapRegs_id m r f r
  part := by rw [mapRegs_same, part]
  msgsts same := by rw [mapRegs_same, msgsts same]

theorem ownBar (m : SharedMemory) (i : Fin 6) (field : BarField) (v : BitVec 32) :
    ApartFrom r cleared m (m.setBar r i field v) where
  mask := rfl
  peer := mapVm_other m _ r.peer_ne
  id := setBar_id m r i field v r
  part := by rw [setBar_regs]
  msgsts _ := by rw [setBar_regs]

theorem ids (held : ApartFrom r cleared m n) (q : Role) : (n.vm q).id = (m.vm q).id := by
  rcases Role.eq_or_peer r q with rfl | rfl
  · exact held.id
  · rw [held.peer]

theorem parts (held : ApartFrom r cleared m n) (q : Role) :
    (n.vm q).regs.inboundMwPart = (m.vm q).regs.inboundMwPart := by
  rcases Role.eq_or_peer r q with rfl | rfl
  · exact held.part
  · rw [held.peer]

/-- The same update on both sides, where what it makes of the two registers that
count depends on nothing else. -/
theorem mapRegs (held : ApartFrom r cleared m n) (q : Role) (f : SharedRegisters → SharedRegisters)
    (part : ∀ {g g'}, g'.inboundMwPart = g.inboundMwPart →
      (f g').inboundMwPart = (f g).inboundMwPart)
    (msgsts : ∀ {g g'}, g'.msgsts = g.msgsts → (f g').msgsts = (f g).msgsts) :
    ApartFrom r cleared (m.mapRegs q f) (n.mapRegs q f) := by
  rcases Role.eq_or_peer r q with rfl | rfl
  · refine ⟨held.mask, ?_, ?_, ?_, ?_⟩
    · rw [mapRegs_peer, mapRegs_peer, held.peer]
    · rw [mapRegs_id, mapRegs_id, held.id]
    · rw [mapRegs_same, mapRegs_same, part held.part]
    · intro same
      rw [mapRegs_same, mapRegs_same, msgsts (held.msgsts same)]
  · refine ⟨held.mask, ?_, ?_, ?_, ?_⟩
    · simp only [SharedMemory.mapRegs, mapVm_same, held.peer]
    · rw [mapRegs_of_peer, mapRegs_of_peer, held.id]
    · rw [mapRegs_of_peer, mapRegs_of_peer, held.part]
    · intro same
      rw [mapRegs_of_peer, mapRegs_of_peer, held.msgsts same]

theorem setBar (held : ApartFrom r cleared m n) (q : Role) (i : Fin 6) (field : BarField)
    (v : BitVec 32) :
    ApartFrom r cleared (m.setBar q i field v) (n.setBar q i field v) := by
  rcases Role.eq_or_peer r q with rfl | rfl
  · exact held.shift (ownBar ..) (ownBar ..)
  · refine ⟨held.mask, ?_, ?_, ?_, ?_⟩
    · simp only [SharedMemory.setBar, mapVm_same, held.peer]
    · rw [setBar_id, setBar_id, held.id]
    · rw [setBar_regs, setBar_regs, held.part]
    · intro same
      rw [setBar_regs, setBar_regs, held.msgsts same]

end ApartFrom

/-- The words that are the same. -/
def Common (r : Role) (cleared : Prop) : Word → Prop
  | .greg i => i = 2
  | .vm _ .id | .vm _ (.reg .inboundMwPart) => True
  | .vm q (.reg (.msgsts _)) => q = r.peer ∨ ¬cleared
  | .vm q _ => q = r.peer
  | .beyond _ => False

theorem apartFrom_iff_words {r : Role} {cleared : Prop} {m n : SharedMemory} :
    ApartFrom r cleared m n ↔ ∀ w, Common r cleared w → n.get w = m.get w := by
  constructor
  · intro held w common
    cases w with
    | greg i =>
      obtain rfl : i = 2 := common
      exact held.mask
    | vm q w =>
      rcases Role.eq_or_peer r q with rfl | rfl
      · cases w with
        | id => exact held.id
        | bar i field => exact absurd common.symm q.peer_ne
        | reg w =>
          cases w with
          | inboundMwPart => exact held.part
          | msgsts h =>
            have same := held.msgsts (common.resolve_left q.ne_peer)
            simp only [SharedMemory.get, VmStorage.get, SharedRegisters.get, same]
          | _ => exact absurd common.symm q.peer_ne
      · simp only [SharedMemory.get, held.peer]
    | beyond k => exact common.elim
  · intro same
    refine ⟨same (.greg 2) rfl, VmStorage.ext_get fun w => same (.vm r.peer w) ?_,
      same (.vm r .id) trivial, same (.vm r (.reg .inboundMwPart)) trivial, ?_⟩
    · cases w with
      | id => trivial
      | bar i field => rfl
      | reg w =>
        cases w with
        | inboundMwPart => trivial
        | msgsts h => exact Or.inl rfl
        | _ => rfl
    · intro kept
      exact half_ext fun h => same (.vm r (.reg (.msgsts h))) (Or.inr kept)

/-- A store through a latched index, wherever it lands. -/
theorem ApartFrom.storeBar {r : Role} (held : ApartFrom r cleared m n) (q : Role) (i : BitVec 32)
    (field : BarField) (v : BitVec 32) :
    ApartFrom r cleared (m.storeBar q i field v) (n.storeBar q i field v) := by
  rw [apartFrom_iff_words] at held ⊢
  intro w common
  simp only [SharedMemory.storeBar, SharedMemory.store, SharedMemory.get_set, held w common]

/-! ## Devices that would signal the same -/

/-- The devices of `q` have the same place on the switch, and would take the same
peer for theirs; what `q` has latched counts as far as `r`'s peer can tell. -/
structure SameStanding (r q : Role) (m : SharedMemory) (s t : IVShmemState) : Prop where
  vmId : t.vmId = s.vmId
  peers : t.peers = s.peers
  attached : t.attached = s.attached
  adopted : adoptedId q t m = adoptedId q s m
  index : t.lregs.inboundMwBar = s.lregs.inboundMwBar
  latched : q = r.peer → t.lregs = s.lregs

/-- Adopting twice is adopting once. -/
theorem adoptedId_adopt (s : IVShmemState) (same : (n.vm q.peer).id = (m.vm q.peer).id) :
    adoptedId q (s.adopt q n) m = adoptedId q s m := by
  rw [IVShmemState.adopt, adoptedId_congr s same]
  simp only [adoptedId]
  split_ifs with named again
  · rfl
  · rfl
  · rfl

namespace SameStanding
variable {r q : Role} {m n : SharedMemory} {s t s' t' : IVShmemState}

theorem refl (s : IVShmemState) : SameStanding r q m s s := ⟨rfl, rfl, rfl, rfl, rfl, fun _ => rfl⟩

theorem shift (held : SameStanding r q m s t) (left : SameStanding r q m s s')
    (right : SameStanding r q m t t') : SameStanding r q m s' t' where
  vmId := right.vmId.trans (held.vmId.trans left.vmId.symm)
  peers := right.peers.trans (held.peers.trans left.peers.symm)
  attached := right.attached.trans (held.attached.trans left.attached.symm)
  adopted := right.adopted.trans (held.adopted.trans left.adopted.symm)
  index := right.index.trans (held.index.trans left.index.symm)
  latched own := (right.latched own).trans ((held.latched own).trans (left.latched own).symm)

theorem rebase (held : SameStanding r q m s t) (same : (n.vm q.peer).id = (m.vm q.peer).id) :
    SameStanding r q n s t :=
  { held with adopted := by rw [adoptedId_congr t same, adoptedId_congr s same, held.adopted] }

theorem adopt (s : IVShmemState) (same : (n.vm q.peer).id = (m.vm q.peer).id) :
    SameStanding r q m s (s.adopt q n) :=
  ⟨rfl, rfl, rfl, adoptedId_adopt s same, rfl, fun _ => rfl⟩

theorem aliases (only : AliasesOnly s s') : SameStanding r q m s s' := by
  obtain ⟨_, _, _, rfl⟩ := only
  exact ⟨rfl, rfl, rfl, rfl, rfl, fun _ => rfl⟩

/-- Both latch the same. -/
theorem latch (held : SameStanding r q m s t) (f : LocalRegisters → LocalRegisters)
    (index : (f t.lregs).inboundMwBar = (f s.lregs).inboundMwBar) :
    SameStanding r q m { s with lregs := f s.lregs } { t with lregs := f t.lregs } :=
  { held with index, latched := fun own => congrArg f (held.latched own) }

theorem registered (held : SameStanding r q m s t) : t.registered = s.registered := by
  funext p
  simp only [IVShmemState.registered, held.peers]

end SameStanding

structure Answered (r : Role) (cleared : Prop) (q : Role) (base : SharedMemory)
    (a b : IVShmemState × SharedMemory × List Effect) : Prop where
  shm : ApartFrom r cleared a.2.1 b.2.1
  dev : SameStanding r q base a.1 b.1
  calls : a.2.2.filter (fun e => Concerns r (q, e)) = b.2.2.filter fun e => Concerns r (q, e)

variable {r q : Role} {cleared : Prop} {m n base : SharedMemory} {s t : IVShmemState}

/-- A kick of the peer does not come back to it. -/
theorem kick_silent (s : IVShmemState) (m : SharedMemory) :
    (idtKickPeerInterrupt r.peer s m).2.filter (fun e => Concerns r (r.peer, e)) = [] := by
  rw [kick_eq]
  split_ifs
  · simp [Concerns, eventfdVmId, eventfdInterruptHost]
  · rfl

/-- On either side a device signals `r`'s peer alike. -/
theorem kick_concerns (shm : ApartFrom r cleared m n) (dev : SameStanding r q base s t)
    (word : (m.vm q.peer).id = (base.vm q.peer).id) :
    (idtKickPeerInterrupt q s m).2.filter (fun e => Concerns r (q, e)) =
      (idtKickPeerInterrupt q t n).2.filter fun e => Concerns r (q, e) := by
  rcases Role.eq_or_peer r q with rfl | rfl
  · have adopted : adoptedId q t n = adoptedId q s m := by
      rw [adoptedId_congr t (shm.ids q.peer), adoptedId_congr t word, adoptedId_congr s word,
        dev.adopted]
    have unmasked : Unmasked q n ↔ Unmasked q m := by
      simp only [Unmasked, shm.peer, shm.mask]
    simp only [kick_eq, adopted, dev.registered, dev.attached, unmasked]
  · rw [kick_silent, kick_silent]

theorem pend_apart (held : ApartFrom r cleared m n) (q : Role) (bit : BitVec 32) :
    ApartFrom r cleared (m.pend q bit) (n.pend q bit) :=
  held.mapRegs q _ (fun same => same) (fun same => same)

theorem pend_own (m : SharedMemory) (bit : BitVec 32) : ApartFrom r False m (m.pend r bit) :=
  .own m _ rfl fun _ => rfl

theorem raise_answered (shm : ApartFrom r cleared m n) (dev : SameStanding r q base s t)
    (word : (m.vm q.peer).id = (base.vm q.peer).id) (bit : BitVec 32) :
    Answered r cleared q base (idtRaisePeerInterrupt q s m bit)
      (idtRaisePeerInterrupt q t n bit) := by
  rw [raise_eq, raise_eq]
  have pended := pend_apart shm q.peer bit
  have left : ((m.pend q.peer bit).vm q.peer).id = (base.vm q.peer).id := (pend_id ..).trans word
  have right : ((n.pend q.peer bit).vm q.peer).id = (base.vm q.peer).id :=
    (pended.ids q.peer).trans left
  exact ⟨pended, dev.shift (.adopt s left) (.adopt t right), kick_concerns pended dev left⟩

theorem writeInbound_answered (shm : ApartFrom r cleared base n) (dev : SameStanding r q base s t)
    (offset : field ≠ .setup) (val : BitVec 64) :
    Answered r cleared q base (writeInboundWindow q s base field val)
      (writeInboundWindow q t n field val) := by
  simp only [writeInboundWindow, notify_eq, dev.index]
  have stored := shm.storeBar q.peer s.lregs.inboundMwBar field (val.setWidth 32)
  have left := storeBar_id base q.peer q.peer s.lregs.inboundMwBar (val.setWidth 32) offset
  have right := (stored.ids q.peer).trans left
  refine ⟨stored, dev.shift (.adopt s left) (.adopt t right), ?_⟩
  simp only [adoptedId_congr t right, adoptedId_congr s left, dev.adopted, dev.registered]

/-- What `r` or the code run for it may do unseen. -/
structure Quiet (r q : Role) (base : SharedMemory) (s : IVShmemState) (m : SharedMemory)
    (a : IVShmemState × SharedMemory × List Effect) : Prop where
  shm : ApartFrom r False m a.2.1
  dev : SameStanding r q base s a.1
  calls : a.2.2.filter (fun e => Concerns r (q, e)) = []

theorem answered_quiet (shm : ApartFrom r cleared m n) (dev : SameStanding r q base s t)
    (left : Quiet r q base s m a) (right : Quiet r q base t n b) : Answered r cleared q base a b :=
  ⟨shm.shift left.shm right.shm, dev.shift left.dev right.dev, left.calls.trans right.calls.symm⟩

theorem answered_plain (shm : ApartFrom r cleared m n) (dev : SameStanding r q base s t) :
    Answered r cleared q base (s, m, []) (t, n, []) :=
  ⟨shm, dev, rfl⟩

/-- A raise towards `r` is for `r` alone. -/
theorem raise_quiet (s : IVShmemState) (m : SharedMemory) (word : (m.vm r).id = (base.vm r).id)
    (bit : BitVec 32) : Quiet r r.peer base s m (idtRaisePeerInterrupt r.peer s m bit) := by
  rw [raise_eq, Role.peer_peer]
  have left : ((m.pend r bit).vm r.peer.peer).id = (base.vm r.peer.peer).id := by
    rw [Role.peer_peer, pend_id, word]
  exact ⟨pend_own m bit, .adopt s left, kick_silent ..⟩

theorem refuse_apart (held : ApartFrom r cleared m n) (q : Role) (i : Fin 4) :
    ApartFrom r cleared (m.refuse q i) (n.refuse q i) := by
  refine held.mapRegs q _ (fun same => same) ?_
  intro g g' same
  dsimp only
  rw [same]

theorem deliver_apart (held : ApartFrom r cleared m n) (q : Role) (i : Fin 4) (val : BitVec 64) :
    ApartFrom r cleared (m.deliver q i val) (n.deliver q i val) := by
  unfold SharedMemory.deliver
  rw [held.parts q]
  refine held.mapRegs q.peer _ (fun same => same) ?_
  intro g g' same
  dsimp only
  rw [same]

theorem refused_answered (shm : ApartFrom r cleared base n) (dev : SameStanding r q base s t)
    (busy : inBusy base q.peer i = true) (busy' : inBusy n q.peer i = true) :
    Answered r cleared q base (writeOutboundMsg q s base i val) (writeOutboundMsg q t n i val) := by
  rw [outmsg_busy busy, outmsg_busy busy']
  have refused := refuse_apart shm q i
  rcases Role.eq_or_peer r q with rfl | rfl
  · -- The sender's own mask decides whether it is told.
    have told (s : IVShmemState) (m : SharedMemory) (c : Prop) [Decidable c] :
        Quiet q q base s m (if c then (s, m.pend q ntintstsMsg, [.msiNotify 0])
          else (s, m, [])) := by
      split_ifs
      · exact ⟨pend_own m ntintstsMsg, .refl s, by simp [Concerns]⟩
      · exact ⟨.refl m, .refl s, rfl⟩
    exact answered_quiet refused dev (told ..) (told ..)
  · rw [shm.peer, shm.mask]
    split_ifs
    · exact ⟨pend_apart refused r.peer ntintstsMsg, dev, rfl⟩
    · exact answered_plain refused dev

theorem accepted_answered (shm : ApartFrom r cleared base n) (dev : SameStanding r q base s t)
    (free : inBusy base q.peer i = false) (free' : inBusy n q.peer i = false) :
    Answered r cleared q base (writeOutboundMsg q s base i val) (writeOutboundMsg q t n i val) := by
  rw [outmsg_free free, outmsg_free free']
  have delivered := deliver_apart shm q i val
  have word : ((base.deliver q i val).vm q.peer).id = (base.vm q.peer).id := mapRegs_id ..
  rcases Role.eq_or_peer r q with rfl | rfl
  · rw [shm.peer, shm.mask]
    split_ifs
    · exact raise_answered delivered dev word ntintstsMsg
    · exact answered_plain delivered dev
  · -- The mask of `r` decides whether `r` is told.
    rw [Role.peer_peer] at word
    have told (s : IVShmemState) (m : SharedMemory) (word : (m.vm r).id = (base.vm r).id) (c : Prop)
        [Decidable c] :
        Quiet r r.peer base s m (if c then idtRaisePeerInterrupt r.peer s m ntintstsMsg
          else (s, m, [])) := by
      split_ifs
      · exact raise_quiet s m word ntintstsMsg
      · exact ⟨.refl m, .refl s, rfl⟩
    exact answered_quiet delivered dev (told _ _ word _) (told _ _ (delivered.id.trans word) _)

/-- A message meets the same answer if its register is in the same state. -/
theorem outmsg_answered (shm : ApartFrom r cleared base n) (dev : SameStanding r q base s t)
    (accepts : inBusy n q.peer i = inBusy base q.peer i) :
    Answered r cleared q base (writeOutboundMsg q s base i val) (writeOutboundMsg q t n i val) := by
  cases busy : inBusy base q.peer i with
  | true => exact refused_answered shm dev busy (accepts.trans busy)
  | false => exact accepted_answered shm dev busy (accepts.trans busy)

/-- A store that raises its bit unless NTINTMSK hides it. -/
theorem raised_answered (shm : ApartFrom r cleared m n) (dev : SameStanding r q base s t)
    (word : (m.vm q.peer).id = (base.vm q.peer).id) (bit : BitVec 32) :
    Option.Rel (Answered r cleared q base)
      (if ~~~m.gregs.ntIntMask &&& bit ≠ 0 then some (idtRaisePeerInterrupt q s m bit)
        else some (s, m, []))
      (if ~~~n.gregs.ntIntMask &&& bit ≠ 0 then some (idtRaisePeerInterrupt q t n bit)
        else some (t, n, [])) := by
  rw [shm.mask]
  split_ifs
  · exact .some (raise_answered shm dev word bit)
  · exact .some (answered_plain shm dev)

theorem gasadata_apart (shm : ApartFrom r cleared base n) (dev : SameStanding r q base s t)
    (val : BitVec 64) : ApartFrom r cleared (writeGasadata q s base val)
    (writeGasadata q t n val) := by
  rcases Role.eq_or_peer r q with rfl | rfl
  · have own (s : IVShmemState) (m : SharedMemory) :
        ApartFrom q False m (writeGasadata q s m val) := by
      unfold writeGasadata
      split
      · exact .own m _ rfl fun _ => rfl
      · exact .gregs m _ rfl
      · exact .refl m
    exact shm.shift (own ..) (own ..)
  · unfold writeGasadata
    rw [dev.latched rfl]
    split
    · exact shm.mapRegs r.peer _ (fun same => same) (fun same => same)
    · exact shm.shift (.gregs _ _ rfl) (.gregs _ _ rfl)
    · exact shm

theorem ntmtbldata_apart (shm : ApartFrom r cleared base n) (s t : IVShmemState) (val : BitVec 32) :
    ApartFrom r cleared (setNtMtbData s base val) (setNtMtbData t n val) := by
  have aside (s : IVShmemState) (m : SharedMemory) :
      ApartFrom r False m (setNtMtbData s m val) := by
    unfold setNtMtbData
    split_ifs
    · exact .gregs m _ rfl
    · exact .refl m
  exact shm.shift (aside ..) (aside ..)

/-- Aliases are mapped and unmapped unheard. -/
theorem subregions_quiet {effects : List Effect}
    (calls : ∀ e ∈ effects, ∃ idx, e = .delSubregion idx ∨ e = .addSubregion idx) :
    effects.filter (fun e => Concerns r (q, e)) = [] := by
  rw [List.filter_eq_nil_iff]
  intro e call
  obtain ⟨idx, rfl | rfl⟩ := calls e call
  · exact nofun
  · exact nofun

theorem updateAlias_quiet (file : PeerRamFile) (s : IVShmemState) (m : SharedMemory) (c : BARConfig)
    (i : Fin 6) :
    Quiet r q base s m
      ((idtBarUpdatePeerRamAlias file s c i).1, m, (idtBarUpdatePeerRamAlias file s c i).2) :=
  ⟨.refl m, .aliases (updateAlias_only file s c i),
    subregions_quiet fun e call => ⟨i, updateAlias_calls file s c i e call⟩⟩

/-- A store of either guest, by the register it addresses. -/
theorem ioWrite_answered (shm : ApartFrom r cleared base n) (dev : SameStanding r q base s t)
    (file : PeerRamFile) (val : BitVec 64)
    (accepts : ∀ i, ConfigRegister.decode addr = some (.outmsg i) →
      inBusy n q.peer i = inBusy base q.peer i) :
    Option.Rel (Answered r cleared q base) (ivshmemIoWrite file q s base addr val)
      (ivshmemIoWrite file q t n addr val) := by
  cases found : ConfigRegister.decode addr with
  | none =>
    simp only [ivshmemIoWrite, found]
    exact .some (answered_plain shm dev)
  | some reg =>
    simp only [ivshmemIoWrite, found]
    have regs (f : SharedRegisters → SharedRegisters)
        (part : ∀ {g g'}, g'.inboundMwPart = g.inboundMwPart →
          (f g').inboundMwPart = (f g).inboundMwPart)
        (msgsts : ∀ {g g'}, g'.msgsts = g.msgsts → (f g').msgsts = (f g).msgsts) :
        Answered r cleared q base (s, base.mapRegs q f, []) (t, n.mapRegs q f, []) :=
      answered_plain (shm.mapRegs q f part msgsts) dev
    have latched (f : LocalRegisters → LocalRegisters)
        (index : (f t.lregs).inboundMwBar = (f s.lregs).inboundMwBar) :
        Option.Rel (Answered r cleared q base) (some ({ s with lregs := f s.lregs }, base, []))
          (some ({ t with lregs := f t.lregs }, n, [])) :=
      .some (answered_plain shm (dev.latch f index))
    have inbound (field : BarField) (offset : field ≠ .setup) :=
      writeInbound_answered shm dev offset val
    cases reg with
    | gasaaddr => exact latched (fun l => { l with gasaaddr := val }) dev.index
    | ntmtbladdr => exact latched (fun l => { l with ntMtbAddr := val &&& 0x7F }) dev.index
    | oofLutoff => exact latched (fun l => { l with inboundMwBar := val.setWidth 32 }) rfl
    | gasadata => exact .some (answered_plain (gasadata_apart shm dev val) dev)
    | ntmtbldata => exact .some (answered_plain (ntmtbldata_apart shm s t _) dev)
    | ntctl => exact .some (regs _ (fun same => same) (fun same => same))
    | ntintsts => exact .some (regs _ (fun same => same) (fun same => same))
    | indbellsts => exact .some (regs _ (fun same => same) (fun same => same))
    | indbellmsk => exact .some (regs _ (fun same => same) (fun same => same))
    | msgstsmsk => exact .some (regs _ (fun same => same) (fun same => same))
    | oofTpart => exact .some (regs _ (fun _ => rfl) (fun same => same))
    | msgsts =>
      refine .some (regs _ (fun same => same) ?_)
      intro g g' same
      dsimp only
      rw [same]
    | outmsg i => exact .some (outmsg_answered shm dev (accepts i found))
    | outdbellset =>
      have rung := shm.mapRegs q.peer (fun g => { g with db := val.setWidth 32 }) (fun same => same)
        (fun same => same)
      exact raised_answered rung dev (mapRegs_id ..) ntintstsDbell
    | ntgsignal =>
      have signalled := shm.shift
        (.gregs base { base.gregs with segsigsts := base.gregs.segsigsts ||| 1 } rfl)
        (.gregs n { n.gregs with segsigsts := n.gregs.segsigsts ||| 1 } rfl)
      by_cases one : val = 1
      · simp only [if_pos one]
        exact raised_answered signalled dev rfl ntintstsSevent
      · simp only [if_neg one]
        exact .none
    | bar field i =>
      have stored := shm.setBar q i field (val.setWidth 32)
      exact .some (answered_quiet stored dev (updateAlias_quiet ..) (updateAlias_quiet ..))
    | oofLdata => exact .some (inbound .ltbase (by decide))
    | oofHdata => exact .some (inbound .utbase (by decide))
    | oofLlimit => exact .some (inbound .limit (by decide))
    | oofHlimit => exact .some (inbound .limit (by decide))
    | ntintmsk => exact .some (answered_plain ⟨rfl, shm.peer, shm.id, shm.part, shm.msgsts⟩ dev)
    | _ => exact .some (answered_plain shm dev)

/-! ## The two runs -/

structure Twins (r : Role) (cleared : Prop) (w u : Switch) : Prop where
  shm : ApartFrom r cleared w.shm u.shm
  dev : ∀ q, SameStanding r q w.shm (w.dev q) (u.dev q)

variable {w u : Switch}

/-- One device has answered, and the ids stand. -/
theorem Twins.answer (twins : Twins r cleared w u) {a b : IVShmemState × SharedMemory × List Effect}
    (answered : Answered r cleared q w.shm a b) (ids : ∀ p, (a.2.1.vm p).id = (w.shm.vm p).id) :
    Alike (Twins r cleared) (Concerns r)
      (⟨a.2.1, Function.update w.dev q a.1⟩, a.2.2.map fun e => (q, e))
      (⟨b.2.1, Function.update u.dev q b.1⟩, b.2.2.map fun e => (q, e)) := by
  refine ⟨⟨answered.shm, ?_⟩, ?_⟩
  · intro p
    refine SameStanding.rebase ?_ (ids p.peer)
    by_cases same : p = q
    · subst same
      simp only [Function.update_self]
      exact answered.dev
    · simp only [Function.update_of_ne same]
      exact twins.dev p
  · simp only [List.filter_map, Function.comp_def, answered.calls]

theorem write_alike (twins : Twins r cleared w u)
    (accepts : cleared → SameAcceptance r w u (.write access)) :
    Option.Rel (Alike (Twins r cleared) (Concerns r)) (w.write access) (u.write access) := by
  have answers : ∀ i, access.register = some (.outmsg i) →
      inBusy u.shm access.role.peer i = inBusy w.shm access.role.peer i := by
    intro i found
    rcases Role.eq_or_peer r access.role with own | other
    · simp only [inBusy, own, twins.shm.peer]
    · rw [other, Role.peer_peer]
      by_cases was : cleared
      · exact accepts was other i found
      · simp only [inBusy, twins.shm.msgsts was]
  have answered := ioWrite_answered twins.shm (twins.dev access.role) access.file
    (access.val.setWidth 64) answers
  unfold Switch.write
  generalize left : ivshmemIoWrite _ _ (w.dev access.role) _ _ _ = a at answered ⊢
  generalize ivshmemIoWrite _ _ (u.dev access.role) _ _ _ = b at answered ⊢
  cases answered with
  | none => exact .none
  | some answered =>
    obtain ⟨reg, -, handled⟩ := ioWrite_handled left
    exact .some (twins.answer answered (handled_ids handled))

/-- The id word the handler takes is the same on both sides. -/
theorem SameStanding.renamed (dev : SameStanding r q m s t) (other : Int) :
    SameStanding r q m { s with otherVmId := other } { t with otherVmId := other } :=
  { dev with adopted := by simp only [adoptedId, dev.attached, dev.peers, dev.vmId] }

theorem vectorNotify_answered (shm : ApartFrom r cleared base n) (dev : SameStanding r q base s t)
    (file : PeerRamFile) (vector : EventVector) :
    Answered r cleared q base
      ((ivshmemVectorNotify file q s base vector).1, base,
        (ivshmemVectorNotify file q s base vector).2)
      ((ivshmemVectorNotify file q t n vector).1, n,
        (ivshmemVectorNotify file q t n vector).2) := by
  cases vector with
  | interruptHost => exact ⟨shm, dev, rfl⟩
  | vmId =>
    simp only [ivshmemVectorNotify]
    rw [shm.ids q.peer]
    generalize (base.vm q.peer).id.toInt = other
    have refreshed := (dev.renamed other).shift (.aliases (refreshAliases_only file q _ base))
      (.aliases (refreshAliases_only file q _ n))
    have kicked := kick_concerns shm refreshed rfl
    refine ⟨shm, ?_, ?_⟩
    · dsimp only
      rw [kick_eq, kick_eq]
      exact refreshed.shift (.adopt _ rfl) (.adopt _ (shm.ids q.peer))
    · rw [List.filter_append, List.filter_append,
        subregions_quiet (refreshAliases_calls file q _ base),
          subregions_quiet (refreshAliases_calls file q _ n), kicked]

theorem notify_alike (twins : Twins r cleared w u) (file : PeerRamFile) (q : Role)
    (vector : EventVector) :
    Alike (Twins r cleared) (Concerns r) (w.notify file q vector) (u.notify file q vector) :=
  twins.answer (vectorNotify_answered twins.shm (twins.dev q) file vector) fun _ => rfl

theorem step_alike (twins : Twins r cleared w u) (accepts : cleared → SameAcceptance r w u action) :
    Option.Rel (Alike (Twins r cleared) (Concerns r)) (w.step action) (u.step action) := by
  cases action with
  | write access => exact write_alike twins accepts
  | notified q file vector => exact .some (notify_alike twins file q vector)

theorem Twins.sight (twins : Twins r cleared w u) : SameSight r.peer w u := by
  intro reg function
  cases reg <;> simp only [ConfigRegister.isFunction, Bool.false_eq_true] at function
  all_goals
    simp only [Switch.readReg, Switch.read, ivshmemIoRead, decode_addr, twins.shm.peer,
      twins.shm.mask]

theorem SameStanding.own (s : IVShmemState) (lregs : LocalRegisters)
    (index : lregs.inboundMwBar = s.lregs.inboundMwBar) : SameStanding r r m s { s with lregs } :=
  ⟨rfl, rfl, rfl, rfl, index, fun other => absurd other r.ne_peer⟩

/-- A store into a private register is for its own VM alone. -/
theorem private_store {reg : ConfigRegister} (found : ConfigRegister.decode addr = some reg)
    (own : reg.isPrivate = true) (written : ivshmemIoWrite file r s m addr val = some a) :
    ApartFrom r (reg = .msgsts) m a.2.1 ∧ SameStanding r r m s a.1 ∧
      a.2.2.filter (fun e => Concerns r (r, e)) = [] := by
  simp only [ivshmemIoWrite, found] at written
  cases reg <;> simp only [ConfigRegister.isPrivate, Bool.false_eq_true] at own
  case gasaaddr =>
    cases written
    exact ⟨.refl m, .own s _ rfl, rfl⟩
  case ntmtbladdr =>
    cases written
    exact ⟨.refl m, .own s _ rfl, rfl⟩
  case bar field i =>
    cases written
    have stored : ApartFrom r (ConfigRegister.bar field i = .msgsts) m
      (m.setBar r i field (val.setWidth 32)) := .ownBar ..
    have quiet : Quiet r r m s _ _ :=
      updateAlias_quiet file s (m.setBar r i field (val.setWidth 32))
      (((m.setBar r i field (val.setWidth 32)).vm r).barConfig i) i
    exact ⟨stored, quiet.dev, quiet.calls⟩
  case msgsts =>
    cases written
    refine ⟨?_, .refl s, rfl⟩
    dsimp only
    exact .own m _ rfl fun other => absurd rfl other
  all_goals
    cases written
    refine ⟨?_, .refl s, rfl⟩
    dsimp only
    exact .own m _ rfl fun _ => rfl

/-- It leaves a twin of the switch, and calls nothing that concerns the peer. -/
theorem private_twins {access : Bar0Write} {reg : ConfigRegister}
    (found : access.register = some reg)
    (own : reg.isPrivate = true) (written : w.write access = some (u, calls)) :
    Twins access.role (reg = .msgsts) w u ∧ calls.filter (Concerns access.role) = [] := by
  simp only [Switch.write, Option.map_eq_some_iff, Prod.mk.injEq] at written
  obtain ⟨⟨s, m, effects⟩, handled, rfl, rfl⟩ := written
  obtain ⟨apart, standing, silent⟩ := private_store found own handled
  refine ⟨⟨apart, ?_⟩, ?_⟩
  · intro q
    by_cases same : q = access.role
    · subst same
      simp only [Function.update_self]
      exact standing
    · simp only [Function.update_of_ne same]
      exact .refl _
  · simp only [List.filter_map, Function.comp_def, silent, List.map_nil]

/-- What a guest does to its own registers other than NTINTMSK changes nothing for
its peer: later the peer reads the same from its NT function, and is signalled and
interrupted at the same points, unless a cleared message status lets a message in. -/
theorem registers_isolated {access : Bar0Write} {reg : ConfigRegister}
    (found : access.register = some reg)
    (own : reg.isPrivate = true) (written : w.write access = some (u, calls))
    (accepts : AlongBoth Switch.step
      (fun w u action => reg = .msgsts → SameAcceptance access.role w u action) w u ls) :
    calls.filter (Concerns access.role) = [] ∧
      Option.Rel (Alike (SameSight access.role.peer) (Concerns access.role))
        (run Switch.step w ls) (run Switch.step u ls) := by
  obtain ⟨twins, silent⟩ := private_twins found own written
  refine ⟨silent, ?_⟩
  have runs : Option.Rel (Alike (Twins access.role (reg = .msgsts)) (Concerns access.role))
      (run Switch.step w ls) (run Switch.step u ls) := by
    refine run_alike ?_ twins accepts
    intro w u action twins met
    exact step_alike twins met
  generalize run Switch.step w ls = first at runs ⊢
  generalize run Switch.step u ls = second at runs ⊢
  cases runs with
  | none => exact .none
  | some alike => exact .some ⟨alike.1.sight, alike.2⟩

def Switch.waiting : Switch :=
  { Switch.realized with
    shm := Switch.realized.shm.mapRegs .vm1 fun g => { g with msgsts := 0x20000 } }

/-- The first VM clears that status. Its peer then sends in register 0, and is rung. -/
def clearWaiting : Bar0Write := ⟨.vm1, ConfigRegister.msgsts.addr, 0x20000, .absent⟩

def afterClear : List Action :=
  [.write ⟨.vm1, ConfigRegister.ntintmsk.addr, 0, .absent⟩,
    .write ⟨.vm2, (ConfigRegister.outmsg 0).addr, 5, .absent⟩,
    .write ⟨.vm1, ConfigRegister.outdbellset.addr, 1, .absent⟩]

theorem registers_isolated_cleared :
    ∃ u calls, Switch.waiting.write clearWaiting = some (u, calls) ∧ u.readReg .vm1 .msgsts = 0 ∧
      (run Switch.step Switch.waiting afterClear).map (·.1.readReg .vm2 .ntintsts) = some 2 ∧
      Option.Rel (Alike (SameSight .vm2) (Concerns .vm1))
        (run Switch.step Switch.waiting afterClear) (run Switch.step u afterClear) := by
  have outcome : (Switch.waiting.write clearWaiting).map (fun r =>
      decide (r.1.readReg .vm1 .msgsts = 0 ∧ AlongBoth Switch.step
        (fun w u action => ConfigRegister.msgsts = .msgsts → SameAcceptance .vm1 w u action)
        Switch.waiting r.1 afterClear)) = some true := by decide +kernel
  obtain ⟨⟨u, calls⟩, written, reached⟩ := Option.map_eq_some_iff.mp outcome
  obtain ⟨clear, accepts⟩ := of_decide_eq_true reached
  have found : clearWaiting.register = some .msgsts := decode_addr .msgsts
  exact ⟨u, calls, written,
    clear, by decide +kernel, (registers_isolated found rfl written accepts).2⟩

def unmask : Bar0Write := ⟨.vm1, ConfigRegister.ntintmsk.addr, 0, .absent⟩

def ring : List Action := [.write ⟨.vm1, ConfigRegister.outdbellset.addr, 1, .absent⟩]

theorem mask_shared :
    ∃ u calls, Switch.realized.write unmask = some (u, calls) ∧
      (run Switch.step Switch.realized ring).map
        (fun r => (r.1.readReg .vm2 .ntintmsk, r.1.readReg .vm2 .ntintsts)) = some (0xBB, 0) ∧
      (run Switch.step u ring).map
        (fun r => (r.1.readReg .vm2 .ntintmsk, r.1.readReg .vm2 .ntintsts)) = some (0, 2) := by
  have outcome : (Switch.realized.write unmask).map (fun r =>
      (run Switch.step r.1 ring).map
        (fun r => (r.1.readReg .vm2 .ntintmsk, r.1.readReg .vm2 .ntintsts))) =
          some (some (0, 2)) := by
    decide +kernel
  obtain ⟨⟨u, calls⟩, written, reached⟩ := Option.map_eq_some_iff.mp outcome
  exact ⟨u, calls, written, by decide +kernel, reached⟩

end IdtNtb.Device
