import IdtNtb.Device.Handlers
import IdtNtb.Device.Aliases

/-! Inbound windows set up for the peer through the out-of-spec registers. The
index is latched by LUTOFF and used, unchecked, by the four data registers; over
whole runs of the switch it stays inside the peer's table when every latched
value does. -/
namespace IdtNtb.Device
open Transition

/-- What a run of the switch is made of: stores of either guest into its BAR 0,
and event descriptors firing in either process. -/
inductive Action where
  | write (access : Bar0Write)
  | notified (r : Role) (file : PeerRamFile) (vector : EventVector)

def Switch.step (w : Switch) : Action → Option (Switch × List (Role × Effect))
  | .write access => w.write access
  | .notified r file vector => some (w.notify file r vector)

/-- Every store to a data register changes one field of one of the six entries
of the peer's table and no other word of the shared block. -/
def InboundConfined (w : Switch) : Prop :=
  ∀ (r : Role) (reg : ConfigRegister) (field : BarField) (val : BitVec 32) (file : PeerRamFile),
    reg.inboundField = some field →
      ∃ next effects, w.write ⟨r, reg.addr, val, file⟩ = some (next, effects) ∧
        ∃ i : Fin 6, ∀ k, next.shm.word k = if k = barWord r.peer i field then val else w.shm.word k

/-- The latched value of a store to LUTOFF is an index of the table. -/
def LatchesIndex : Action → Prop
  | .write access => access.addr = ConfigRegister.oofLutoff.addr → access.val.toNat < 6
  | .notified .. => True

instance : DecidablePred LatchesIndex
  | .write access => inferInstanceAs (Decidable (_ → access.val.toNat < 6))
  | .notified .. => inferInstanceAs (Decidable True)

def Indexed (w : Switch) : Prop := ∀ r, (w.dev r).lregs.inboundMwBar.toNat < 6

theorem AliasesOnly.lregs {s t : IVShmemState} (only : AliasesOnly s t) : t.lregs = s.lregs := by
  obtain ⟨_, _, _, rfl⟩ := only
  rfl

theorem vectorNotify_lregs (file : PeerRamFile) (r : Role) (s : IVShmemState) (shm : SharedMemory)
    (vector : EventVector) : (ivshmemVectorNotify file r s shm vector).1.lregs = s.lregs := by
  cases vector with
  | interruptHost => rfl
  | vmId =>
    simp only [ivshmemVectorNotify, kick_eq, IVShmemState.adopt,
      (refreshAliases_only file r _ shm).lregs]

/-- The only BAR 0 store that changes the latched index is one to LUTOFF. -/
theorem ioWrite_inboundMwBar (other : addr ≠ ConfigRegister.oofLutoff.addr)
    (written : ivshmemIoWrite file r s shm addr val = some (t, m, effects)) :
    t.lregs.inboundMwBar = s.lregs.inboundMwBar := by
  obtain ⟨reg, found, handled⟩ := ioWrite_handled written
  cases handled with
  | latched lregs kept =>
    apply kept
    rintro rfl
    exact other (addr_of_decode found).symm
  | raised middle bit same raise =>
    rw [raise_eq] at raise
    cases raise
    rfl
  | outmsg i sent =>
    cases outmsg_sent sent with
    | raised free raise =>
      rw [raise_eq] at raise
      cases raise
      rfl
    | _ => rfl
  | bar field i stored updated =>
    have only := updateAlias_only file s ((m.vm r).barConfig i) i
    rw [updated] at only
    rw [only.lregs]
  | inbound data sent =>
    simp only [writeInboundWindow, notify_eq] at sent
    cases sent
    rfl
  | _ => rfl

theorem ioWrite_lutoff (file : PeerRamFile) (r : Role) (s : IVShmemState) (shm : SharedMemory)
    (val : BitVec 64) :
    ivshmemIoWrite file r s shm ConfigRegister.oofLutoff.addr val =
      some ({ s with lregs := { s.lregs with inboundMwBar := val.setWidth 32 } }, shm, []) := by
  simp only [ivshmemIoWrite, decode_addr]

theorem write_indexed (indexed : Indexed w)
    (latches : access.addr = ConfigRegister.oofLutoff.addr → access.val.toNat < 6)
    (stepped : w.write access = some (next, effects)) : Indexed next := by
  simp only [Switch.write, Option.map_eq_some_iff, Prod.mk.injEq] at stepped
  obtain ⟨out, written, rfl, -⟩ := stepped
  intro q
  by_cases same : q = access.role
  · subst same
    simp only [Function.update_self]
    by_cases latch : access.addr = ConfigRegister.oofLutoff.addr
    · rw [latch, ioWrite_lutoff] at written
      obtain rfl := Option.some.inj written
      simpa using latches latch
    · rw [ioWrite_inboundMwBar latch written]
      exact indexed access.role
  · simp only [Function.update_of_ne same]
    exact indexed q

theorem notify_indexed (indexed : Indexed w) (file : PeerRamFile) (r : Role)
    (vector : EventVector) :
    Indexed (w.notify file r vector).1 := by
  intro q
  by_cases same : q = r
  · subst same
    simp only [Switch.notify, Function.update_self, vectorNotify_lregs]
    exact indexed q
  · simp only [Switch.notify, Function.update_of_ne same]
    exact indexed q

theorem step_indexed (indexed : Indexed w) (latches : LatchesIndex action)
    (stepped : w.step action = some (next, effects)) : Indexed next := by
  cases action with
  | write access => exact write_indexed indexed latches stepped
  | notified r file vector =>
    have moved := notify_indexed indexed file r vector
    rwa [Option.some.inj stepped] at moved

theorem word_writeInbound (r : Role) (s : IVShmemState) (shm : SharedMemory) (field : BarField)
    (val : BitVec 64) (k : Nat) :
    (writeInboundWindow r s shm field val).2.1.word k =
      if k = barWord r.peer s.lregs.inboundMwBar.toNat field then val.setWidth 32 else shm.word k :=
  word_store shm _ k _

theorem write_inbound {reg : ConfigRegister} (w : Switch) (r : Role) (val : BitVec 32)
    (file : PeerRamFile) (data : reg.inboundField = some field) :
    ∃ next effects, w.write ⟨r, reg.addr, val, file⟩ = some (next, effects) ∧
      ∀ k, next.shm.word k =
        if k = barWord r.peer (w.dev r).lregs.inboundMwBar.toNat field then
          val else w.shm.word k := by
  let out := writeInboundWindow r (w.dev r) w.shm field (val.setWidth 64)
  have handled : ivshmemIoWrite file r (w.dev r) w.shm reg.addr (val.setWidth 64) = some out :=
    ioWrite_inbound data file r (w.dev r) w.shm (val.setWidth 64)
  refine ⟨⟨out.2.1, Function.update w.dev r out.1⟩, out.2.2.map fun e => (r, e), ?_, ?_⟩
  · simp only [Switch.write, handled, Option.map_some]
  · intro k
    have stored := word_writeInbound r (w.dev r) w.shm field (val.setWidth 64) k
    simpa using stored

theorem indexed_confined (indexed : Indexed w) : InboundConfined w := by
  intro r reg field val file data
  obtain ⟨next, effects, written, changed⟩ := write_inbound w r val file data
  exact ⟨next, effects, written, ⟨_, indexed r⟩, changed⟩

/-- An index past the table always escapes it: the addressed word is not one of
the table's, and a store of any new value shows it. -/
theorem confined_indexed (confined : InboundConfined w) : Indexed w := by
  intro r
  by_contra past
  let index := (w.dev r).lregs.inboundMwBar.toNat
  let hit := barWord r.peer index .limit
  have data : ConfigRegister.oofLlimit.inboundField = some .limit := rfl
  obtain ⟨next, effects, written, i, claimed⟩ :=
    confined r .oofLlimit .limit (w.shm.word hit + 1) .absent data
  obtain ⟨next', effects', written', actual⟩ :=
    write_inbound w r (w.shm.word hit + 1) .absent data
  rw [written] at written'
  obtain ⟨rfl, rfl⟩ := Prod.mk.inj (Option.some.inj written')
  have elsewhere : hit ≠ barWord r.peer i .limit := by
    simp only [hit, barWord, index]
    omega
  have changed := (claimed hit).symm.trans (actual hit)
  rw [if_neg elsewhere, if_pos rfl] at changed
  bv_omega

/-- From the zero index that realize leaves, every state of a run in which only
table indices are latched keeps the data registers inside the peer's table. -/
theorem inbound_confined (w : Switch) (actions : List Action)
    (fresh : ∀ r, (w.dev r).lregs.inboundMwBar = 0)
    (latched : ∀ action ∈ actions, LatchesIndex action)
    (path : run Switch.step w actions = some (next, effects)) : InboundConfined next := by
  have initial : Indexed w := by
    intro r
    rw [fresh r]
    decide
  exact indexed_confined
    (run_preserves step_indexed initial (along_labels latched w) path)

def latch (r : Role) (val : BitVec 32) : Action :=
  .write ⟨r, ConfigRegister.oofLutoff.addr, val, .absent⟩

theorem inbound_confined_last_entry :
    ∃ next effects, run Switch.step .realized [latch .vm2 5] = some (next, effects) ∧
      InboundConfined next :=
  ⟨_, _, rfl, inbound_confined .realized [latch .vm2 5] (fun r => by cases r <;> rfl)
    (by decide) rfl⟩

/-- Once `vm2` has latched 6, its store to LLIMIT lands in its own doorbell
register, the second word behind `vm1`'s table. -/
theorem inbound_escapes_past_table :
    ∃ next effects, run Switch.step .realized [latch .vm2 6] = some (next, effects) ∧
      ¬ InboundConfined next ∧ Word.at (barWord .vm1 6 .limit) = .vm .vm2 (.reg .db) :=
  ⟨_, _, rfl, fun confined => absurd (confined_indexed confined .vm2) (by decide), by decide⟩

end IdtNtb.Device
