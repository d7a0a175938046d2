import IdtNtb.Fabric.Identity
import IdtNtb.Lib.History

/-! Interrupts raised at the peer. A raise is signalled at once unless the
peer's descriptor has not arrived, its id is unknown or the bit is masked. The
handlers that remove the first two obstacles kick again; a store into NTINTMSK
removes the third and kicks nobody. -/
namespace IdtNtb.Fabric
open Device Transition History

/-- `a` has the interrupt descriptor of process `b` and takes it for its peer. -/
def Connected (a b : Node) : Prop :=
  a.dev.otherVmId = b.dev.vmId ∧ eventfdInterruptHost < a.dev.registered b.dev.vmId

instance (a b : Node) : Decidable (Connected a b) := inferInstanceAs (Decidable (_ ∧ _))

def Event.Raises (r : Role) (k : Nat) : Event → Prop
  | .raised q bit => q = r ∧ bit.getLsbD k = true
  | _ => False

instance (r : Role) (k : Nat) : DecidablePred (Event.Raises r k) := fun e => by
  cases e <;> unfold Event.Raises <;> infer_instance

/-- Device `r` raised bit `k` and has not signalled the process since. -/
def Unsignalled (r : Role) (vmId : Int) (k : Nat) (es : List Event) : Prop :=
  Outstanding (Event.Raises r k) (· = .called r (.eventNotifierSet vmId eventfdInterruptHost)) es

instance (r : Role) (vmId : Int) (k : Nat) (es : List Event) :
    Decidable (Unsignalled r vmId k es) :=
  inferInstanceAs (Decidable (Outstanding _ _ es))

/-- Without an outstanding notification, a device that is connected to its peer
has signalled every unmasked bit that it raised there. -/
def InterruptsSignalled (es : List Event) (f : World) : Prop :=
  (∀ q n, f.node q = some n → n.vmIdPending = false) →
    ∀ r a b, f.node r = some a → f.node r.peer = some b → Connected a b → ∀ k,
      (f.shm.vm r.peer).regs.intsts.getLsbD k = true → f.shm.gregs.ntIntMask.getLsbD k = false →
        ¬Unsignalled r b.dev.vmId k es

/-- Of the stores into BAR 0, those into NTINTMSK. -/
def Action.Interrupting : Action → Prop
  | .input _ (.write addr _ _) => ConfigRegister.decode addr = some .ntintmsk
  | _ => True

instance : DecidablePred Action.Interrupting
  | .input _ (.write addr _ _) =>
      inferInstanceAs (Decidable (ConfigRegister.decode addr = some .ntintmsk))
  | .start _ _ | .stop _ | .input _ (.raise _) | .input _ (.message _) | .input _ (.vmId _)
  | .input _ (.relocate _ _) => .isTrue trivial

/-- The mask `val` uncovers no bit that `r` raised at its peer, could signal and
has not signalled. -/
def UncoversSignalled (es : List Event) (f : World) (val : BitVec 32) (r : Role) : Prop :=
  match f.node r, f.node r.peer with
  | some a, some b => a.vmIdPending = false → Connected a b → ∀ k < 32,
      (f.shm.vm r.peer).regs.intsts.getLsbD k = true → f.shm.gregs.ntIntMask.getLsbD k = true →
        val.getLsbD k = false → ¬Unsignalled r b.dev.vmId k es
  | _, _ => True

instance (es : List Event) (f : World) (val : BitVec 32) (r : Role) :
    Decidable (UncoversSignalled es f val r) := by
  dsimp only [UncoversSignalled]
  exact match f.node r, f.node r.peer with
    | some _, some _ => inferInstance
    | some _, none => inferInstance
    | none, _ => inferInstance

/-- A store into NTINTMSK uncovers only bits that have been signalled. -/
def UnmasksSignalled (es : List Event) (f : World) : Action → Prop
  | .input _ (.write _ val _) => UncoversSignalled es f val .vm1 ∧ UncoversSignalled es f val .vm2
  | _ => True

instance (es : List Event) (f : World) : DecidablePred (UnmasksSignalled es f)
  | .input _ (.write _ val _) =>
      inferInstanceAs (Decidable (UncoversSignalled es f val .vm1 ∧
        UncoversSignalled es f val .vm2))
  | .start _ _ | .stop _ | .input _ (.raise _) | .input _ (.message _) | .input _ (.vmId _)
  | .input _ (.relocate _ _) => .isTrue trivial

/-- What holds of the raises of one device, and the ids that it can know. -/
structure Signalled (es : List Event) (f : World) : Prop where
  attached : ∀ r n, f.node r = some n → n.dev.attached = true
  known : ∀ r n, f.node r = some n → ∀ posn : Nat, eventfdInterruptHost < n.dev.registered posn →
      posn ∈ f.used
  signalled : ∀ r a b, f.node r = some a → f.node r.peer = some b → a.vmIdPending = false →
    Connected a b → ∀ k, (f.shm.vm r.peer).regs.intsts.getLsbD k = true →
      f.shm.gregs.ntIntMask.getLsbD k = false → ¬Unsignalled r b.dev.vmId k es

theorem unsignalled_bound (unsignalled : Unsignalled r vmId k es) : k < 32 := by
  obtain ⟨before, e, after, rfl, raises, _⟩ := unsignalled
  cases e with
  | raised q bit => exact BitVec.lt_of_getLsbD raises.2
  | _ => exact raises.elim

/-- Events of `r` say nothing of what its peer raised. -/
theorem unsignalled_peer (r : Role) (i : Input) (effects : List Effect) :
    Unsignalled r.peer vmId k (es ++ (i.events r ++ effects.map (.called r))) ↔
      Unsignalled r.peer vmId k es := by
  refine outstanding_apart fun e member => ?_
  rcases List.mem_append.mp member with raised | called
  · cases i with
    | raise bit =>
      obtain rfl := List.mem_singleton.mp raised
      refine ⟨fun raises => r.peer_ne raises.1.symm, by simp⟩
    | _ => simp [Input.events] at raised
  · obtain ⟨effect, -, rfl⟩ := List.mem_map.mp called
    refine ⟨id, fun same => r.peer_ne ?_⟩
    exact (Event.called.inj same).1.symm

/-- A kick signals a connected peer that has a pending bit unmasked. -/
theorem kick_signals (attached : s.attached = true)
    (kick : idtKickPeerInterrupt r s m = (t, kicked))
    (named : t.otherVmId = vmId) (arrived : eventfdInterruptHost < t.registered vmId)
    (bound : k < 32)
    (pending : (m.vm r.peer).regs.intsts.getLsbD k = true)
    (unmasked : m.gregs.ntIntMask.getLsbD k = false) :
    kicked = [.eventNotifierSet vmId eventfdInterruptHost] := by
  rw [kick_eq] at kick
  cases kick
  have named : adoptedId r s m = vmId := named
  rw [named]
  exact if_pos ⟨attached, arrived, unmasked_of_bit bound pending unmasked⟩

theorem kick_not_unsignalled (attached : s.attached = true)
    (kick : idtKickPeerInterrupt r s m = (t, kicked)) (named : t.otherVmId = vmId)
    (arrived : eventfdInterruptHost < t.registered vmId)
    (pending : (m.vm r.peer).regs.intsts.getLsbD k = true)
    (unmasked : m.gregs.ntIntMask.getLsbD k = false) (first : List Effect) (i : Input) :
    ¬Unsignalled r vmId k (es ++ (i.events r ++ (first ++ kicked).map (.called r))) := by
  intro unsignalled
  have bound := unsignalled_bound unsignalled
  rw [kick_signals attached kick named arrived bound pending unmasked, List.map_append,
    ← List.append_assoc, ← List.append_assoc] at unsignalled
  refine not_outstanding_closed ?_ ?_ unsignalled
  · rfl
  · exact id

/-- An input, from what it does to the device's own raises and its peer's. -/
theorem Signalled.after {f : World} (inv : Signalled es f) (running : f.node r = some a)
    (attached : t.attached = a.dev.attached) (ids : t.vmId = a.dev.vmId)
    (known : ∀ posn : Nat, eventfdInterruptHost < t.registered posn →
      eventfdInterruptHost < a.dev.registered posn ∨ posn ∈ f.used)
    (own : ∀ b, f.node r.peer = some b → i.pendingAfter a = false → t.otherVmId = b.dev.vmId →
      eventfdInterruptHost < t.registered b.dev.vmId → ∀ k,
      (m.vm r.peer).regs.intsts.getLsbD k = true → m.gregs.ntIntMask.getLsbD k = false →
        ¬Unsignalled r b.dev.vmId k (es ++ (i.events r ++ effects.map (.called r))))
    (peer : ∀ b, f.node r.peer = some b → b.vmIdPending = false → Connected b a → ∀ k,
      (m.vm r).regs.intsts.getLsbD k = true → m.gregs.ntIntMask.getLsbD k = false →
        ¬Unsignalled r.peer a.dev.vmId k es) :
    Signalled (es ++ (i.events r ++ effects.map (.called r))) (f.after r a i t m effects) := by
  refine ⟨each_after ?_ ?_, each_after ?_ ?_, pairs_after ?_ ?_⟩
  · exact attached.trans (inv.attached r a running)
  · exact fun b present => inv.attached r.peer b present
  · intro posn arrived
    rcases known posn arrived with earlier | given
    · exact inv.known r a running posn earlier
    · exact given
  · exact fun b present => inv.known r.peer b present
  · rintro b present quiet ⟨named, arrived⟩
    exact own b present (Bool.or_eq_false_iff.mp quiet).1 named arrived
  · rintro b present quiet ⟨named, arrived⟩ k pending unmasked
    dsimp only at named arrived ⊢
    rw [ids] at named arrived ⊢
    rw [Role.peer_peer] at pending
    rw [unsignalled_peer]
    exact peer b present (Bool.or_eq_false_iff.mp quiet).1 ⟨named, arrived⟩ k pending unmasked

/-- An input that ends in a kick, with the peer's view of the block unchanged. -/
theorem signalled_kick {f : World} (inv : Signalled es f) (running : f.node r = some a)
    (kick : idtKickPeerInterrupt r s m = (t, kicked)) (first : List Effect)
    (attached : s.attached = a.dev.attached) (ids : s.vmId = a.dev.vmId)
    (known : ∀ posn : Nat, eventfdInterruptHost < s.registered posn →
      eventfdInterruptHost < a.dev.registered posn ∨ posn ∈ f.used)
    (intsts : (m.vm r).regs.intsts = (f.shm.vm r).regs.intsts)
    (mask : m.gregs.ntIntMask = f.shm.gregs.ntIntMask) :
    Signalled (es ++ (i.events r ++ (first ++ kicked).map (.called r)))
      (f.after r a i t m (first ++ kicked)) := by
  have adopted : t = s.adopt r m := by
    rw [kick_eq] at kick
    exact (congrArg Prod.fst kick).symm
  refine inv.after running ?_ ?_ ?_ ?_ ?_
  · rw [adopted]
    exact attached
  · rw [adopted]
    exact ids
  · rw [adopted]
    exact known
  · intro b present _ named arrived k pending unmasked
    have linked : s.attached = true := attached.trans (inv.attached r a running)
    exact kick_not_unsignalled linked kick named arrived pending unmasked first i
  · intro b present quiet connected k pending unmasked
    rw [intsts] at pending
    rw [mask] at unmasked
    refine inv.signalled r.peer b a present ?_ quiet connected k ?_ unmasked
    · rw [Role.peer_peer, running]
    · rw [Role.peer_peer, pending]

/-- An input without effects on ids, interrupts and masks. -/
theorem signalled_still {f : World} (inv : Signalled es f) (running : f.node r = some a)
    (attached : t.attached = a.dev.attached) (ids : t.vmId = a.dev.vmId)
    (other : t.otherVmId = a.dev.otherVmId)
    (fewer : ∀ id : Int, eventfdInterruptHost < t.registered id →
      eventfdInterruptHost < a.dev.registered id)
    (pendingAfter : i.pendingAfter a = a.vmIdPending) (quietly : i.events r = []) :
    Signalled (es ++ (i.events r ++ [].map (.called r))) (f.after r a i t f.shm []) := by
  refine inv.after running attached ids (fun posn arrived => Or.inl (fewer posn arrived)) ?_ ?_
  · intro b present quiet named arrived k pending unmasked
    rw [quietly, List.map_nil, List.append_nil, List.append_nil]
    rw [pendingAfter] at quiet
    exact inv.signalled r a b running present quiet ⟨other ▸ named, fewer _ arrived⟩ k
      pending unmasked
  · intro b present quiet connected k pending unmasked
    refine inv.signalled r.peer b a present ?_ quiet connected k ?_ unmasked
    · rw [Role.peer_peer, running]
    · rw [Role.peer_peer, pending]

theorem uncovers_role (both : UncoversSignalled es f val .vm1 ∧ UncoversSignalled es f val .vm2)
    (r : Role) : UncoversSignalled es f val r := by
  cases r with
  | vm1 => exact both.1
  | vm2 => exact both.2

/-- Under a mask that uncovers only signalled bits. -/
theorem signalled_unmask {f : World} (inv : Signalled es f) (covered : UncoversSignalled es f val r)
    (foundA : f.node r = some a) (foundB : f.node r.peer = some b) (quiet : a.vmIdPending = false)
    (connected : Connected a b) (pending : (f.shm.vm r.peer).regs.intsts.getLsbD k = true)
    (unmasked : val.getLsbD k = false) : ¬Unsignalled r b.dev.vmId k es := by
  cases before : f.shm.gregs.ntIntMask.getLsbD k with
  | false => exact inv.signalled r a b foundA foundB quiet connected k pending before
  | true =>
    simp only [UncoversSignalled, foundA, foundB] at covered
    exact covered quiet connected k (BitVec.lt_of_getLsbD before) pending before unmasked

theorem signalled_mask {f : World} (inv : Signalled es f) (running : f.node r = some a)
    (listed : ConfigRegister.decode addr = some .ntintmsk)
    (unmasks : UnmasksSignalled es f (.input r (.write addr val file)))
    (handled : handle vectors r a.dev f.shm (.write addr val file) = some (t, m, effects)) :
    Signalled (es ++ (Input.events r (.write addr val file) ++ effects.map (.called r)))
      (f.after r a (.write addr val file) t m effects) := by
  simp only [handle, ivshmemIoWrite, listed, Option.some.injEq, Prod.mk.injEq] at handled
  obtain ⟨rfl, rfl, rfl⟩ := handled
  have narrow : (val.setWidth 64).setWidth 32 = val := by simp
  refine inv.after running rfl rfl (fun _ => Or.inl) ?_ ?_
  · intro b present quiet named arrived k pending unmasked
    simp only [narrow] at unmasked
    simp only [Input.events, List.map_nil, List.append_nil]
    exact signalled_unmask inv (uncovers_role unmasks r) running present quiet
      ⟨named, arrived⟩ pending unmasked
  · intro b present quiet connected k pending unmasked
    simp only [narrow] at unmasked
    refine signalled_unmask inv (uncovers_role unmasks r.peer) present ?_ quiet
      connected ?_ unmasked
    · rw [Role.peer_peer, running]
    · rw [Role.peer_peer]
      exact pending

/-- The registers of both devices and the mask outlive the publication of an id. -/
theorem initVmIds_registers (ids : initVmIds r s shm = (middle, m, notified)) :
    middle.attached = s.attached ∧ m.gregs = shm.gregs ∧ ∀ q, (m.vm q).regs = (shm.vm q).regs := by
  cases r <;> cases ids <;> refine ⟨rfl, rfl, fun q => ?_⟩ <;> cases q <;> simp [SharedMemory.mapVm]

theorem signalled_message {f : World} (inv : Signalled es f) (running : f.node r = some a)
    (accepts : f.Accepts a (.message msg)) (heard : Heard r a.dev f.shm msg t m effects) :
    Signalled (es ++ (Input.events r (.message msg) ++ effects.map (.called r)))
      (f.after r a (.message msg) t m effects) := by
  have gained : ∀ {posn : Nat} {counts : Int → Nat}, posn ∈ f.used →
      counts = Function.update a.dev.registered posn 2 → ∀ other : Nat,
        eventfdInterruptHost < counts other → eventfdInterruptHost < a.dev.registered other ∨
          other ∈ f.used := by
    rintro posn _ given rfl other arrived
    by_cases same : other = posn
    · exact Or.inr (same ▸ given)
    · rw [Function.update_of_ne (by omega)] at arrived
      exact Or.inl arrived
  cases heard with
  | counted peers n counts gained own =>
    refine signalled_still inv running rfl rfl rfl ?_ rfl rfl
    intro id arrived
    rw [counts] at arrived
    by_cases same : id = msg.posn
    · subst same
      rw [Function.update_self] at arrived
      exact gained arrived
    · rw [Function.update_of_ne same] at arrived
      exact arrived
  | known peers other before counts kick =>
    exact signalled_kick inv running kick [] rfl rfl (gained accepts counts) rfl rfl
  | setUp peers own before counts ids kick =>
    obtain ⟨attached, gregs, regs⟩ := initVmIds_registers ids
    obtain ⟨vmId, registered⟩ := initVmIds_device ids
    refine signalled_kick inv running kick _ attached vmId
      (gained accepts (registered.trans counts)) ?_ ?_
    · rw [regs]
    · rw [gregs]

theorem raise_kick (raise : idtRaisePeerInterrupt r s shm bit = (t, m, effects)) :
    m = shm.pend r.peer bit ∧ idtKickPeerInterrupt r s m = (t, effects) := by
  cases raise
  exact ⟨rfl, rfl⟩

/-- The VM_ID handler ends in a kick with the peer's id looked up. -/
theorem vmId_kick (handled : handle vectors r s shm (.vmId file) = some (t, m, effects)) :
    m = shm ∧ ∃ middle refreshed kicked,
      AliasesOnly { s with otherVmId := (shm.vm r.peer).id.toInt } middle ∧
        idtKickPeerInterrupt r middle shm = (t, kicked) ∧ effects = refreshed ++ kicked := by
  cases handled
  exact ⟨rfl, _, _, _, refreshAliases_only file r _ shm, rfl, rfl⟩

theorem signalled_input {f : World} (inv : Signalled es f) (running : f.node r = some a)
    (accepts : f.Accepts a i) (listed : Action.Interrupting (.input r i))
    (unmasks : UnmasksSignalled es f (.input r i))
    (handled : handle vectors r a.dev f.shm i = some (t, m, effects)) :
    Signalled (es ++ (i.events r ++ effects.map (.called r))) (f.after r a i t m effects) := by
  cases i with
  | write addr val file => exact signalled_mask inv running listed unmasks handled
  | raise bit =>
    obtain ⟨rfl, kick⟩ := raise_kick (Option.some.inj handled)
    refine signalled_kick inv running kick [] rfl rfl (fun _ => Or.inl) ?_ rfl
    have own := pend_peer f.shm r.peer bit
    rw [Role.peer_peer] at own
    exact congrArg (fun v => v.regs.intsts) own
  | message msg =>
    exact signalled_message inv running accepts (processMsg_heard (Option.some.inj handled))
  | vmId file =>
    obtain ⟨rfl, middle, refreshed, kicked, ⟨_, _, _, rfl⟩, kick, rfl⟩ := vmId_kick handled
    exact signalled_kick inv running kick refreshed rfl rfl (fun _ => Or.inl) rfl rfl
  | relocate idx base =>
    cases handled
    exact signalled_still inv running rfl rfl rfl (fun _ => id) rfl rfl

theorem signalled_step {f : World} (inv : Signalled es f) (listed : action.Interrupting)
    (unmasks : UnmasksSignalled es f action)
    (stepped : World.step vectors f action = some (g, fs)) : Signalled (es ++ fs) g := by
  cases step_moves stepped with
  | @start r vmId stopped bound fresh =>
    refine ⟨each_start rfl (inv.attached r.peer), each_start ?_ ?_, pairs_start ?_ ?_⟩
    · intro posn arrived
      simp [realized_registered] at arrived
    · intro b present posn arrived
      exact List.mem_cons_of_mem _ (inv.known r.peer b present posn arrived)
    · rintro b _ _ ⟨-, arrived⟩
      simp [realized_registered] at arrived
    · rintro b present _ ⟨-, arrived⟩
      exact absurd (inv.known r.peer b present vmId arrived) fresh
  | @stop r n running =>
    rw [List.append_nil]
    exact ⟨each_stop (inv.attached r.peer), each_stop (inv.known r.peer), pairs_stop⟩
  | input running accepts handled =>
    exact signalled_input inv running accepts listed unmasks handled

/-- From no running device, over any schedule of raises, NTINTMSK stores, starts,
stops, server messages and VM_ID notifications in which a mask uncovers only
signalled bits: no unmasked bit that a device raised at a connected peer is left
without a signal. -/
theorem interrupts_signalled (vectors : Nat) (f : World) (actions : List Action)
    (stopped : ∀ r, f.node r = none) (listed : ∀ action ∈ actions, action.Interrupting)
    (unmasks : AlongHistory (World.step vectors) UnmasksSignalled [] f actions)
    (path : run (World.step vectors) f actions = some (g, es)) : InterruptsSignalled es g := by
  have initial : Signalled [] f :=
    ⟨fun r n found => by simp [stopped r] at found, fun r n found => by simp [stopped r] at found,
      fun r a b found => by simp [stopped r] at found⟩
  have inv : Signalled es g := run_history (P := Signalled)
    (fun inv listed unmasks stepped => signalled_step inv listed unmasks stepped) initial
      listed unmasks path
  intro quiet r a b foundA foundB connected k pending unmasked
  exact inv.signalled r a b foundA foundB (quiet r a foundA) connected k pending unmasked

def unmasksThenRaises : List Action :=
  documentedOrder ++
    [Action.input .vm2 (.write ConfigRegister.ntintmsk.addr 0 .absent), .input .vm1 (.raise 2)]

/-- The same with the doorbell first, under the mask of the realize. -/
def raisesThenUnmasks : List Action :=
  documentedOrder ++
    [Action.input .vm1 (.raise 2), .input .vm2 (.write ConfigRegister.ntintmsk.addr 0 .absent)]

theorem interrupts_signalled_unmasked_first :
    ∃ g es, run (World.step 2) .empty unmasksThenRaises = some (g, es) ∧ InterruptsSignalled es g ∧
      .called .vm1 (.eventNotifierSet 1 eventfdInterruptHost) ∈ es := by
  have reads : (run (World.step 2) .empty unmasksThenRaises).map
      (fun reached =>
        decide (.called .vm1 (.eventNotifierSet 1 eventfdInterruptHost) ∈ reached.2)) =
        some true := by decide +kernel
  obtain ⟨⟨g, es⟩, path, sent⟩ := Option.map_eq_some_iff.mp reads
  refine ⟨g, es, path, ?_, of_decide_eq_true sent⟩
  exact interrupts_signalled 2 .empty unmasksThenRaises (fun _ => rfl) (by decide +kernel)
    (by decide +kernel) path

/-- The doorbell is pending and unmasked at a connected peer, no notification is
outstanding, and the first device has signalled nothing since. -/
theorem interrupt_stranded :
    ∃ g es, run (World.step 2) .empty raisesThenUnmasks = some (g, es) ∧
      ¬InterruptsSignalled es g := by
  have reads : (run (World.step 2) .empty raisesThenUnmasks).bind (fun reached =>
      (reached.1.node .vm1).bind fun a => (reached.1.node .vm2).map fun b =>
        ((a.vmIdPending, b.vmIdPending, decide (Connected a b)),
          (reached.1.shm.vm .vm2).regs.intsts.getLsbD 1, reached.1.shm.gregs.ntIntMask.getLsbD 1,
          decide (Unsignalled .vm1 b.dev.vmId 1 reached.2))) =
        some ((false, false, true), true, false, true) := by decide +kernel
  obtain ⟨⟨g, es⟩, path, found⟩ := Option.bind_eq_some_iff.mp reads
  obtain ⟨a, foundA, found⟩ := Option.bind_eq_some_iff.mp found
  obtain ⟨b, foundB, same⟩ := Option.map_eq_some_iff.mp found
  simp only [Prod.mk.injEq, decide_eq_true_eq] at same
  obtain ⟨⟨quietA, quietB, connected⟩, pending, unmasked, unsignalled⟩ := same
  refine ⟨g, es, path,
    fun signalled => signalled ?_ .vm1 a b foundA foundB connected 1 pending unmasked unsignalled⟩
  intro q n present
  cases q with
  | vm1 =>
    obtain rfl := Option.some.inj (foundA.symm.trans present)
    exact quietA
  | vm2 =>
    obtain rfl := Option.some.inj (foundB.symm.trans present)
    exact quietB

end IdtNtb.Fabric
