import IdtNtb.Fabric.Machine
import IdtNtb.Device.Aliases

/-! Whom a device takes for its peer. Each device publishes its id in a shared
word when its interrupt setup completes; the other device adopts the word
lazily, on a VM_ID notification, or, as the second VM, in its own setup. Only
the second VM sends that notification. -/
namespace IdtNtb.Fabric
open Device Transition

/-- The device has received its own descriptors up to the interrupt. -/
def Node.SetUp (n : Node) : Prop := eventfdInterruptHost < n.dev.registered n.dev.vmId

instance (n : Node) : Decidable n.SetUp := inferInstanceAs (Decidable (_ < _))

/-- `a` knows no peer or knows `b`, or will look again. -/
def Settled (a b : Node) : Prop :=
  a.vmIdPending = true ∨ a.dev.otherVmId = -1 ∨ a.dev.otherVmId = b.dev.vmId

instance (a b : Node) : Decidable (Settled a b) := inferInstanceAs (Decidable (_ ∨ _ ∨ _))

/-- With both devices set up and no notification outstanding, each device that
has a peer id has that of the other device. -/
def PeersAgree (f : World) : Prop :=
  ∀ r a b, f.node r = some a → f.node r.peer = some b → a.SetUp → b.SetUp →
    a.vmIdPending = false → b.vmIdPending = false →
    a.dev.otherVmId = -1 ∨ a.dev.otherVmId = b.dev.vmId

/-- For device `a` of role `r` completing its setup while `b` is set up: the
first VM needs both settled, the second that its notification reaches the first
or is not needed. -/
def SetupSettles : Role → Node → Node → Prop
  | .vm1, a, b => Settled a b ∧ Settled b a
  | .vm2, a, b => Settled b a ∨ eventfdVmId < a.dev.registered b.dev.vmId

instance : ∀ r a b, Decidable (SetupSettles r a b)
  | .vm1, _, _ => inferInstanceAs (Decidable (_ ∧ _))
  | .vm2, _, _ => inferInstanceAs (Decidable (_ ∨ _))

/-- A setup that completes while the other device is set up settles both. -/
def SetsUpInOrder (f : World) : Action → Prop
  | .input r (.message (.connect posn)) =>
      match f.node r, f.node r.peer with
      | some a, some b =>
          (posn : Int) = a.dev.vmId → a.dev.registered posn = 1 → b.SetUp → SetupSettles r a b
      | _, _ => True
  | _ => True

instance (f : World) : DecidablePred (SetsUpInOrder f) := fun action => by
  unfold SetsUpInOrder
  split
  · split <;> infer_instance
  · infer_instance

/-- The device keeps its id and its setup, and takes for its peer whom it took
before or whom the peer's word names. -/
structure KeepsIdentity (r : Role) (s t : IVShmemState) (shm : SharedMemory) : Prop where
  vmId : t.vmId = s.vmId
  setUp : eventfdInterruptHost < t.registered t.vmId ↔ eventfdInterruptHost < s.registered s.vmId
  other : t.otherVmId = s.otherVmId ∨ t.otherVmId = (shm.vm r.peer).id.toInt

theorem KeepsIdentity.refl (r : Role) (s : IVShmemState) (shm : SharedMemory) :
    KeepsIdentity r s s shm :=
  ⟨rfl, Iff.rfl, Or.inl rfl⟩

theorem keepsIdentity_adopt (word : (m.vm r.peer).id = (shm.vm r.peer).id) :
    KeepsIdentity r s (s.adopt r m) shm :=
  ⟨rfl, Iff.rfl, word ▸ adopt_other r s m⟩

theorem aliasesOnly_identity (r : Role) (shm : SharedMemory) (only : AliasesOnly s t) :
    KeepsIdentity r s t shm := by
  obtain ⟨_, _, _, rfl⟩ := only
  exact ⟨rfl, Iff.rfl, Or.inl rfl⟩

theorem handled_identity (handled : Handled file r s shm reg val t m effects) :
    KeepsIdentity r s t shm := by
  have ids := handled_ids handled r.peer
  cases handled with
  | latched => exact ⟨rfl, Iff.rfl, Or.inl rfl⟩
  | raised middle bit same raise =>
    rw [raise_eq] at raise
    cases raise
    exact keepsIdentity_adopt ids
  | outmsg i sent =>
    cases outmsg_sent sent with
    | raised free raise =>
      rw [raise_eq] at raise
      cases raise
      exact keepsIdentity_adopt ids
    | _ => exact .refl r s shm
  | bar field i stored updated =>
    have only := updateAlias_only file s ((m.vm r).barConfig i) i
    rw [updated] at only
    exact aliasesOnly_identity r shm only
  | inbound data sent =>
    simp only [writeInboundWindow, notify_eq] at sent
    cases sent
    exact keepsIdentity_adopt ids
  | _ => exact .refl r s shm

theorem vectorNotify_other (file : PeerRamFile) (r : Role) (s : IVShmemState) (shm : SharedMemory) :
    (ivshmemVectorNotify file r s shm .vmId).1.otherVmId = (shm.vm r.peer).id.toInt ∧
      KeepsIdentity r s (ivshmemVectorNotify file r s shm .vmId).1 shm := by
  simp only [ivshmemVectorNotify, kick_eq]
  have only := refreshAliases_only file r { s with otherVmId := (shm.vm r.peer).id.toInt } shm
  generalize (idtBarRefreshPeerRamAliases file r _ shm).1 = refreshed at only
  have keeps := aliasesOnly_identity r shm only
  have named : (refreshed.adopt r shm).otherVmId = (shm.vm r.peer).id.toInt := by
    rcases adopt_other r refreshed shm with same | adopted
    · exact same.trans (keeps.other.elim id id)
    · exact adopted
  exact ⟨named, keeps.vmId, keeps.setUp, Or.inr named⟩

/-- What every input but a server message leaves alone. -/
theorem handle_identity (handled : handle vectors r s shm i = some (t, m, effects))
    (plain : ∀ msg, i ≠ .message msg) :
    KeepsIdentity r s t shm ∧ (∀ q, (m.vm q).id = (shm.vm q).id) ∧
      ∀ file, i = .vmId file → t.otherVmId = (shm.vm r.peer).id.toInt := by
  cases i with
  | write addr val file =>
    obtain ⟨reg, -, shape⟩ := ioWrite_handled handled
    exact ⟨handled_identity shape, handled_ids shape, nofun⟩
  | raise bit =>
    have raise := Option.some.inj handled
    rw [raise_eq] at raise
    cases raise
    exact ⟨keepsIdentity_adopt (pend_id ..), fun q => pend_id .., nofun⟩
  | message msg => exact absurd rfl (plain msg)
  | vmId file =>
    obtain ⟨named, keeps⟩ := vectorNotify_other file r s shm
    cases handled
    exact ⟨keeps, fun _ => rfl, fun _ _ => named⟩
  | relocate idx base =>
    cases handled
    exact ⟨⟨rfl, Iff.rfl, Or.inl rfl⟩, fun _ => rfl, nofun⟩

/-- A message that does not complete the setup. -/
theorem counted_identity {s : IVShmemState} (shm : SharedMemory)
    (counts : { s with peers := peers }.registered = Function.update s.registered posn n)
    (gained : 1 < n → 1 < s.registered posn) (own : posn = s.vmId → 1 < s.registered posn → 1 < n) :
    KeepsIdentity r s { s with peers := peers } shm := by
  refine ⟨rfl, ?_, Or.inl rfl⟩
  rw [counts]
  by_cases same : s.vmId = posn
  · subst same
    rw [Function.update_self]
    exact ⟨gained, own rfl⟩
  · rw [Function.update_of_ne same]

/-- Ids are those of the server, a device that is set up has published its own,
and of two such devices each is settled. -/
structure Identified (f : World) : Prop where
  ranged : ∀ r n, f.node r = some n → ∃ k : Nat, n.dev.vmId = k ∧ k ≤ ivshmemMaxPeers
  published : ∀ r n, f.node r = some n → n.SetUp → (f.shm.vm r).id.toInt = n.dev.vmId
  settled : ∀ r a b, f.node r = some a → f.node r.peer = some b → a.SetUp → b.SetUp → Settled a b

theorem Settled.signal (settled : Settled a b) (signal : Bool) :
    Settled { a with vmIdPending := a.vmIdPending || signal } b := by
  rcases settled with pending | known
  · exact Or.inl (by simp [pending])
  · exact Or.inr known

/-- The common part of all inputs: the device keeps its id, publishes it if it
is set up, and both devices are settled before the signals are counted. -/
theorem Identified.after {f : World} (inv : Identified f) (running : f.node r = some a)
    (vmId : t.vmId = a.dev.vmId)
    (own : eventfdInterruptHost < t.registered t.vmId → (m.vm r).id.toInt = t.vmId)
    (word : (m.vm r.peer).id = (f.shm.vm r.peer).id)
    (settles : ∀ b, f.node r.peer = some b → eventfdInterruptHost < t.registered t.vmId → b.SetUp →
      Settled ⟨t, i.pendingAfter a⟩ b ∧ (Settled b a ∨ signalled t effects b.dev.vmId = true)) :
    Identified (f.after r a i t m effects) := by
  refine ⟨each_after ?_ ?_, each_after ?_ ?_, pairs_after ?_ ?_⟩
  · simpa only [vmId] using inv.ranged r a running
  · exact fun b present => inv.ranged r.peer b present
  · exact own
  · intro b present setUp
    have published := inv.published r.peer b present setUp
    rw [← word] at published
    exact published
  · intro b present setUp peerSetUp
    have settled := (settles b present setUp peerSetUp).1
    exact settled.signal _
  · intro b present peerSetUp setUp
    rcases (settles b present setUp peerSetUp).2 with settled | signal
    · have known := settled.signal (signalled t effects b.dev.vmId)
      rwa [Settled, ← vmId] at known
    · exact Or.inl (by simp [signal])

theorem realized_registered (vmId : Int) (bars : Fin 6 → BitVec 64) (p : Int) :
    (IVShmemState.realized vmId bars).registered p = 0 := by
  cases p with
  | negSucc n => exact registered_negSucc _ n
  | ofNat n =>
    rw [Int.ofNat_eq_natCast, registered_natCast]
    simp only [IVShmemState.realized, List.getElem?_replicate]
    split <;> rfl

theorem realize_id (r : Role) (shm : SharedMemory) (q : Role) :
    ((ivshmemCommonRealize r shm).vm q).id = (shm.vm q).id := by
  have setups (m : SharedMemory) :
      ((m.mapVm r.peer fun v => { v with barConfig := (m.vm r).barConfig }).vm q).id =
        (m.vm q).id := by
    rcases Role.eq_or_peer r q with rfl | rfl
    · simp [mapVm_other]
    · simp
  unfold ivshmemCommonRealize
  dsimp only
  split
  · rw [setups]
    simp only [setBar_id, mapRegs_id]
  · simp only [setBar_id, mapRegs_id]

theorem initVmIds_words (ids : initVmIds r s shm = (middle, m, notified)) :
    (m.vm r).id = BitVec.ofInt 32 s.vmId ∧ (m.vm r.peer).id = (shm.vm r.peer).id := by
  cases r <;> cases ids <;> simp [SharedMemory.mapVm, Role.peer]

theorem initVmIds_device (ids : initVmIds r s shm = (middle, m, notified)) :
    middle.vmId = s.vmId ∧ middle.registered = s.registered := by
  cases r <;> cases ids <;> exact ⟨rfl, rfl⟩

theorem initVmIds_first (ids : initVmIds .vm1 s shm = (middle, m, notified)) :
    middle.otherVmId = s.otherVmId := by
  cases ids
  rfl

theorem initVmIds_second (ids : initVmIds .vm2 s shm = (middle, m, notified)) :
    middle.otherVmId = (m.vm .vm1).id.toInt ∧
      notified = [.eventNotifierSet (m.vm .vm1).id.toInt eventfdVmId] := by
  cases ids
  exact ⟨rfl, rfl⟩

theorem published_word {k : Nat} (bound : k ≤ ivshmemMaxPeers) :
    (BitVec.ofInt 32 (k : Int)).toInt = k := by
  unfold ivshmemMaxPeers at bound
  rw [BitVec.toInt_ofInt, Int.bmod_eq_of_le] <;> omega

/-- Completing the setup, with what the order of setups gives. -/
theorem identified_setUp {f : World} (inv : Identified f) (running : f.node r = some a)
    (ordered : SetsUpInOrder f (.input r (.message (.connect posn))))
    (own : (posn : Int) = a.dev.vmId)
    (before : a.dev.registered posn = 1)
    (counts : { a.dev with peers := peers }.registered = Function.update a.dev.registered posn 2)
    (ids : initVmIds r { a.dev with peers := peers } f.shm = (middle, m, notified))
    (kick : idtKickPeerInterrupt r middle m = (t, kicked)) :
    Identified (f.after r a (.message (.connect posn)) t m (notified ++ kicked)) := by
  obtain ⟨ownWord, peerWord⟩ := initVmIds_words ids
  obtain ⟨vmId, registered⟩ := initVmIds_device ids
  rw [kick_eq] at kick
  have adopted : t = middle.adopt r m := congrArg Prod.fst kick.symm
  subst adopted
  refine inv.after running vmId ?_ peerWord ?_
  · intro _
    obtain ⟨k, named, bound⟩ := inv.ranged r a running
    rw [ownWord]
    exact (congrArg (fun x => (BitVec.ofInt 32 x).toInt) named).trans
      ((published_word bound).trans (named.symm.trans vmId.symm))
  · intro b present _ setUp
    have published := inv.published r.peer b present setUp
    have settles : SetupSettles r a b := by
      simp only [SetsUpInOrder, running, present] at ordered
      exact ordered own before setUp
    rw [← peerWord] at published
    cases r with
    | vm1 =>
      refine ⟨?_, Or.inl settles.2⟩
      rcases settles.1 with pending | known
      · exact Or.inl pending
      · rcases adopt_other .vm1 middle m with same | adopted
        · have kept := same.trans (initVmIds_first ids)
          exact Or.inr (known.imp kept.trans kept.trans)
        · exact Or.inr (Or.inr (adopted.trans published))
    | vm2 =>
      obtain ⟨other, rfl⟩ := initVmIds_second ids
      have known : (middle.adopt .vm2 m).otherVmId = b.dev.vmId := by
        rcases adopt_other .vm2 middle m with same | adopted
        · exact same.trans (other.trans published)
        · exact adopted.trans published
      refine ⟨Or.inr (Or.inr known), settles.imp id ?_⟩
      intro received
      have counted : eventfdVmId < (middle.adopt .vm2 m).registered b.dev.vmId := by
        change eventfdVmId < middle.registered b.dev.vmId
        rw [registered, counts, Function.update_apply]
        split
        · decide
        · exact received
      have word : (m.vm .vm1).id.toInt = b.dev.vmId := published
      simp [signalled, word, counted]

theorem identified_input {f : World} (inv : Identified f) (running : f.node r = some a)
    (ordered : SetsUpInOrder f (.input r i))
    (handled : handle vectors r a.dev f.shm i = some (t, m, effects)) :
    Identified (f.after r a i t m effects) := by
  have keeps : KeepsIdentity r a.dev t f.shm → (∀ q, (m.vm q).id = (f.shm.vm q).id) →
      ((∀ b, f.node r.peer = some b → b.SetUp → t.otherVmId = b.dev.vmId) ∨
        i.pendingAfter a = a.vmIdPending) → Identified (f.after r a i t m effects) := by
    intro identity ids looked
    refine inv.after running identity.vmId ?_ (ids r.peer) ?_
    · intro setUp
      rw [ids r, identity.vmId]
      exact inv.published r a running (identity.setUp.mp setUp)
    · intro b present setUp peerSetUp
      have settled := inv.settled r a b running present (identity.setUp.mp setUp) peerSetUp
      have back := inv.settled r.peer b a present (by rwa [Role.peer_peer]) peerSetUp
        (identity.setUp.mp setUp)
      refine ⟨?_, Or.inl back⟩
      rcases looked with known | same
      · exact Or.inr (Or.inr (known b present peerSetUp))
      rcases identity.other with kept | adopted
      · rcases settled with pending | known
        · exact Or.inl (same.trans pending)
        · exact Or.inr (known.imp kept.trans kept.trans)
      · exact Or.inr (Or.inr (adopted.trans (inv.published r.peer b present peerSetUp)))
  by_cases message : ∃ msg, i = .message msg
  · obtain ⟨msg, rfl⟩ := message
    cases processMsg_heard (Option.some.inj handled) with
    | counted peers n counts gained own =>
      exact keeps (counted_identity f.shm counts gained own) (fun _ => rfl) (Or.inr rfl)
    | known peers other before counts kick =>
      rw [kick_eq] at kick
      cases kick
      refine keeps ⟨rfl, ?_, adopt_other r _ f.shm⟩ (fun _ => rfl) (Or.inr rfl)
      change _ < { a.dev with peers := peers }.registered a.dev.vmId ↔ _
      rw [counts, Function.update_of_ne (Ne.symm other)]
    | setUp peers own before counts ids kick =>
      exact identified_setUp inv running ordered own before counts ids kick
  · have plain : ∀ msg, i ≠ .message msg := fun msg same => message ⟨msg, same⟩
    obtain ⟨identity, ids, looked⟩ := handle_identity handled plain
    refine keeps identity ids ?_
    cases i with
    | vmId file =>
      refine Or.inl fun b present setUp => ?_
      exact (looked file rfl).trans (inv.published r.peer b present setUp)
    | _ => exact Or.inr rfl

theorem identified_step (inv : Identified f) (ordered : SetsUpInOrder f action)
    (stepped : World.step vectors f action = some (g, es)) : Identified g := by
  cases step_moves stepped with
  | @start r vmId stopped bound fresh =>
    have idle : ¬(⟨.realized vmId fun _ => 0, false⟩ : Node).SetUp := by
      simp [Node.SetUp, realized_registered]
    refine ⟨each_start ⟨vmId, rfl, bound⟩ (inv.ranged r.peer), each_start ?_ ?_, pairs_start ?_ ?_⟩
    · exact fun setUp => absurd setUp idle
    · intro b present setUp
      rw [realize_id]
      exact inv.published r.peer b present setUp
    · exact fun b _ setUp _ => absurd setUp idle
    · exact fun b _ _ setUp => absurd setUp idle
  | @stop r n running =>
    exact ⟨each_stop (inv.ranged r.peer), each_stop (inv.published r.peer), pairs_stop⟩
  | input running accepts handled => exact identified_input inv running ordered handled

theorem identified_agree (inv : Identified f) : PeersAgree f := by
  intro r a b foundA foundB setUpA setUpB quiet _
  rcases inv.settled r a b foundA foundB setUpA setUpB with pending | known
  · exact absurd (quiet.symm.trans pending) (by decide)
  · exact known

/-- From no running device, over any schedule of starts, stops, guest stores,
server messages and notifications in which setups that overlap settle both
devices: with both set up and no notification outstanding, each knows the other. -/
theorem peers_agree (vectors : Nat) (f : World) (actions : List Action)
    (stopped : ∀ r, f.node r = none) (ordered : Along (World.step vectors) SetsUpInOrder f actions)
    (path : run (World.step vectors) f actions = some (g, es)) : PeersAgree g := by
  have initial : Identified f :=
    ⟨fun r _ found => by simp [stopped r] at found, fun r _ found => by simp [stopped r] at found,
      fun r _ _ found => by simp [stopped r] at found⟩
  exact identified_agree (run_preserves identified_step initial ordered path)

/-- A device with two vectors hears of the peer and then of itself. -/
def bringUp (r : Role) (vmId : Nat) (others : List Nat) : List Action :=
  .start r vmId :: (others ++ [vmId]).flatMap fun posn =>
    [.input r (.message (.connect posn)), .input r (.message (.connect posn))]

def hear (r : Role) (vmId : Nat) : List Action :=
  [.input r (.message (.connect vmId)), .input r (.message (.connect vmId))]

def documentedOrder : List Action :=
  bringUp .vm1 0 [] ++ bringUp .vm2 1 [0] ++ hear .vm1 1 ++ [Action.input .vm1 (.vmId .absent)]

theorem peers_agree_documented_order :
    ∃ g es, run (World.step 2) .empty documentedOrder = some (g, es) ∧ PeersAgree g := by
  have runs : (run (World.step 2) .empty documentedOrder).isSome = true := by decide +kernel
  obtain ⟨⟨g, es⟩, path⟩ := Option.isSome_iff_exists.mp runs
  exact ⟨g, es, path, peers_agree 2 .empty documentedOrder (fun _ => rfl) (by decide +kernel) path⟩

def firstRestarts : List Action :=
  documentedOrder ++ [Action.stop .vm1, .input .vm2 (.message (.disconnect 0))] ++
    bringUp .vm1 2 [1] ++ hear .vm2 2

/-- The second VM comes up alone with id 0, reads the zero in the first one's
word and notifies itself; the first one follows. -/
def secondLeads : List Action :=
  bringUp .vm2 0 [] ++ [Action.input .vm2 (.vmId .absent)] ++ bringUp .vm1 1 [0] ++ hear .vm2 1

/-- `vm2` takes process 0 for its peer, and the peer has another id. -/
def Misled (f : World) (vmId : Int) : Prop :=
  ∃ a b, f.node .vm2 = some a ∧ f.node .vm1 = some b ∧ a.SetUp ∧ b.SetUp ∧
    a.vmIdPending = false ∧ b.vmIdPending = false ∧ a.dev.otherVmId = 0 ∧ b.dev.vmId = vmId

theorem misled_disagree (misled : Misled f vmId) (other : vmId ≠ 0) : ¬PeersAgree f := by
  obtain ⟨a, b, second, first, setUpA, setUpB, quietA, quietB, named, actual⟩ := misled
  intro agree
  rcases agree .vm2 a b second first setUpA setUpB quietA quietB with none | same
  · omega
  · omega

/-- The departed process, and the device itself, pass for the peer. -/
theorem peer_id_stale :
    (∃ g es, run (World.step 2) .empty firstRestarts = some (g, es) ∧ Misled g 2 ∧ ¬PeersAgree g) ∧
      ∃ g es, run (World.step 2) .empty secondLeads = some (g, es) ∧ Misled g 1 ∧
        ¬PeersAgree g := by
  have reaches : ∀ {actions : List Action} {vmId : Int}, vmId ≠ 0 →
      (run (World.step 2) .empty actions).map (fun reached =>
        match reached.1.node .vm2, reached.1.node .vm1 with
        | some a, some b => decide (a.SetUp ∧ b.SetUp ∧ a.vmIdPending = false ∧
            b.vmIdPending = false ∧ a.dev.otherVmId = 0 ∧ b.dev.vmId = vmId)
        | _, _ => false) = some true →
      ∃ g es, run (World.step 2) .empty actions = some (g, es) ∧ Misled g vmId ∧ ¬PeersAgree g := by
    intro actions vmId other evaluated
    obtain ⟨⟨g, es⟩, path, found⟩ := Option.map_eq_some_iff.mp evaluated
    dsimp only at found
    split at found
    · rename_i a b second first
      have misled : Misled g vmId := ⟨a, b, second, first, of_decide_eq_true found⟩
      exact ⟨g, es, path, misled, misled_disagree misled other⟩
    · contradiction
  exact ⟨reaches (by decide) (by decide +kernel), reaches (by decide) (by decide +kernel)⟩

end IdtNtb.Fabric
