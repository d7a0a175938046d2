import IdtNtb.Fabric.Server
import IdtNtb.Lib.Transition

/-! The device's interrupt vectors under KVM. A vector is served by a handler on
its descriptor or by an MSI-X route with an irqfd, and `pdev` marks either. Own
descriptors arrive one by one; the guest enables and disables MSI-X; and while
the device's notifiers are set, QEMU's MSI-X code calls them as it unmasks and
masks vectors. That code is not the device's: which callbacks it makes is part of
an event, and any will do that its contract allows. -/
namespace IdtNtb.Fabric
open Device Transition

/-- `MSIVector`. Of the route's number only matters whether KVM has given one. -/
structure MSIVector where
  pdev : Bool
  virq : Bool
  unmasked : Bool
  deriving DecidableEq

/-- `nbEventfds` counts the device's own descriptors. `notifiers` says whether
MSI-X has the device's callbacks, and `used` which vectors it has asked to use
and not released since. -/
structure VectorTable where
  msiVectors : Nat → MSIVector
  nbEventfds : Nat
  msixEnabled : Bool
  notifiers : Bool
  used : Nat → Bool

/-- Results of the KVM calls of one step, by vector: adding a route, updating it
and adding the irqfd, and removing the irqfd. -/
structure Kvm where
  addsRoute : Nat → Bool
  addsIrqfd : Nat → Bool
  removesIrqfd : Nat → Bool

inductive Site where
  | watchVectorNotifier
  | addKvmMsiVirq
  | vectorUnmask
  | vectorMask
  deriving DecidableEq

/-- An assertion on `msi_vectors`, and a virq given back to KVM. -/
inductive Report where
  | assertion (site : Site) (vector : Nat) (holds : Bool)
  | releaseVirq (vector : Nat) (given : Bool)
  deriving DecidableEq

def Report.Sound : Report → Prop
  | .assertion _ _ holds => holds = true
  | .releaseVirq _ given => given = true

instance : DecidablePred Report.Sound
  | .assertion _ _ _ | .releaseVirq _ _ => inferInstanceAs (Decidable (_ = true))

/-- What MSI-X asks of a device whose notifiers it has. -/
inductive Callback where
  | use (vector : Nat)
  | release (vector : Nat)
  deriving DecidableEq

namespace VectorTable

def realized : VectorTable :=
  ⟨fun _ => ⟨false, false, false⟩, 0, false, false, fun _ => false⟩

def set (s : VectorTable) (vector : Nat) (v : MSIVector) : VectorTable :=
  { s with msiVectors := Function.update s.msiVectors vector v }

/-! A failed assertion is reported and execution goes on; QEMU stops there, so
what follows is of no account. -/

def watchVectorNotifier (s : VectorTable) (vector : Nat) : VectorTable × List Report :=
  let v := s.msiVectors vector
  (s.set vector { v with pdev := true }, [.assertion .watchVectorNotifier vector !v.pdev])

def ivshmemAddKvmMsiVirq (kvm : Kvm) (s : VectorTable) (vector : Nat) :
    VectorTable × List Report × Bool :=
  let v := s.msiVectors vector
  let checked := [.assertion .addKvmMsiVirq vector !v.pdev]
  if kvm.addsRoute vector then (s.set vector { v with pdev := true, virq := true }, checked, true)
  else (s, checked, false)

def ivshmemRemoveKvmMsiVirq (s : VectorTable) (vector : Nat) : VectorTable × List Report :=
  let v := s.msiVectors vector
  if v.pdev then
    (s.set vector { v with pdev := false, virq := false }, [.releaseVirq vector v.virq])
  else (s, [])

/-- `ivshmem_vector_unmask`, with whether it succeeds. -/
def ivshmemVectorUnmask (kvm : Kvm) (s : VectorTable) (vector : Nat) :
    VectorTable × List Report × Bool :=
  let v := s.msiVectors vector
  if v.pdev then
    let checked := [.assertion .vectorUnmask vector !v.unmasked]
    if kvm.addsIrqfd vector then (s.set vector { v with unmasked := true }, checked, true)
    else (s, checked, false)
  else (s, [], false)

def ivshmemVectorMask (kvm : Kvm) (s : VectorTable) (vector : Nat) : VectorTable × List Report :=
  let v := s.msiVectors vector
  if v.pdev then
    let checked := [.assertion .vectorMask vector v.unmasked]
    if kvm.removesIrqfd vector then (s.set vector { v with unmasked := false }, checked)
    else (s, checked)
  else (s, [])

/-- MSI-X takes a vector into use, and gives it up. -/
def use (kvm : Kvm) (s : VectorTable) (vector : Nat) : VectorTable × List Report × Bool :=
  let (s, reports, done) := s.ivshmemVectorUnmask kvm vector
  ({ s with used := Function.update s.used vector done }, reports, done)

def release (kvm : Kvm) (s : VectorTable) (vector : Nat) : VectorTable × List Report :=
  let (s, reports) := s.ivshmemVectorMask kvm vector
  ({ s with used := Function.update s.used vector false }, reports)

def each (f : VectorTable → Nat → VectorTable × List Report) (s : VectorTable) :
    List Nat → VectorTable × List Report
  | [] => (s, [])
  | vector :: rest =>
      let (s, reports) := f s vector
      let (s, more) := each f s rest
      (s, reports ++ more)

def upTo (f : VectorTable → Nat → VectorTable × List Report × Bool) (s : VectorTable)
    (before : List Nat) :
    List Nat → VectorTable × List Report × Option (List Nat)
  | [] => (s, [], none)
  | vector :: rest =>
      let (s, reports, done) := f s vector
      if done then
        let (s, more, failed) := upTo f s (vector :: before) rest
        (s, reports ++ more, failed)
      else (s, reports, some before)

/-- A callback of MSI-X: a vector is taken into use once until it is given up. -/
def callback (kvm : Kvm) (vectors : Nat) (s : VectorTable) :
    Callback → Option (VectorTable × List Report × Bool)
  | .use vector =>
      if vector < vectors ∧ s.used vector = false then some (s.use kvm vector) else none
  | .release vector =>
      if s.used vector then
        let (s, reports) := s.release kvm vector
        some (s, reports, true)
      else none

/-- The callbacks of one call into MSI-X, with whether all of them succeed. -/
def callbacks (kvm : Kvm) (vectors : Nat) (s : VectorTable) :
    List Callback → Option (VectorTable × List Report × Bool)
  | [] => some (s, [], true)
  | call :: rest =>
      match s.callback kvm vectors call with
      | none => none
      | some (s, reports, done) =>
          (callbacks kvm vectors s rest).map fun (s, more, all) => (s, reports ++ more, done && all)

/-- `calls` are the callbacks of `msix_set_vector_notifiers`. It fails if one of
them does, and then leaves no vector in use and the notifiers unset. -/
def ivshmemEnableIrqfd (kvm : Kvm) (vectors : Nat) (s : VectorTable) (calls : List Callback) :
    Option (VectorTable × List Report) :=
  match upTo (ivshmemAddKvmMsiVirq kvm) s [] (List.range s.nbEventfds) with
  | (s, added, some before) =>
      let (s, undone) := each ivshmemRemoveKvmMsiVirq s before
      some (s, added ++ undone)
  | (s, added, none) =>
      match s.callbacks kvm vectors calls with
      | none => none
      | some (s, set, true) => some ({ s with notifiers := true }, added ++ set)
      | some (s, set, false) =>
          if (List.range vectors).any s.used then none
          else
            let (s, undone) := each ivshmemRemoveKvmMsiVirq { s with notifiers := false }
              (List.range s.nbEventfds).reverse
            some (s, added ++ set ++ undone)

/-- One turn of the loop of `ivshmem_disable_irqfd`. -/
def drop (kvm : Kvm) (s : VectorTable) (vector : Nat) : VectorTable × List Report :=
  let (s, masked) := if (s.msiVectors vector).unmasked then s.ivshmemVectorMask kvm vector
    else (s, [])
  let (s, removed) := s.ivshmemRemoveKvmMsiVirq vector
  (s, masked ++ removed)

/-- `releases` are the vectors that `msix_unset_vector_notifiers` gives up before it
forgets all of them: those in use, or none if MSI-X is disabled already. -/
def ivshmemDisableIrqfd (kvm : Kvm) (vectors : Nat) (s : VectorTable) (releases : List Nat) :
    Option (VectorTable × List Report) :=
  if s.notifiers then
    (s.callbacks kvm vectors (releases.map .release)).map fun (s, unset, _) =>
      let (s, dropped) := each (drop kvm) { s with notifiers := false, used := fun _ => false }
        (List.range s.nbEventfds)
      (s, unset ++ dropped)
  else some (s, [])

/-- `setup_interrupt` with irqfd. A route that cannot be added is only an error. -/
def setupInterrupt (kvm : Kvm) (s : VectorTable) (vector : Nat) : VectorTable × List Report :=
  if vector = eventfdVmId ∨ vector = eventfdInterruptHost then s.watchVectorNotifier vector
  else if s.msixEnabled then
    let (s, reports, _) := s.ivshmemAddKvmMsiVirq kvm vector
    (s, reports)
  else (s, [])

def connectOwn (kvm : Kvm) (vectors : Nat) (s : VectorTable) : VectorTable × List Report :=
  if vectors ≤ s.nbEventfds then (s, [])
  else setupInterrupt kvm { s with nbEventfds := s.nbEventfds + 1 } s.nbEventfds

end VectorTable

/-- What happens to the vectors, with the callbacks that are made on the way. -/
inductive VectorEvent where
  | connect (kvm : Kvm)
  | enable (kvm : Kvm) (calls : List Callback)
  | disable (kvm : Kvm) (releases : List Nat)
  | reset (kvm : Kvm) (releases : List Nat)
  | unmask (kvm : Kvm) (vector : Nat)
  | mask (kvm : Kvm) (vector : Nat)

/-- One step, as the MSI-X contract allows it. A vector that cannot be taken into
use outside of `msix_set_vector_notifiers` stops the machine. The PCI core disables
MSI-X after the device's own reset. -/
def VectorTable.step (vectors : Nat) (s : VectorTable) :
    VectorEvent → Option (VectorTable × List Report)
  | .connect kvm => some (s.connectOwn kvm vectors)
  | .enable kvm calls =>
      if s.msixEnabled then none
      else ivshmemEnableIrqfd kvm vectors { s with msixEnabled := true } calls
  | .disable kvm releases =>
      if s.msixEnabled then ivshmemDisableIrqfd kvm vectors { s with msixEnabled := false } releases
      else none
  | .reset kvm releases =>
      (s.ivshmemDisableIrqfd kvm vectors releases).map fun (s, reports) =>
        ({ s with msixEnabled := false }, reports)
  | .unmask kvm vector =>
      if s.notifiers then
        match s.callback kvm vectors (.use vector) with
        | some (s, reports, true) => some (s, reports)
        | _ => none
      else none
  | .mask kvm vector =>
      if s.notifiers then
        (s.callback kvm vectors (.release vector)).map fun (s, reports, _) => (s, reports)
      else none

def VectorEvent.kvm : VectorEvent → Kvm
  | .connect kvm | .enable kvm _ | .disable kvm _ | .reset kvm _ | .unmask kvm _ | .mask kvm _ =>
      kvm

/-- MSI-X is enabled, and the notifiers are dropped, only while none of the
device's own descriptors has arrived. -/
def VectorTable.BeforeDescriptors (s : VectorTable) : VectorEvent → Prop
  | .enable .. => s.nbEventfds = 0
  | .disable .. | .reset .. => s.notifiers = true → s.nbEventfds = 0
  | _ => True

instance (s : VectorTable) : DecidablePred s.BeforeDescriptors
  | .enable .. => inferInstanceAs (Decidable (_ = 0))
  | .disable .. | .reset .. => inferInstanceAs (Decidable (_ → _))
  | .connect _ | .unmask .. | .mask .. => .isTrue trivial

/-- The table while no assertion has failed: vector 0 is watched once its
descriptor is there, and MSI-X uses the unmasked vectors. -/
structure Consistent (s : VectorTable) : Prop where
  arrived : ∀ v, (s.msiVectors v).pdev = true → v < s.nbEventfds
  watched : 0 < s.nbEventfds → (s.msiVectors 0).pdev = true ∧ (s.msiVectors 0).virq = false
  given : ∀ v, (s.msiVectors v).virq = true → (s.msiVectors v).pdev = true
  routed : ∀ v, (s.msiVectors v).unmasked = true → (s.msiVectors v).pdev = true
  inUse : ∀ v, s.used v = (s.msiVectors v).unmasked

inductive Steps (vectors : Nat) (s : VectorTable) : VectorEvent → VectorTable → List Report → Prop
  | connected (done : s.connectOwn kvm vectors = (t, es)) : Steps vectors s (.connect kvm) t es
  | switched (msix notifiers : Bool) (other : ∀ kvm, l ≠ .connect kvm) :
      Steps vectors s l { s with msixEnabled := msix, notifiers } []
  | used (free : s.used v = false) (done : s.use kvm v = (t, es, true)) :
      Steps vectors s (.unmask kvm v) t es
  | released (inUse : s.used v = true) (done : s.release kvm v = (t, es)) :
      Steps vectors s (.mask kvm v) t es

variable {s t : VectorTable} {kvm : Kvm} {es : List Report}

theorem Consistent.absent (held : Consistent s) (late : s.nbEventfds ≤ v) :
    s.msiVectors v = ⟨false, false, false⟩ := by
  have pdev : (s.msiVectors v).pdev = false := by
    by_contra present
    have bound := held.arrived v (Bool.not_eq_false _ ▸ present)
    omega
  have virq : (s.msiVectors v).virq = false := by
    by_contra present
    exact absurd (held.given v (by simpa using present)) (by simp [pdev])
  have unmasked : (s.msiVectors v).unmasked = false := by
    by_contra present
    exact absurd (held.routed v (by simpa using present)) (by simp [pdev])
  cases entry : s.msiVectors v
  simp_all

/-- Before its first descriptor a consistent table is empty. -/
theorem Consistent.empty (held : Consistent s) (none : s.nbEventfds = 0) :
    s.msiVectors = VectorTable.realized.msiVectors ∧ s.used = VectorTable.realized.used := by
  have vectors : s.msiVectors = VectorTable.realized.msiVectors := by
    funext v
    exact held.absent (by omega)
  refine ⟨vectors, ?_⟩
  funext v
  rw [held.inUse, vectors]
  rfl

/-- A use fails for a vector without a route. -/
theorem use_absent (absent : (s.msiVectors v).pdev = false) (kvm : Kvm) :
    s.use kvm v = ({ s with used := Function.update s.used v false }, [], false) := by
  simp [VectorTable.use, VectorTable.ivshmemVectorUnmask, absent]

/-- Without descriptors every use fails, so there is nothing to release. -/
theorem callback_empty (held : Consistent s) (none : s.nbEventfds = 0)
    (made : s.callback kvm vectors call = some (t, es, done)) : t = s ∧ es = [] := by
  obtain ⟨empty, idle⟩ := held.empty none
  cases call with
  | use v =>
    obtain ⟨-, used⟩ := Option.ite_none_right_eq_some.mp made
    have absent : (s.msiVectors v).pdev = false := by rw [empty]; rfl
    have kept : Function.update s.used v false = s.used := by
      rw [idle]
      exact Function.update_eq_self v VectorTable.realized.used
    rw [use_absent absent, kept] at used
    cases used
    exact ⟨rfl, rfl⟩
  | release v =>
    obtain ⟨inUse, -⟩ := Option.ite_none_right_eq_some.mp made
    rw [idle] at inUse
    cases inUse

theorem callbacks_cons (made : s.callbacks kvm vectors (call :: rest) = some (t, es, done)) :
    ∃ mid first ok later all, s.callback kvm vectors call = some (mid, first, ok) ∧
      mid.callbacks kvm vectors rest = some (t, later, all) ∧ es = first ++ later := by
  rw [VectorTable.callbacks] at made
  split at made
  · cases made
  · rename_i mid first ok here
    obtain ⟨⟨t, later, all⟩, rest, same⟩ := Option.map_eq_some_iff.mp made
    cases same
    exact ⟨mid, first, ok, later, all, here, rest, rfl⟩

theorem callbacks_empty (held : Consistent s) (none : s.nbEventfds = 0)
    (made : s.callbacks kvm vectors calls = some (t, es, done)) : t = s ∧ es = [] := by
  induction calls generalizing es done with
  | nil =>
    cases made
    exact ⟨rfl, rfl⟩
  | cons call rest ih =>
    obtain ⟨mid, first, ok, later, all, here, further, rfl⟩ := callbacks_cons made
    obtain ⟨rfl, rfl⟩ := callback_empty held none here
    exact ih further

theorem enable_empty (held : Consistent s) (none : s.nbEventfds = 0)
    (enabled : s.ivshmemEnableIrqfd kvm vectors calls = some (t, es)) :
    ∃ notifiers, t = { s with notifiers } ∧ es = [] := by
  have range : List.range s.nbEventfds = [] := List.range_eq_nil.mpr none
  simp only [VectorTable.ivshmemEnableIrqfd, range, VectorTable.upTo] at enabled
  split at enabled
  · cases enabled
  · rename_i made
    obtain ⟨rfl, rfl⟩ := callbacks_empty held none made
    cases enabled
    exact ⟨true, rfl, rfl⟩
  · rename_i made
    obtain ⟨rfl, rfl⟩ := callbacks_empty held none made
    obtain ⟨-, undone⟩ := Option.ite_none_left_eq_some.mp enabled
    simp only [range, List.reverse_nil, VectorTable.each, List.append_nil] at undone
    cases undone
    exact ⟨false, rfl, rfl⟩

structure SameRoutes (s t : VectorTable) : Prop where
  count : t.nbEventfds = s.nbEventfds
  pdev : ∀ v, (t.msiVectors v).pdev = (s.msiVectors v).pdev
  virq : ∀ v, (t.msiVectors v).virq = (s.msiVectors v).virq

theorem SameRoutes.refl (s : VectorTable) : SameRoutes s s :=
  ⟨rfl, fun _ => rfl, fun _ => rfl⟩

theorem SameRoutes.trans (first : SameRoutes s t) (second : SameRoutes t u) : SameRoutes s u :=
  ⟨second.count.trans first.count, fun v => (second.pdev v).trans (first.pdev v),
    fun v => (second.virq v).trans (first.virq v)⟩

/-- MSI-X's own record is not a route. -/
theorem SameRoutes.record (same : SameRoutes s t) (used : Nat → Bool) :
    SameRoutes s { t with used } :=
  ⟨same.count, same.pdev, same.virq⟩

theorem disable_empty (held : Consistent s) (none : s.notifiers = true → s.nbEventfds = 0)
    (disabled : s.ivshmemDisableIrqfd kvm vectors releases = some (t, es)) :
    ∃ notifiers, t = { s with notifiers } ∧ es = [] := by
  by_cases set : s.notifiers = true
  · rw [VectorTable.ivshmemDisableIrqfd, if_pos set] at disabled
    obtain ⟨⟨u, unset, done⟩, made, same⟩ := Option.map_eq_some_iff.mp disabled
    obtain ⟨rfl, rfl⟩ := callbacks_empty held (none set) made
    have range : List.range u.nbEventfds = [] := List.range_eq_nil.mpr (none set)
    simp only [range, VectorTable.each, List.append_nil] at same
    cases same
    have idle : u.used = fun _ => false := (held.empty (none set)).2
    exact ⟨false, by rw [← idle], rfl⟩
  · rw [VectorTable.ivshmemDisableIrqfd, if_neg set] at disabled
    cases disabled
    exact ⟨s.notifiers, rfl, rfl⟩

theorem flags_consistent (held : Consistent s) (msix notifiers : Bool) :
    Consistent { s with msixEnabled := msix, notifiers } :=
  ⟨held.arrived, held.watched, held.given, held.routed, held.inUse⟩

theorem connectOwn_count (kvm : Kvm) (vectors : Nat) (s : VectorTable) :
    (s.connectOwn kvm vectors).1.nbEventfds =
      if vectors ≤ s.nbEventfds then s.nbEventfds else s.nbEventfds + 1 := by
  unfold VectorTable.connectOwn
  split
  · rfl
  · unfold VectorTable.setupInterrupt
    split
    · rfl
    · split
      · simp only [VectorTable.ivshmemAddKvmMsiVirq]
        split <;> rfl
      · rfl

/-- The count is the device's own entry of the peer table. -/
theorem connectOwn_registered {dev : IVShmemState} {posn : Nat}
    (own : s.nbEventfds = dev.registered posn)
    (bound : posn < dev.peers.length) (r : Role) (shm : SharedMemory) (kvm : Kvm) (vectors : Nat) :
    (s.connectOwn kvm vectors).1.nbEventfds =
      (processMsgConnect vectors r dev shm posn).1.registered posn := by
  rw [connectOwn_count, own]
  by_cases full : vectors ≤ dev.registered posn
  · simp only [if_pos full, processMsgConnect, ← registered_natCast]
  · obtain ⟨peers, -⟩ := connect_peers full r shm
    have counts :=
      registered_congr (s := { dev with peers := dev.peers.set posn ⟨dev.registered posn + 1⟩ })
        peers
    rw [if_neg full, counts, set_registered dev _ bound, Function.update_self]

theorem step_steps (held : Consistent s) (early : s.BeforeDescriptors l)
    (next : s.step vectors l = some (t, es)) : Steps vectors s l t es := by
  cases l with
  | connect kvm => exact .connected (Option.some.inj next)
  | enable kvm calls =>
    obtain ⟨-, enabled⟩ := Option.ite_none_left_eq_some.mp next
    obtain ⟨notifiers, rfl, rfl⟩ :=
      enable_empty (flags_consistent held true s.notifiers) early enabled
    exact .switched _ _ fun _ => nofun
  | disable kvm releases =>
    obtain ⟨-, disabled⟩ := Option.ite_none_right_eq_some.mp next
    obtain ⟨notifiers, rfl, rfl⟩ :=
      disable_empty (flags_consistent held false s.notifiers) early disabled
    exact .switched _ _ fun _ => nofun
  | reset kvm releases =>
    obtain ⟨⟨u, fs⟩, disabled, same⟩ := Option.map_eq_some_iff.mp next
    obtain ⟨notifiers, rfl, rfl⟩ := disable_empty held early disabled
    cases same
    exact .switched _ _ fun _ => nofun
  | unmask kvm v =>
    obtain ⟨-, called⟩ := Option.ite_none_right_eq_some.mp next
    split at called
    · rename_i made
      cases called
      obtain ⟨⟨-, free⟩, done⟩ := Option.ite_none_right_eq_some.mp made
      exact .used free (Option.some.inj done)
    · cases called
  | mask kvm v =>
    obtain ⟨-, called⟩ := Option.ite_none_right_eq_some.mp next
    obtain ⟨⟨u, fs, done⟩, made, same⟩ := Option.map_eq_some_iff.mp called
    cases same
    obtain ⟨inUse, released⟩ := Option.ite_none_right_eq_some.mp made
    cases released
    exact .released inUse rfl

def VectorEvent.Callback : VectorEvent → Prop
  | .unmask .. | .mask .. => True
  | _ => False

/-- Between enabling and disabling MSI-X there are only callbacks. -/
def RoundTrip (ls : List VectorEvent) : Prop :=
  ∃ kvm calls between last releases,
    ls = .enable kvm calls :: between ++ [VectorEvent.disable last releases] ∧
      ∀ l ∈ between, l.Callback

theorem RoundTrip.other (trip : RoundTrip ls) : ∀ l ∈ ls, ∀ kvm, l ≠ .connect kvm := by
  obtain ⟨first, calls, between, last, releases, rfl, only⟩ := trip
  intro l member kvm same
  subst same
  simp only [List.cons_append, List.mem_cons, reduceCtorEq, List.mem_append,
    List.not_mem_nil, or_false, false_or] at member
  exact only _ member

def Kvm.willing : Kvm := ⟨fun _ => true, fun _ => true, fun _ => true⟩

end IdtNtb.Fabric
