import IdtNtb.Lib.Transition
import Mathlib.Logic.Function.Basic

/-! The life of a driver's record, which is the same in `ntb_idt_app` and
`ntb_idt_sisci`: `probe` allocates it, and `remove` or the error path of `probe`
frees it. Meanwhile the NTB core reaches it by the context, the misc device by its
registration, the workqueue by the service work, and an open file by its
`private_data`, which nothing takes back. The driver core makes its calls one
after the other; everything else falls between their statements. -/
namespace IdtNtb.Kernel.LifeCycle
open Transition

/-- `requeued` is work that was scheduled again while it runs. -/
inductive Work where
  | idle
  | queued
  | running
  | requeued
  deriving DecidableEq

/-- `mapped` stands for `peer_io` and `buffer` for the DMA buffer, both with
their translation. -/
structure Record where
  ntb : Nat
  live : Bool
  removed : Bool
  work : Work
  mapped : Bool
  buffer : Bool

/-- How others get at records: `global_app` or `global_sisci`, the misc device, and
per NTB device its context, the link and the binding of the driver core. -/
structure Registry where
  global : Option Nat
  misc : Option Nat
  ctx : Nat → Option Nat
  link : Nat → Bool
  bound : Nat → Bool

/-- The next statement of `probe`: past `kzalloc`, and from `clearCtx` on the error
path. -/
inductive ProbePc where
  | miscRegister
  | publish
  | setCtx
  | enable
  | clearCtx
  | unpublish
  | miscDeregister
  | free

inductive RemovePc where
  | setRemoved
  | linkDisable
  | clearCtx
  | cancelWork
  | miscDeregister
  | release
  | unpublish
  | free

inductive Call where
  | idle
  | probe (r : Nat) (pc : ProbePc)
  | remove (r : Nat) (pc : RemovePc)

/-- An open file, and whether one of its calls has the mutex and found the record
not marked as removed. -/
structure File where
  record : Nat
  inside : Bool

/-- Records are named by the order of their allocation. -/
structure Driver where
  registry : Registry
  records : List Record
  call : Call
  files : List File

inductive Label where
  | probe (ntb : Nat) (fits memory : Bool)
  | remove (ntb : Nat)
  /-- The next statement of the call, with the result of what may fail in it. -/
  | advance (ok : Bool)
  | event (ntb : Nat)
  | start (r : Nat)
  | work (r : Nat) (mapped buffer : Bool)
  | finish (r : Nat)
  | openFile
  | enter (file : Nat)
  | touch (file : Nat) (mapped buffer : Bool)
  | leave (file : Nat)
  | close (file : Nat)

inductive Thread where
  | call
  | core
  | worker
  | file
  deriving DecidableEq

structure Access where
  thread : Thread
  record : Nat
  live : Bool
  deriving DecidableEq

def Registry.empty : Registry := ⟨none, none, fun _ => none, fun _ => false, fun _ => false⟩

def Driver.loaded : Driver := ⟨.empty, [], .idle, []⟩

def Work.schedule : Work → Work
  | .idle | .queued => .queued
  | .running | .requeued => .requeued

def Work.start : Work → Option Work
  | .queued => some .running
  | _ => none

def Work.finish : Work → Option Work
  | .running => some .idle
  | .requeued => some .queued
  | _ => none

def Work.isRunning : Work → Bool
  | .running | .requeued => true
  | _ => false

namespace Driver

def live (s : Driver) (r : Nat) : Bool := s.records[r]?.any (·.live)

def access (s : Driver) (thread : Thread) (r : Nat) : Access := ⟨thread, r, s.live r⟩

def modify (s : Driver) (r : Nat) (f : Record → Record) : Driver :=
  { s with records := s.records.modify r f }

/-- `link_event` and `msg_event`: nothing once the context is cleared. -/
def notify (s : Driver) (ntb : Nat) : Driver × List Access :=
  match s.registry.ctx ntb with
  | none => (s, [])
  | some r => (s.modify r fun rec => { rec with work := rec.work.schedule }, [s.access .core r])

/-- A statement of `probe`, with `enable` between `publish` and `unpublish`. -/
def probeStep (s : Driver) (r : Nat) (rec : Record) (ok : Bool) : ProbePc → Driver × List Access
  | .miscRegister =>
      if ok && s.registry.misc.isNone then
        ({ s with registry.misc := some r, call := .probe r .publish }, [s.access .call r])
      else ({ s with call := .probe r .free }, [s.access .call r])
  | .publish => ({ s with registry.global := some r, call := .probe r .setCtx }, [])
  | .setCtx =>
      if ok && (s.registry.ctx rec.ntb).isNone then
        ({ s with
          registry.ctx := Function.update s.registry.ctx rec.ntb (some r)
          call := .probe r .enable }, [s.access .call r])
      else ({ s with call := .probe r .unpublish }, [s.access .call r])
  -- The message bits, the mask and the link: any of them may fail.
  | .enable =>
      if ok then
        let enabled : Driver := { s with
          registry.link := Function.update s.registry.link rec.ntb true
          registry.bound := Function.update s.registry.bound rec.ntb true
          call := .idle }
        let (t, es) := enabled.notify rec.ntb
        (t, s.access .call r :: es)
      else ({ s with call := .probe r .clearCtx }, [s.access .call r])
  | .clearCtx =>
      ({ s with
        registry.ctx := Function.update s.registry.ctx rec.ntb none
        call := .probe r .unpublish }, [s.access .call r])
  | .unpublish => ({ s with registry.global := none, call := .probe r .miscDeregister }, [])
  | .miscDeregister =>
      ({ s with registry.misc := none, call := .probe r .free }, [s.access .call r])
  | .free =>
      ({ s.modify r fun rec => { rec with live := false } with call := .idle }, [s.access .call r])

/-- A statement of `remove`. `cancel_work_sync` waits for work that runs, and the
release for the mutex. -/
def removeStep (s : Driver) (r : Nat) (rec : Record) : RemovePc → Option (Driver × List Access)
  | .setRemoved =>
      some ({ s.modify r fun rec =>
        { rec with removed := true } with call := .remove r .linkDisable }, [s.access .call r])
  | .linkDisable =>
      some ({ s with
        registry.link := Function.update s.registry.link rec.ntb false
        call := .remove r .clearCtx }, [s.access .call r])
  | .clearCtx =>
      some ({ s with
        registry.ctx := Function.update s.registry.ctx rec.ntb none
        call := .remove r .cancelWork }, [s.access .call r])
  | .cancelWork =>
      if rec.work.isRunning then none
      else
        some ({ s.modify r fun rec =>
          { rec with work := .idle } with call := .remove r .miscDeregister }, [s.access .call r])
  | .miscDeregister =>
      some ({ s with registry.misc := none, call := .remove r .release }, [s.access .call r])
  | .release =>
      if ∃ f ∈ s.files, f.record = r ∧ f.inside = true then none
      else
        some ({ s.modify r fun rec => { rec with mapped := false, buffer := false } with
          call := .remove r .unpublish }, [s.access .call r])
  | .unpublish => some ({ s with registry.global := none, call := .remove r .free }, [])
  | .free =>
      some ({ s.modify r fun rec => { rec with live := false } with call := .idle },
        [s.access .call r])

def advance (s : Driver) (ok : Bool) : Option (Driver × List Access) :=
  match s.call with
  | .idle => none
  | .probe r pc => s.records[r]?.map fun rec => s.probeStep r rec ok pc
  | .remove r pc => s.records[r]?.bind fun rec => s.removeStep r rec pc

/-- The device is unbound whatever `remove` does. -/
def unbind (s : Driver) (ntb : Nat) : Driver :=
  { s with registry.bound := Function.update s.registry.bound ntb false }

/-- `probe` up to `kzalloc`: the checks of the port and window counts, and the
allocation, may fail. -/
def probe (s : Driver) (ntb : Nat) (fits memory : Bool) : Option (Driver × List Access) :=
  match s.call, s.registry.bound ntb with
  | .idle, false =>
      if s.registry.global.isSome then some (s, [])
      else if fits && memory then
        some ({ s with
          records := s.records ++ [⟨ntb, true, false, .idle, false, false⟩]
          call := .probe s.records.length .miscRegister }, [])
      else some (s, [])
  | _, _ => none

/-- `remove` up to its check that the record is of this device. -/
def remove (s : Driver) (ntb : Nat) : Option (Driver × List Access) :=
  match s.call, s.registry.bound ntb with
  | .idle, true =>
      match s.registry.global with
      | none => some (s.unbind ntb, [])
      | some r =>
          if s.records[r]?.any (·.ntb = ntb) then
            some ({ s.unbind ntb with call := .remove r .setRemoved }, [s.access .call r])
          else some (s.unbind ntb, [s.access .call r])
  | _, _ => none

def workerStep (s : Driver) (r : Nat) (next : Record → Option Record) :
    Option (Driver × List Access) :=
  s.records[r]?.bind fun rec => (next rec).map fun after => (s.modify r fun _ => after,
    [s.access .worker r])

/-- A step of a call on an open file, from inside or from outside. -/
def onFile (s : Driver) (file : Nat) (inside : Bool) (next : File → Record → Driver) :
    Option (Driver × List Access) :=
  s.files[file]?.bind fun f => s.records[f.record]?.bind fun rec =>
    if f.inside = inside then some (next f rec, [s.access .file f.record]) else none

def step (s : Driver) : Label → Option (Driver × List Access)
  | .probe ntb fits memory => s.probe ntb fits memory
  | .remove ntb => s.remove ntb
  | .advance ok => s.advance ok
  | .event ntb => some (s.notify ntb)
  | .start r => s.workerStep r fun rec => rec.work.start.map fun work => { rec with work }
  | .work r mapped buffer =>
      s.workerStep r fun rec => if rec.work.isRunning then some { rec with mapped, buffer }
        else none
  | .finish r => s.workerStep r fun rec => rec.work.finish.map fun work => { rec with work }
  -- `misc_open` finds the record by the registration.
  | .openFile =>
      s.registry.misc.map fun r => ({ s with files := s.files ++ [⟨r, false⟩] }, [s.access .core r])
  -- A call that takes something for the record looks at the mark once it has the mutex.
  | .enter file => s.onFile file false fun f rec =>
      { s with files := s.files.set file { f with inside := !rec.removed } }
  | .touch file mapped buffer => s.onFile file true fun f _ =>
      s.modify f.record fun rec => { rec with mapped, buffer }
  | .leave file =>
      s.onFile file true fun f _ => { s with files := s.files.set file { f with inside := false } }
  | .close file =>
      if s.files[file]?.any (!·.inside) then some ({ s with files := s.files.eraseIdx file }, [])
      else none

end Driver

/-- What is registered for a record and what is true of it already, while a call
goes on. -/
structure Held where
  global : Bool := false
  misc : Bool := false
  ctx : Bool := false
  link : Bool := false
  bound : Bool := false
  removed : Bool := false
  cancelled : Bool := false
  emptied : Bool := false

def Held.serving : Held :=
  { global := true, misc := true, ctx := true, link := true, bound := true }

def ProbePc.held : ProbePc → Held
  | .miscRegister | .free => {}
  | .publish | .miscDeregister => { misc := true }
  | .setCtx | .unpublish => { misc := true, global := true }
  | .enable | .clearCtx => { misc := true, global := true, ctx := true }

def RemovePc.held : RemovePc → Held
  | .setRemoved => { global := true, misc := true, ctx := true, link := true }
  | .linkDisable => { global := true, misc := true, ctx := true, link := true, removed := true }
  | .clearCtx => { global := true, misc := true, ctx := true, removed := true }
  | .cancelWork => { global := true, misc := true, removed := true }
  | .miscDeregister => { global := true, misc := true, removed := true, cancelled := true }
  | .release => { global := true, removed := true, cancelled := true }
  | .unpublish => { global := true, removed := true, cancelled := true, emptied := true }
  | .free => { removed := true, cancelled := true, emptied := true }

/-- Work is cancelled after the last that could schedule it, and what the record
holds is released after the last that could take it. -/
structure Held.Ordered (h : Held) : Prop where
  cancelled : h.cancelled = true → h.ctx = false
  emptied : h.emptied = true → h.removed = true ∧ h.cancelled = true

def Registry.of (r ntb : Nat) (h : Held) : Registry where
  global := if h.global then some r else none
  misc := if h.misc then some r else none
  ctx := Function.update (fun _ => none) ntb (if h.ctx then some r else none)
  link := Function.update (fun _ => false) ntb h.link
  bound := Function.update (fun _ => false) ntb h.bound

structure Record.Owned (rec : Record) (ntb : Nat) (h : Held) : Prop where
  live : rec.live = true
  device : rec.ntb = ntb
  removed : h.removed = true → rec.removed = true
  cancelled : h.cancelled = true → rec.work = .idle
  emptied : h.emptied = true → rec.mapped = false ∧ rec.buffer = false

def Driver.Quiet (s : Driver) (r : Nat) : Prop := ∀ f ∈ s.files, f.record = r → f.inside = false

/-- The record is the only one, and registered as the call has it. -/
structure Owns (s : Driver) (r ntb : Nat) (h : Held) : Prop where
  record : ∃ rec : Record, s.records[r]? = some rec ∧ rec.Owned ntb h
  alone : ∀ q rec, s.records[q]? = some rec → rec.live = true → q = r
  registry : s.registry = .of r ntb h
  quiet : h.emptied = true → s.Quiet r

structure Unloaded (s : Driver) : Prop where
  freed : ∀ (q : Nat) (rec : Record), s.records[q]? = some rec → rec.live = false
  registry : s.registry = .empty

def Sound (s : Driver) : Prop :=
  match s.call with
  | .idle => Unloaded s ∨ ∃ r ntb, Owns s r ntb .serving
  | .probe r pc => ∃ ntb, Owns s r ntb pc.held
  | .remove r pc => ∃ ntb, Owns s r ntb pc.held

/-- The steps of the threads besides the driver core, with what they access. -/
inductive Other (s : Driver) : Driver → List Access → Prop
  | notified (d : Nat) : Other s (s.notify d).1 (s.notify d).2
  | worked {rec after : Record} (at_ : s.records[r]? = some rec) (busy : rec.work ≠ .idle)
      (live : after.live = rec.live) (ntb : after.ntb = rec.ntb)
      (removed : after.removed = rec.removed) :
      Other s (s.modify r fun _ => after) [s.access .worker r]
  | opened (misc : s.registry.misc = some r) :
      Other s { s with files := s.files ++ [⟨r, false⟩] } [s.access .core r]
  | called (at_ : s.files[file]? = some f) (found : s.records[f.record]? = some rec)
      (marked : inside = true → rec.removed = false) :
      Other s { s with files := s.files.set file { f with inside } } [s.access .file f.record]
  | touched (member : f ∈ s.files) (inside : f.inside = true) (mapped buffer : Bool) :
      Other s (s.modify f.record fun rec => { rec with mapped, buffer }) [s.access .file f.record]
  | closed (file : Nat) : Other s { s with files := s.files.eraseIdx file } []

inductive Stepped (s t : Driver) (es : List Access) : Label → Prop
  | probe (cases : es = [] ∧ (t = s ∨ Unloaded s ∧ s.call = .idle ∧ t = { s with
      records := s.records ++ [⟨d, true, false, .idle, false, false⟩]
      call := .probe s.records.length .miscRegister })) : Stepped s t es (.probe d fits memory)
  | remove (owns : Owns s r d .serving)
      (after : t = { s.unbind d with call := .remove r .setRemoved })
      (accessed : es = [s.access .call r]) : Stepped s t es (.remove d)
  | advance (advanced : s.advance ok = some (t, es)) : Stepped s t es (.advance ok)
  | other (other : Other s t es) (beside : ∀ ok, l ≠ .advance ok) : Stepped s t es l

variable {s t : Driver} {es : List Access} {r ntb : Nat} {h : Held} {rec : Record}

theorem serving_ordered : Held.serving.Ordered := ⟨by decide, by decide⟩

theorem ProbePc.ordered (pc : ProbePc) : pc.held.Ordered := by
  cases pc <;> exact ⟨by decide, by decide⟩

theorem RemovePc.ordered (pc : RemovePc) : pc.held.Ordered := by
  cases pc <;> exact ⟨by decide, by decide⟩

theorem Owns.at (owns : Owns s r ntb h) (at_ : s.records[r]? = some rec) : rec.Owned ntb h := by
  obtain ⟨found, same, owned⟩ := owns.record
  rwa [Option.some.inj (at_.symm.trans same)]

theorem Owns.live (owns : Owns s r ntb h) : s.live r = true := by
  obtain ⟨rec, at_, owned⟩ := owns.record
  simp only [Driver.live, at_, Option.any_some, owned.live]

theorem Owns.ctx (owns : Owns s r ntb h) (found : s.registry.ctx d = some q) :
    q = r ∧ h.ctx = true := by
  rw [owns.registry] at found
  simp only [Registry.of, Function.update_apply] at found
  split_ifs at found with same set
  · exact ⟨(Option.some.inj found).symm, set⟩

theorem Owns.misc (owns : Owns s r ntb h) (found : s.registry.misc = some q) : q = r := by
  rw [owns.registry] at found
  simp only [Registry.of] at found
  split_ifs at found
  exact (Option.some.inj found).symm

theorem Owns.global (owns : Owns s r ntb h) (found : s.registry.global = some q) : q = r := by
  rw [owns.registry] at found
  simp only [Registry.of] at found
  split_ifs at found
  exact (Option.some.inj found).symm

/-- Whatever goes on, at most one record is registered, and it is the one that is
allocated. -/
theorem Sound.owner (sound : Sound s) : Unloaded s ∨ ∃ r ntb h, Owns s r ntb h ∧ h.Ordered := by
  unfold Sound at sound
  split at sound
  · rcases sound with unloaded | ⟨r, ntb, owns⟩
    · exact Or.inl unloaded
    · exact Or.inr ⟨r, ntb, _, owns, serving_ordered⟩
  · rename_i r pc _
    obtain ⟨ntb, owns⟩ := sound
    exact Or.inr ⟨r, ntb, _, owns, pc.ordered⟩
  · rename_i r pc _
    obtain ⟨ntb, owns⟩ := sound
    exact Or.inr ⟨r, ntb, _, owns, pc.ordered⟩

theorem Sound.ctx_live (sound : Sound s) (found : s.registry.ctx d = some r) : s.live r = true := by
  rcases sound.owner with unloaded | ⟨q, ntb, h, owns, -⟩
  · rw [unloaded.registry] at found
    contradiction
  · exact (owns.ctx found).1 ▸ owns.live

theorem Sound.misc_live (sound : Sound s) (found : s.registry.misc = some r) : s.live r = true := by
  rcases sound.owner with unloaded | ⟨q, ntb, h, owns, -⟩
  · rw [unloaded.registry] at found
    contradiction
  · exact owns.misc found ▸ owns.live

/-- What a step does to a record it does not free: work is scheduled only by a
context, and a record without work that no call is at takes nothing. -/
structure Follows (s : Driver) (q : Nat) (rec after : Record) : Prop where
  live : after.live = rec.live
  ntb : after.ntb = rec.ntb
  removed : rec.removed = true → after.removed = true
  work : rec.work = .idle → after.work = .idle ∨ ∃ d, s.registry.ctx d = some q
  mapped : rec.work = .idle → s.Quiet q → rec.mapped = false → after.mapped = false
  buffer : rec.work = .idle → s.Quiet q → rec.buffer = false → after.buffer = false

theorem Follows.refl (s : Driver) (q : Nat) (rec : Record) : Follows s q rec rec :=
  ⟨rfl, rfl, id, Or.inl, fun _ _ => id, fun _ _ => id⟩

structure Keeps (s t : Driver) : Prop where
  after : ∀ (q : Nat) rec, s.records[q]? = some rec → ∃ next, t.records[q]? = some next ∧
      Follows s q rec next
  before : ∀ (q : Nat) next, t.records[q]? = some next → ∃ rec, s.records[q]? = some rec ∧
      Follows s q rec next

/-- A call gets at a record only past the check of the mark. -/
def Enters (s t : Driver) : Prop :=
  ∀ f ∈ t.files, f.inside = true →
    f ∈ s.files ∨ ∃ rec, s.records[f.record]? = some rec ∧ rec.removed = false

structure Beside (s t : Driver) : Prop where
  registry : t.registry = s.registry
  call : t.call = s.call
  keeps : Keeps s t
  enters : Enters s t

theorem keeps_same (same : t.records = s.records) : Keeps s t := by
  constructor <;> intro q rec found
  · exact ⟨rec, same ▸ found, .refl s q rec⟩
  · exact ⟨rec, same ▸ found, .refl s q rec⟩

theorem enters_same (same : t.files = s.files) : Enters s t :=
  fun _ member _ => Or.inl (same ▸ member)

theorem modify_at (s : Driver) (r : Nat) (f : Record → Record) (q : Nat) :
    (s.modify r f).records[q]? = s.records[q]?.map fun rec => if r = q then f rec else rec :=
  List.getElem?_modify ..

theorem keeps_modify {f : Record → Record} (changed : t.records = (s.modify r f).records)
    (follows : ∀ rec, s.records[r]? = some rec → Follows s r rec (f rec)) : Keeps s t := by
  have each : ∀ (q : Nat) rec, s.records[q]? = some rec →
      Follows s q rec (if r = q then f rec else rec) := by
    intro q rec found
    split_ifs with same
    · subst same
      exact follows rec found
    · exact .refl s q rec
  constructor
  · intro q rec found
    exact ⟨_, by rw [changed, modify_at, found]; rfl, each q rec found⟩
  · intro q next found
    rw [changed, modify_at] at found
    obtain ⟨rec, before, rfl⟩ := Option.map_eq_some_iff.mp found
    exact ⟨rec, before, each q rec before⟩

theorem Record.Owned.follows (owned : rec.Owned ntb h) (ordered : h.Ordered) (owns : Owns s r ntb h)
    (follows : Follows s r rec after) : after.Owned ntb h where
  live := follows.live.trans owned.live
  device := follows.ntb.trans owned.device
  removed set := follows.removed (owned.removed set)
  cancelled set := by
    rcases follows.work (owned.cancelled set) with idle | ⟨d, found⟩
    · exact idle
    · exact absurd ((ordered.cancelled set).symm.trans (owns.ctx found).2) Bool.false_ne_true
  emptied set := by
    have idle := owned.cancelled (ordered.emptied set).2
    have quiet := owns.quiet set
    obtain ⟨mapped, buffer⟩ := owned.emptied set
    exact ⟨follows.mapped idle quiet mapped, follows.buffer idle quiet buffer⟩

theorem Owns.beside (owns : Owns s r ntb h) (ordered : h.Ordered) (beside : Beside s t) :
    Owns t r ntb h := by
  obtain ⟨rec, at_, owned⟩ := owns.record
  obtain ⟨next, found, follows⟩ := beside.keeps.after r rec at_
  refine ⟨⟨next, found, owned.follows ordered owns follows⟩, ?_,
    beside.registry.trans owns.registry, ?_⟩
  · intro q next found alive
    obtain ⟨rec, before, follows⟩ := beside.keeps.before q next found
    exact owns.alone q rec before (follows.live.symm.trans alive)
  · intro set f member same
    refine Bool.eq_false_iff.mpr fun inside => ?_
    rcases beside.enters f member inside with stood | ⟨rec, found, unmarked⟩
    · exact absurd ((owns.quiet set f stood same).symm.trans inside) Bool.false_ne_true
    · have marked := (owns.at (same ▸ found)).removed (ordered.emptied set).1
      exact absurd (unmarked.symm.trans marked) Bool.false_ne_true

theorem Unloaded.beside (unloaded : Unloaded s) (beside : Beside s t) : Unloaded t := by
  refine ⟨?_, beside.registry.trans unloaded.registry⟩
  intro q next found
  obtain ⟨rec, before, follows⟩ := beside.keeps.before q next found
  exact follows.live.trans (unloaded.freed q rec before)

theorem Sound.beside (sound : Sound s) (beside : Beside s t) : Sound t := by
  unfold Sound at sound ⊢
  rw [beside.call]
  split at sound
  · rcases sound with unloaded | ⟨r, ntb, owns⟩
    · exact Or.inl (unloaded.beside beside)
    · exact Or.inr ⟨r, ntb, owns.beside serving_ordered beside⟩
  · obtain ⟨ntb, owns⟩ := sound
    exact ⟨ntb, owns.beside (ProbePc.ordered _) beside⟩
  · obtain ⟨ntb, owns⟩ := sound
    exact ⟨ntb, owns.beside (RemovePc.ordered _) beside⟩

theorem Registry.of_empty (unset : h.global = false ∧ h.misc = false ∧ h.ctx = false ∧
    h.link = false ∧ h.bound = false) :
    Registry.of r ntb h = .empty := by
  obtain ⟨global, misc, ctx, link, bound⟩ := unset
  have same (α : Type) (a : α) : Function.update (fun _ => a) ntb a = fun _ => a :=
    Function.update_eq_self ntb _
  simp only [Registry.of, Registry.empty, global, misc, ctx, link, bound, Bool.false_eq_true,
    if_false, same]

/-- The next statement, where it changes what is registered. -/
theorem Owns.register (owns : Owns s r ntb h) {registry : Registry} {call : Call} {next : Held}
    (registered : registry = .of r ntb next)
    (same : next.removed = h.removed ∧ next.cancelled = h.cancelled ∧ next.emptied = h.emptied) :
    Owns { s with registry, call } r ntb next := by
  obtain ⟨rec, at_, owned⟩ := owns.record
  obtain ⟨removed, cancelled, emptied⟩ := same
  refine ⟨⟨rec, at_, owned.live, owned.device, ?_, ?_, ?_⟩, owns.alone, registered,
    fun set => owns.quiet (emptied.symm.trans set)⟩
  · exact fun set => owned.removed (removed.symm.trans set)
  · exact fun set => owned.cancelled (cancelled.symm.trans set)
  · exact fun set => owned.emptied (emptied.symm.trans set)

/-- The next statement, where it changes the record. -/
theorem Owns.modify (owns : Owns s r ntb h) {f : Record → Record} {call : Call} {next : Held}
    (changed : ∀ rec : Record, rec.Owned ntb h → (f rec).Owned ntb next)
    (registered : Registry.of r ntb h = .of r ntb next) (quiet : next.emptied = true → s.Quiet r) :
    Owns { s.modify r f with call } r ntb next := by
  obtain ⟨rec, at_, owned⟩ := owns.record
  refine ⟨⟨f rec, ?_, changed rec owned⟩, ?_, owns.registry.trans registered, quiet⟩
  · rw [modify_at, at_, Option.map_some, if_pos rfl]
  · intro q next after alive
    rw [modify_at] at after
    obtain ⟨before, stood, rfl⟩ := Option.map_eq_some_iff.mp after
    split_ifs at alive with same
    · exact same.symm
    · exact owns.alone q before stood alive

/-- The end of either call. -/
theorem Owns.free (owns : Owns s r ntb h) (empty : Registry.of r ntb h = .empty) (call : Call) :
    Unloaded { s.modify r fun rec => { rec with live := false } with call } := by
  refine ⟨?_, owns.registry.trans empty⟩
  intro q next after
  rw [modify_at] at after
  obtain ⟨before, stood, rfl⟩ := Option.map_eq_some_iff.mp after
  split_ifs with same
  · rfl
  · exact Bool.eq_false_iff.mpr fun alive => same (owns.alone q before stood alive).symm

theorem notify_beside (s : Driver) (d : Nat) : Beside s (s.notify d).1 := by
  unfold Driver.notify
  split
  · exact ⟨rfl, rfl, keeps_same rfl, enters_same rfl⟩
  · rename_i r found
    refine ⟨rfl, rfl, keeps_modify rfl fun rec _ => ?_, enters_same rfl⟩
    exact ⟨rfl, rfl, id, fun _ => Or.inr ⟨d, found⟩, fun _ _ => id, fun _ _ => id⟩

theorem notify_live (sound : Sound s) (d : Nat) : ∀ e ∈ (s.notify d).2, e.live = true := by
  unfold Driver.notify
  split
  · exact List.forall_mem_nil _
  · rename_i r found
    exact List.forall_mem_singleton.mpr (sound.ctx_live found)

theorem Owns.sound (owns : Owns s r ntb .serving) (idle : s.call = .idle) : Sound s := by
  unfold Sound
  rw [idle]
  exact Or.inr ⟨r, ntb, owns⟩

theorem probeStep_sound {pc : ProbePc} (owns : Owns s r ntb pc.held)
    (at_ : s.records[r]? = some rec) (ok : Bool) :
    Sound (s.probeStep r rec ok pc).1 ∧ ∀ e ∈ (s.probeStep r rec ok pc).2, e.live = true := by
  have live := owns.live
  have accessed : ∀ e ∈ [s.access .call r], e.live = true := List.forall_mem_singleton.mpr live
  have registry := owns.registry
  have device := (owns.at at_).device
  cases pc with
  | miscRegister =>
    simp only [Driver.probeStep]
    split
    · exact ⟨⟨ntb, owns.register (by rw [registry]; rfl) ⟨rfl, rfl, rfl⟩⟩, accessed⟩
    · exact ⟨⟨ntb, owns.register (registry.trans rfl) ⟨rfl, rfl, rfl⟩⟩, accessed⟩
  | publish =>
    exact ⟨⟨ntb, owns.register (by rw [registry]; rfl) ⟨rfl, rfl, rfl⟩⟩, List.forall_mem_nil _⟩
  | setCtx =>
    simp only [Driver.probeStep]
    split
    · refine ⟨⟨ntb, owns.register ?_ ⟨rfl, rfl, rfl⟩⟩, accessed⟩
      simp only [registry, device, Registry.of, ProbePc.held, Function.update_idem, if_true]
    · exact ⟨⟨ntb, owns.register (registry.trans rfl) ⟨rfl, rfl, rfl⟩⟩, accessed⟩
  | enable =>
    simp only [Driver.probeStep]
    split
    · have serving : Owns { s with
          registry.link := Function.update s.registry.link rec.ntb true
          registry.bound := Function.update s.registry.bound rec.ntb true
          call := .idle } r ntb .serving := by
        refine owns.register ?_ ⟨rfl, rfl, rfl⟩
        simp only [registry, device, Registry.of, ProbePc.held, Held.serving,
          Function.update_idem, if_true]
      have sound := serving.sound rfl
      exact ⟨sound.beside (notify_beside _ _), List.forall_mem_cons.mpr ⟨live, notify_live sound _⟩⟩
    · exact ⟨⟨ntb, owns.register (registry.trans rfl) ⟨rfl, rfl, rfl⟩⟩, accessed⟩
  | clearCtx =>
    refine ⟨⟨ntb, owns.register ?_ ⟨rfl, rfl, rfl⟩⟩, accessed⟩
    simp only [registry, device, Registry.of, ProbePc.held, Function.update_idem, if_true,
      Bool.false_eq_true, if_false]
  | unpublish =>
    exact ⟨⟨ntb, owns.register (by rw [registry]; rfl) ⟨rfl, rfl, rfl⟩⟩, List.forall_mem_nil _⟩
  | miscDeregister => exact ⟨⟨ntb, owns.register (by rw [registry]; rfl) ⟨rfl, rfl, rfl⟩⟩, accessed⟩
  | free => exact ⟨Or.inl (owns.free (Registry.of_empty ⟨rfl, rfl, rfl, rfl, rfl⟩) _), accessed⟩

theorem removeStep_sound {pc : RemovePc} (owns : Owns s r ntb pc.held)
    (at_ : s.records[r]? = some rec)
    (stepped : s.removeStep r rec pc = some (t, es)) : Sound t ∧ ∀ e ∈ es, e.live = true := by
  have accessed : ∀ e ∈ [s.access .call r], e.live = true := List.forall_mem_singleton.mpr owns.live
  have registry := owns.registry
  have device := (owns.at at_).device
  cases pc with
  | setRemoved =>
    cases stepped
    refine ⟨⟨ntb, owns.modify (fun rec owned => ?_) rfl owns.quiet⟩, accessed⟩
    exact ⟨owned.live, owned.device, fun _ => rfl, owned.cancelled, owned.emptied⟩
  | linkDisable =>
    cases stepped
    refine ⟨⟨ntb, owns.register ?_ ⟨rfl, rfl, rfl⟩⟩, accessed⟩
    simp only [registry, device, Registry.of, RemovePc.held, Function.update_idem]
  | clearCtx =>
    cases stepped
    refine ⟨⟨ntb, owns.register ?_ ⟨rfl, rfl, rfl⟩⟩, accessed⟩
    simp only [registry, device, Registry.of, RemovePc.held, Function.update_idem,
      Bool.false_eq_true, if_false]
  | cancelWork =>
    obtain ⟨-, ⟨⟩⟩ := Option.ite_none_left_eq_some.mp stepped
    refine ⟨⟨ntb, owns.modify (fun rec owned => ?_) rfl owns.quiet⟩, accessed⟩
    exact ⟨owned.live, owned.device, owned.removed, fun _ => rfl, owned.emptied⟩
  | miscDeregister =>
    cases stepped
    exact ⟨⟨ntb, owns.register (by rw [registry]; rfl) ⟨rfl, rfl, rfl⟩⟩, accessed⟩
  | release =>
    obtain ⟨free, ⟨⟩⟩ := Option.ite_none_left_eq_some.mp stepped
    have quiet : s.Quiet r := fun f member same =>
      Bool.eq_false_iff.mpr fun inside => free ⟨f, member, same, inside⟩
    refine ⟨⟨ntb, owns.modify (fun rec owned => ?_) rfl fun _ => quiet⟩, accessed⟩
    exact ⟨owned.live, owned.device, owned.removed, owned.cancelled, fun _ => ⟨rfl, rfl⟩⟩
  | unpublish =>
    cases stepped
    exact ⟨⟨ntb, owns.register (by rw [registry]; rfl) ⟨rfl, rfl, rfl⟩⟩, List.forall_mem_nil _⟩
  | free =>
    cases stepped
    exact ⟨Or.inl (owns.free (Registry.of_empty ⟨rfl, rfl, rfl, rfl, rfl⟩) _), accessed⟩

theorem advance_sound (sound : Sound s) (stepped : s.advance ok = some (t, es)) :
    Sound t ∧ ∀ e ∈ es, e.live = true := by
  unfold Sound at sound
  unfold Driver.advance at stepped
  split at stepped
  · contradiction
  · rename_i r pc calling
    rw [calling] at sound
    obtain ⟨rec, at_, moved⟩ := Option.map_eq_some_iff.mp stepped
    obtain ⟨ntb, owns⟩ := sound
    have kept := probeStep_sound owns at_ ok
    rwa [moved] at kept
  · rename_i r pc calling
    rw [calling] at sound
    obtain ⟨rec, at_, moved⟩ := Option.bind_eq_some_iff.mp stepped
    obtain ⟨ntb, owns⟩ := sound
    exact removeStep_sound owns at_ moved

/-- Only an unloaded driver allocates a record. -/
theorem probe_cases (sound : Sound s) (stepped : s.probe d fits memory = some (t, es)) :
    es = [] ∧ (t = s ∨ Unloaded s ∧ s.call = .idle ∧ t = { s with
      records := s.records ++ [⟨d, true, false, .idle, false, false⟩]
      call := .probe s.records.length .miscRegister }) := by
  unfold Driver.probe at stepped
  split at stepped
  · rename_i idle unbound
    unfold Sound at sound
    rw [idle] at sound
    split_ifs at stepped with taken fit
    · cases stepped
      exact ⟨rfl, Or.inl rfl⟩
    · cases stepped
      refine ⟨rfl, Or.inr ⟨?_, idle, rfl⟩⟩
      rcases sound with unloaded | ⟨r, ntb, owns⟩
      · exact unloaded
      · rw [owns.registry] at taken
        exact absurd rfl taken
    · cases stepped
      exact ⟨rfl, Or.inl rfl⟩
  · contradiction

theorem Unloaded.allocate (unloaded : Unloaded s) (d : Nat) :
    Owns { s with
      records := s.records ++ [⟨d, true, false, .idle, false, false⟩]
      call := .probe s.records.length .miscRegister } s.records.length d
        ProbePc.miscRegister.held := by
  have unset {P : Prop} (set : false = true) : P := absurd set Bool.false_ne_true
  refine ⟨⟨_, List.getElem?_concat_length, rfl, rfl, unset, unset, unset⟩, ?_, ?_, unset⟩
  · intro q rec at_ alive
    rcases Nat.lt_trichotomy q s.records.length with old | new | past
    · dsimp only at at_
      rw [List.getElem?_append_left old] at at_
      exact absurd ((unloaded.freed q rec at_).symm.trans alive) Bool.false_ne_true
    · exact new
    · have none : (s.records ++ [(⟨d, true, false, .idle, false, false⟩ : Record)])[q]? = none :=
        List.getElem?_eq_none (by rw [List.length_append]; exact past)
      exact absurd (none.symm.trans at_) nofun
  · exact unloaded.registry.trans (Registry.of_empty ⟨rfl, rfl, rfl, rfl, rfl⟩).symm

/-- The driver core removes the device whose record it is. -/
theorem remove_cases (sound : Sound s) (stepped : s.remove d = some (t, es)) :
    ∃ r, Owns s r d .serving ∧ t = { s.unbind d with call := .remove r .setRemoved } ∧
      es = [s.access .call r] := by
  unfold Driver.remove at stepped
  split at stepped
  · rename_i idle bound
    unfold Sound at sound
    rw [idle] at sound
    rcases sound with unloaded | ⟨r, ntb, owns⟩
    · rw [unloaded.registry] at bound
      contradiction
    · obtain ⟨rec, at_, owned⟩ := owns.record
      rw [owns.registry] at stepped bound
      simp only [Registry.of, Held.serving, Function.update_apply] at bound
      split_ifs at bound with same
      subst same
      simp only [Registry.of, Held.serving, if_true, at_, Option.any_some, owned.device,
        decide_true] at stepped
      cases stepped
      exact ⟨r, owns, rfl, rfl⟩
  · contradiction

theorem Owns.unbind (owns : Owns s r d .serving) :
    Owns { s.unbind d with call := .remove r .setRemoved } r d RemovePc.setRemoved.held := by
  refine owns.register ?_ ⟨rfl, rfl, rfl⟩
  simp only [Driver.unbind, owns.registry, Registry.of, RemovePc.held, Held.serving,
    Function.update_idem, if_true]

theorem workerStep_other {next : Record → Option Record}
    (keeps : ∀ rec after, next rec = some after →
      rec.work ≠ .idle ∧ after.live = rec.live ∧ after.ntb = rec.ntb ∧ after.removed = rec.removed)
    (stepped : s.workerStep r next = some (t, es)) : Other s t es := by
  obtain ⟨rec, at_, moved⟩ := Option.bind_eq_some_iff.mp stepped
  obtain ⟨after, taken, same⟩ := Option.map_eq_some_iff.mp moved
  cases same
  obtain ⟨busy, live, ntb, removed⟩ := keeps rec after taken
  exact .worked at_ busy live ntb removed

theorem start_busy {work next : Work} (started : work.start = some next) : work ≠ .idle := by
  rintro rfl
  contradiction

theorem finish_busy {work next : Work} (finished : work.finish = some next) : work ≠ .idle := by
  rintro rfl
  contradiction

theorem running_busy {work : Work} (running : work.isRunning = true) : work ≠ .idle := by
  rintro rfl
  contradiction

theorem onFile_cases {next : File → Record → Driver}
    (stepped : s.onFile file inside next = some (t, es)) :
    ∃ f rec, s.files[file]? = some f ∧ s.records[f.record]? = some rec ∧ f.inside = inside ∧
      t = next f rec ∧ es = [s.access .file f.record] := by
  obtain ⟨f, at_, moved⟩ := Option.bind_eq_some_iff.mp stepped
  obtain ⟨rec, found, taken⟩ := Option.bind_eq_some_iff.mp moved
  obtain ⟨same, ⟨⟩⟩ := Option.ite_none_right_eq_some.mp taken
  exact ⟨f, rec, at_, found, same, rfl, rfl⟩

theorem step_stepped {l : Label} (sound : Sound s) (stepped : s.step l = some (t, es)) :
    Stepped s t es l := by
  cases l with
  | probe d fits memory => exact .probe (probe_cases sound stepped)
  | remove d =>
    obtain ⟨r, owns, after, accessed⟩ := remove_cases sound stepped
    exact .remove owns after accessed
  | advance ok => exact .advance stepped
  | event d =>
    obtain ⟨rfl, rfl⟩ := Prod.mk.inj (Option.some.inj stepped)
    exact .other (.notified d) (by rintro ok ⟨⟩)
  | start r =>
    refine .other (workerStep_other ?_ stepped) (by rintro ok ⟨⟩)
    intro rec after taken
    obtain ⟨work, started, rfl⟩ := Option.map_eq_some_iff.mp taken
    exact ⟨start_busy started, rfl, rfl, rfl⟩
  | work r mapped buffer =>
    refine .other (workerStep_other ?_ stepped) (by rintro ok ⟨⟩)
    intro rec after taken
    obtain ⟨running, ⟨⟩⟩ := Option.ite_none_right_eq_some.mp taken
    exact ⟨running_busy running, rfl, rfl, rfl⟩
  | finish r =>
    refine .other (workerStep_other ?_ stepped) (by rintro ok ⟨⟩)
    intro rec after taken
    obtain ⟨work, finished, rfl⟩ := Option.map_eq_some_iff.mp taken
    exact ⟨finish_busy finished, rfl, rfl, rfl⟩
  | openFile =>
    obtain ⟨r, misc, same⟩ := Option.map_eq_some_iff.mp stepped
    cases same
    exact .other (.opened misc) (by rintro ok ⟨⟩)
  | touch file mapped buffer =>
    obtain ⟨f, rec, at_, found, inside, rfl, rfl⟩ := onFile_cases stepped
    exact .other (.touched (List.mem_of_getElem? at_) inside mapped buffer) (by rintro ok ⟨⟩)
  | enter file =>
    obtain ⟨f, rec, at_, found, outside, rfl, rfl⟩ := onFile_cases stepped
    exact .other
      (.called at_ found fun unmarked => by simpa only [Bool.not_eq_true'] using unmarked)
        (by rintro ok ⟨⟩)
  | leave file =>
    obtain ⟨f, rec, at_, found, inside, rfl, rfl⟩ := onFile_cases stepped
    exact .other (.called at_ found fun marked => absurd marked Bool.false_ne_true)
      (by rintro ok ⟨⟩)
  | close file =>
    obtain ⟨-, ⟨⟩⟩ := Option.ite_none_right_eq_some.mp stepped
    exact .other (.closed file) (by rintro ok ⟨⟩)

theorem Other.beside (other : Other s t es) : Beside s t := by
  cases other with
  | notified d => exact notify_beside s d
  | worked at_ busy live ntb removed =>
    refine ⟨rfl, rfl, keeps_modify rfl fun rec found => ?_, enters_same rfl⟩
    cases at_.symm.trans found
    exact ⟨live, ntb, removed.trans, fun idle => absurd idle busy, fun idle => absurd idle busy,
      fun idle => absurd idle busy⟩
  | opened misc =>
    refine ⟨rfl, rfl, keeps_same rfl, ?_⟩
    intro f member inside
    rcases List.mem_append.mp member with stood | new
    · exact Or.inl stood
    · rw [List.mem_singleton.mp new] at inside
      contradiction
  | called at_ found marked =>
    refine ⟨rfl, rfl, keeps_same rfl, ?_⟩
    intro f member inside
    rcases List.mem_or_eq_of_mem_set member with stood | rfl
    · exact Or.inl stood
    · exact Or.inr ⟨_, found, marked inside⟩
  | touched member inside mapped buffer =>
    refine ⟨rfl, rfl, keeps_modify rfl fun rec _ => ?_, enters_same rfl⟩
    have at_work : ¬s.Quiet _ := fun quiet =>
      absurd ((quiet _ member rfl).symm.trans inside) Bool.false_ne_true
    exact ⟨rfl, rfl, id, Or.inl, fun _ quiet => absurd quiet at_work,
      fun _ quiet => absurd quiet at_work⟩
  | closed file =>
    exact ⟨rfl, rfl, keeps_same rfl, fun f member _ => Or.inl (List.mem_of_mem_eraseIdx member)⟩

theorem step_sound {l : Label} (sound : Sound s) (stepped : s.step l = some (t, es)) : Sound t := by
  cases step_stepped sound stepped with
  | probe cases =>
    obtain ⟨-, rfl | ⟨unloaded, -, rfl⟩⟩ := cases
    · exact sound
    · exact ⟨_, unloaded.allocate _⟩
  | remove owns after =>
    subst after
    exact ⟨_, owns.unbind⟩
  | advance advanced => exact (advance_sound sound advanced).1
  | other other => exact sound.beside other.beside

theorem loaded_sound : Sound .loaded := Or.inl ⟨nofun, rfl⟩

theorem run_sound (path : run Driver.step .loaded ls = some (s, es)) : Sound s :=
  run_preserves (P := Sound) (fun sound _ stepped => step_sound sound stepped) loaded_sound
    (along_true _ _) path

/-- Once nothing is bound and no call is under way, nothing is registered any more
and every record was freed. -/
theorem driver_unloads (path : run Driver.step .loaded ls = some (s, es)) (idle : s.call = .idle)
    (unbound : ∀ d, s.registry.bound d = false) : Unloaded s := by
  have sound := run_sound path
  unfold Sound at sound
  rw [idle] at sound
  rcases sound with unloaded | ⟨r, d, owns⟩
  · exact unloaded
  · have bound := unbound d
    rw [owns.registry] at bound
    simp only [Registry.of, Held.serving, Function.update_self, Bool.true_eq_false] at bound

/-- `probe` to its end, and `remove` to its end. -/
def probed : List Label := .probe 0 true true :: List.replicate 4 (.advance true)

def removed : List Label := .remove 0 :: List.replicate 8 (.advance true)

def bindAndUnbind : List Label :=
  probed ++ [.start 0, .work 0 true true, .event 0, .finish 0] ++ removed

theorem driver_unloads_bound :
    ∃ s es, run Driver.step .loaded bindAndUnbind = some (s, es) ∧ s.records.length = 1 ∧
      s.registry = .empty ∧
      ∀ (q : Nat) rec, s.records[q]? = some rec → rec.live = false := by
  have ends : (run Driver.step .loaded bindAndUnbind).map
      (fun out => (out.1.call, out.1.records.length, out.1.registry.bound)) =
      some (.idle, 1, Function.update (Function.update (fun _ => false) 0 true) 0 false) := by
    rfl
  obtain ⟨⟨s, es⟩, path, same⟩ := Option.map_eq_some_iff.mp ends
  simp only [Prod.mk.injEq, Function.update_idem] at same
  obtain ⟨idle, one, bound⟩ := same
  have unloaded := driver_unloads path idle fun d => by
    rw [bound, Function.update_apply, ite_self]
  exact ⟨s, es, path, one, unloaded.registry, unloaded.freed⟩

def Driver.freeing (s : Driver) : Option Nat :=
  match s.call with
  | .probe r .free | .remove r .free => some r
  | _ => none

theorem Keeps.of {u : Driver} (keeps : Keeps u t) (records : u.records = s.records)
    (ctx : u.registry.ctx = s.registry.ctx) (files : u.files = s.files) : Keeps s t := by
  have moved {q : Nat} {rec next : Record} (follows : Follows u q rec next) :
      Follows s q rec next := by
    have quiet : s.Quiet q → u.Quiet q := fun quiet f member => quiet f (files ▸ member)
    exact ⟨follows.live, follows.ntb, follows.removed, ctx ▸ follows.work,
      fun idle still => follows.mapped idle (quiet still), fun idle still =>
        follows.buffer idle (quiet still)⟩
  constructor
  · intro q rec found
    obtain ⟨next, after, follows⟩ := keeps.after q rec (records ▸ found)
    exact ⟨next, after, moved follows⟩
  · intro q next found
    obtain ⟨rec, before, follows⟩ := keeps.before q next found
    exact ⟨rec, records ▸ before, moved follows⟩

structure Passes (s t : Driver) : Prop where
  keeps : Keeps s t
  files : t.files = s.files

theorem notify_files (s : Driver) (d : Nat) : (s.notify d).1.files = s.files := by
  unfold Driver.notify
  split <;> rfl

theorem probeStep_passes {pc : ProbePc} (more : pc ≠ .free) :
    Passes s (s.probeStep r rec ok pc).1 := by
  cases pc with
  | miscRegister =>
    simp only [Driver.probeStep]
    split <;> exact ⟨keeps_same rfl, rfl⟩
  | publish => exact ⟨keeps_same rfl, rfl⟩
  | setCtx =>
    simp only [Driver.probeStep]
    split <;> exact ⟨keeps_same rfl, rfl⟩
  | enable =>
    simp only [Driver.probeStep]
    split
    · exact ⟨(notify_beside _ _).keeps.of rfl rfl rfl, notify_files _ _⟩
    · exact ⟨keeps_same rfl, rfl⟩
  | clearCtx => exact ⟨keeps_same rfl, rfl⟩
  | unpublish => exact ⟨keeps_same rfl, rfl⟩
  | miscDeregister => exact ⟨keeps_same rfl, rfl⟩
  | free => exact absurd rfl more

theorem removeStep_passes {pc : RemovePc} (more : pc ≠ .free)
    (stepped : s.removeStep r rec pc = some (t, es)) :
    Passes s t := by
  cases pc with
  | setRemoved =>
    cases stepped
    refine ⟨keeps_modify rfl fun rec _ => ?_, rfl⟩
    exact ⟨rfl, rfl, fun _ => rfl, Or.inl, fun _ _ => id, fun _ _ => id⟩
  | cancelWork =>
    obtain ⟨-, ⟨⟩⟩ := Option.ite_none_left_eq_some.mp stepped
    refine ⟨keeps_modify rfl fun rec _ => ?_, rfl⟩
    exact ⟨rfl, rfl, id, fun _ => Or.inl rfl, fun _ _ => id, fun _ _ => id⟩
  | release =>
    obtain ⟨-, ⟨⟩⟩ := Option.ite_none_left_eq_some.mp stepped
    refine ⟨keeps_modify rfl fun rec _ => ?_, rfl⟩
    exact ⟨rfl, rfl, id, Or.inl, fun _ _ _ => rfl, fun _ _ _ => rfl⟩
  | free => exact absurd rfl more
  | linkDisable =>
    cases stepped
    exact ⟨keeps_same rfl, rfl⟩
  | clearCtx =>
    cases stepped
    exact ⟨keeps_same rfl, rfl⟩
  | miscDeregister =>
    cases stepped
    exact ⟨keeps_same rfl, rfl⟩
  | unpublish =>
    cases stepped
    exact ⟨keeps_same rfl, rfl⟩

def Driver.freed (s : Driver) (r : Nat) : Driver :=
  { s.modify r fun rec => { rec with live := false } with call := .idle }

theorem advance_cases (stepped : s.advance ok = some (t, es)) :
    s.freeing = none ∧ Passes s t ∨ ∃ r, s.freeing = some r ∧ t = s.freed r := by
  unfold Driver.advance at stepped
  unfold Driver.freeing
  split at stepped
  · contradiction
  · rename_i r pc calling
    obtain ⟨rec, at_, moved⟩ := Option.map_eq_some_iff.mp stepped
    rw [calling]
    by_cases last : pc = .free
    · subst last
      cases moved
      exact Or.inr ⟨r, rfl, rfl⟩
    · refine Or.inl ⟨by cases pc <;> trivial, ?_⟩
      rw [← (Prod.mk.inj moved).1]
      exact probeStep_passes last
  · rename_i r pc calling
    obtain ⟨rec, at_, moved⟩ := Option.bind_eq_some_iff.mp stepped
    rw [calling]
    by_cases last : pc = .free
    · subst last
      cases moved
      exact Or.inr ⟨r, rfl, rfl⟩
    · exact Or.inl ⟨by cases pc <;> trivial, removeStep_passes last moved⟩

/-- Nothing is left of a record that was freed: no open file, no work, no window
and no buffer. -/
structure Clean (s : Driver) : Prop where
  files : ∀ f ∈ s.files, s.live f.record = true
  freed : ∀ (q : Nat) rec, s.records[q]? = some rec → rec.live = false → rec.work = .idle ∧
    rec.mapped = false ∧ rec.buffer = false

/-- A record is freed with no file open, and on the error path of `probe`, which
neither cancels the work nor releases what it took, with none of these. -/
def Settled (s : Driver) : Label → Prop
  | .advance _ => ∀ r, s.freeing = some r → (∀ f ∈ s.files, f.record ≠ r) ∧
      (s.call = .probe r .free → ∀ rec, s.records[r]? = some rec → rec.work = .idle ∧
        rec.mapped = false ∧ rec.buffer = false)
  | _ => True

theorem Clean.quiet (clean : Clean s) (dead : s.live q = false) : s.Quiet q := by
  intro f member same
  exact absurd (dead.symm.trans (same ▸ clean.files f member)) Bool.false_ne_true

theorem live_of_at (at_ : s.records[q]? = some rec) : s.live q = rec.live := by
  rw [Driver.live, at_, Option.any_some]

theorem live_at (alive : s.live q = true) : ∃ rec, s.records[q]? = some rec ∧ rec.live = true := by
  unfold Driver.live at alive
  cases at_ : s.records[q]? with
  | none =>
    rw [at_] at alive
    contradiction
  | some rec =>
    rw [at_] at alive
    exact ⟨rec, rfl, alive⟩

theorem Keeps.live (keeps : Keeps s t) (alive : s.live q = true) : t.live q = true := by
  obtain ⟨rec, at_, live⟩ := live_at alive
  obtain ⟨next, found, follows⟩ := keeps.after q rec at_
  rw [live_of_at found, follows.live, live]

theorem Clean.keeps (clean : Clean s) (sound : Sound s) (keeps : Keeps s t)
    (files : ∀ f ∈ t.files, s.live f.record = true) : Clean t := by
  refine ⟨fun f member => keeps.live (files f member), ?_⟩
  intro q next found dead
  obtain ⟨rec, at_, follows⟩ := keeps.before q next found
  have before : rec.live = false := follows.live.symm.trans dead
  obtain ⟨idle, mapped, buffer⟩ := clean.freed q rec at_ before
  have gone : s.live q = false := (live_of_at at_).trans before
  refine ⟨?_, follows.mapped idle (clean.quiet gone) mapped,
    follows.buffer idle (clean.quiet gone) buffer⟩
  rcases follows.work idle with still | ⟨d, found⟩
  · exact still
  · exact absurd (gone.symm.trans (sound.ctx_live found)) Bool.false_ne_true

/-- A step of another thread leaves only files on records that are allocated. -/
theorem Other.files (other : Other s t es) (sound : Sound s) (clean : Clean s) :
    ∀ f ∈ t.files, s.live f.record = true := by
  cases other with
  | notified d => exact notify_files s d ▸ clean.files
  | worked => exact clean.files
  | opened misc =>
    intro f member
    rcases List.mem_append.mp member with stood | new
    · exact clean.files f stood
    · rw [List.mem_singleton.mp new]
      exact sound.misc_live misc
  | called at_ =>
    intro f member
    rcases List.mem_or_eq_of_mem_set member with stood | rfl
    · exact clean.files f stood
    · have before := clean.files _ (List.mem_of_getElem? at_)
      exact before
  | touched => exact clean.files
  | closed file => exact fun f member => clean.files f (List.mem_of_mem_eraseIdx member)

theorem Other.accesses (other : Other s t es) (sound : Sound s) (clean : Clean s) :
    ∀ e ∈ es, e.live = true := by
  cases other with
  | notified d => exact notify_live sound d
  | worked at_ busy =>
    refine List.forall_mem_singleton.mpr
      ((live_of_at at_).trans (Bool.not_eq_false _ ▸ fun dead => ?_))
    exact busy (clean.freed _ _ at_ dead).1
  | opened misc => exact List.forall_mem_singleton.mpr (sound.misc_live misc)
  | called at_ => exact List.forall_mem_singleton.mpr (clean.files _ (List.mem_of_getElem? at_))
  | touched member => exact List.forall_mem_singleton.mpr (clean.files _ member)
  | closed => exact List.forall_mem_nil _

/-- The record that is freed is the one the call is about. -/
theorem freeing_owns (sound : Sound s) (freeing : s.freeing = some r) :
    ∃ rec, s.records[r]? = some rec ∧ rec.live = true ∧
      (s.call ≠ .probe r .free → rec.work = .idle ∧ rec.mapped = false ∧ rec.buffer = false) := by
  unfold Sound at sound
  unfold Driver.freeing at freeing
  split at freeing
  · rename_i q calling
    cases freeing
    rw [calling] at sound ⊢
    obtain ⟨d, owns⟩ := sound
    obtain ⟨rec, at_, owned⟩ := owns.record
    exact ⟨rec, at_, owned.live, fun other => absurd rfl other⟩
  · rename_i q calling
    cases freeing
    rw [calling] at sound
    obtain ⟨d, owns⟩ := sound
    obtain ⟨rec, at_, owned⟩ := owns.record
    exact ⟨rec, at_, owned.live, fun _ => ⟨owned.cancelled rfl, owned.emptied rfl⟩⟩
  · contradiction

theorem freed_at (s : Driver) (r q : Nat) :
    (s.freed r).records[q]? = s.records[q]?.map fun rec => if r = q then
      { rec with live := false } else rec :=
  modify_at s r _ q

theorem freed_clean_iff (sound : Sound s) (clean : Clean s) (freeing : s.freeing = some r) :
    Clean (s.freed r) ↔ (∀ f ∈ s.files, f.record ≠ r) ∧
      (s.call = .probe r .free → ∀ rec, s.records[r]? = some rec → rec.work = .idle ∧
        rec.mapped = false ∧ rec.buffer = false) := by
  obtain ⟨rec, at_, alive, settled⟩ := freeing_owns sound freeing
  have after : (s.freed r).records[r]? = some { rec with live := false } := by
    rw [freed_at, at_, Option.map_some, if_pos rfl]
  constructor
  · intro left
    refine ⟨?_, ?_⟩
    · rintro f member rfl
      have live := left.files f member
      rw [live_of_at after] at live
      contradiction
    · intro _ found same
      cases at_.symm.trans same
      have gone := left.freed r _ after rfl
      exact gone
  · rintro ⟨closed, probed⟩
    constructor
    · intro f member
      obtain ⟨found, stood, live⟩ := live_at (clean.files f member)
      have same : (s.freed r).records[f.record]? = some found := by
        rw [freed_at, stood, Option.map_some, if_neg (closed f member).symm]
      exact (live_of_at same).trans live
    · intro q next found dead
      rw [freed_at] at found
      obtain ⟨before, stood, rfl⟩ := Option.map_eq_some_iff.mp found
      split_ifs at dead ⊢ with same
      · subst same
        cases at_.symm.trans stood
        by_cases failed : s.call = .probe r .free
        · exact probed failed rec at_
        · exact settled failed
      · exact clean.freed q before stood dead

theorem step_clean_iff {l : Label} (sound : Sound s) (clean : Clean s)
    (stepped : s.step l = some (t, es)) :
    Clean t ↔ Settled s l := by
  cases step_stepped sound stepped with
  | probe cases =>
    refine iff_of_true ?_ trivial
    obtain ⟨-, rfl | ⟨unloaded, -, rfl⟩⟩ := cases
    · exact clean
    · have grown {q : Nat} (alive : s.live q = true) : q < s.records.length := by
        obtain ⟨rec, at_, -⟩ := live_at alive
        exact (List.getElem?_eq_some_iff.mp at_).1
      constructor
      · intro f member
        have alive := clean.files f member
        dsimp only [Driver.live] at alive ⊢
        rwa [List.getElem?_append_left (grown alive)]
      · intro q rec found dead
        dsimp only at found
        by_cases old : q < s.records.length
        · rw [List.getElem?_append_left old] at found
          exact clean.freed q rec found dead
        · rw [List.getElem?_append_right (Nat.le_of_not_lt old)] at found
          have new := List.mem_singleton.mp (List.mem_of_getElem? found)
          rw [new]
          exact ⟨rfl, rfl, rfl⟩
  | remove owns after =>
    subst after
    exact iff_of_true (clean.keeps sound (keeps_same rfl) clean.files) trivial
  | advance advanced =>
    rcases advance_cases advanced with ⟨more, passes⟩ | ⟨r, freeing, rfl⟩
    · refine iff_of_true (clean.keeps sound passes.keeps (passes.files ▸ clean.files)) ?_
      intro r freeing
      exact absurd (more.symm.trans freeing) nofun
    · rw [freed_clean_iff sound clean freeing]
      constructor
      · intro settled q same
        cases freeing.symm.trans same
        exact settled
      · intro settled
        exact settled r freeing
  | other other beside =>
    refine iff_of_true (clean.keeps sound other.beside.keeps (other.files sound clean)) ?_
    unfold Settled
    split
    · exact absurd rfl (beside _)
    · trivial

theorem step_accesses {l : Label} (sound : Sound s) (clean : Clean s)
    (stepped : s.step l = some (t, es)) :
    ∀ e ∈ es, e.live = true := by
  cases step_stepped sound stepped with
  | probe cases =>
    rw [cases.1]
    exact List.forall_mem_nil _
  | remove owns after accessed =>
    rw [accessed]
    exact List.forall_mem_singleton.mpr owns.live
  | advance advanced => exact (advance_sound sound advanced).2
  | other other => exact other.accesses sound clean

structure Safe (es : List Access) (s : Driver) : Prop where
  sound : Sound s
  clean : Clean s
  live : ∀ e ∈ es, e.live = true

/-- Nothing is left of any record that was freed, and none is accessed, exactly
when `remove` frees its record with no file open, and the error path of `probe`
with no file and no work besides. -/
theorem driver_released_iff (path : run Driver.step .loaded ls = some (s, es)) :
    (∀ front t fs, front <+: ls → run Driver.step .loaded front = some (t, fs) →
        Clean t ∧ ∀ e ∈ fs, e.live = true) ↔
      Along Driver.step Settled .loaded ls := by
  have clean : Clean .loaded := ⟨List.forall_mem_nil _, nofun⟩
  have always : ∀ l ∈ ls, (fun _ : Label => True) l := fun _ _ => trivial
  have exact : ∀ {before s l t es}, Safe before s → (fun _ : Label => True) l →
      Driver.step s l = some (t, es) → (Safe (before ++ es) t ↔ Settled s l) := by
    rintro before s l t es ⟨sound, clean, live⟩ - stepped
    rw [← step_clean_iff sound clean stepped]
    refine ⟨Safe.clean, fun after => ⟨step_sound sound stepped, after, ?_⟩⟩
    exact List.forall_mem_append.mpr ⟨live, step_accesses sound clean stepped⟩
  rw [← run_exact (P := Safe) exact ⟨loaded_sound, clean, List.forall_mem_nil _⟩ always path]
  constructor
  · intro always front t fs part reached
    obtain ⟨clean, live⟩ := always front t fs part reached
    exact ⟨run_sound reached, clean, live⟩
  · intro always front t fs part reached
    have safe := always front t fs part reached
    exact ⟨safe.clean, safe.live⟩

/-- A file that is open at the removal reads the record afterwards. -/
def readAfterRemove : List Label := probed ++ [.openFile] ++ removed ++ [.enter 0]

theorem driver_released_read :
    ∃ s es, run Driver.step .loaded readAfterRemove = some (s, es) ∧ ⟨.file, 0, false⟩ ∈ es ∧
      ¬Along Driver.step Settled .loaded readAfterRemove := by
  have ends : (run Driver.step .loaded readAfterRemove).map (fun out =>
      decide (⟨.file, 0, false⟩ ∈ out.2)) = some true := by decide +kernel
  obtain ⟨⟨s, es⟩, path, member⟩ := Option.map_eq_some_iff.mp ends
  have freed := of_decide_eq_true member
  refine ⟨s, es, path, freed, fun settled => ?_⟩
  have released := (driver_released_iff path).mpr settled _ s es (List.prefix_refl _) path
  exact absurd (released.2 _ freed) Bool.false_ne_true

end IdtNtb.Kernel.LifeCycle
