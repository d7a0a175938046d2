import Mathlib.Data.List.Basic

/-! Finite runs of a machine in which every nondeterministic choice is named by
a label and every step reports a list of events. A machine is a partial
function, so a concrete run can be evaluated; a disabled label yields `none`.
Nothing here refers to a particular machine. -/
namespace IdtNtb.Transition
variable {S A L K E F : Type}

/-- Run a schedule from `s`, accumulating the events in order. -/
def run (step : S → L → Option (S × List E)) : S → List L → Option (S × List E)
  | s, [] => some (s, [])
  | s, l :: ls =>
      (step s l).bind fun first =>
        (run step first.1 ls).map fun rest => (rest.1, first.2 ++ rest.2)

/-- Every step the schedule takes from `s` meets a condition on its source
state and label. Labels after the first disabled one are not constrained. -/
def Along (step : S → L → Option (S × List E)) (ok : S → L → Prop) : S → List L → Prop
  | _, [] => True
  | s, l :: ls => ok s l ∧ match step s l with
    | none => True
    | some next => Along step ok next.1 ls

instance along_decidable (step : S → L → Option (S × List E)) (ok : S → L → Prop)
    [∀ s l, Decidable (ok s l)] : ∀ s ls, Decidable (Along step ok s ls)
  | _, [] => .isTrue trivial
  | s, l :: ls =>
      match head : step s l with
      | none => decidable_of_iff (ok s l) (by simp only [Along, head, and_true])
      | some next =>
          have := along_decidable step ok next.1 ls
          decidable_of_iff (ok s l ∧ Along step ok next.1 ls) (by simp only [Along, head])

/-- The same for a condition that also looks at the events reported so far. -/
def AlongHistory (step : S → L → Option (S × List E)) (ok : List E → S → L → Prop) :
    List E → S → List L → Prop
  | _, _, [] => True
  | es, s, l :: ls => ok es s l ∧ match step s l with
    | none => True
    | some next => AlongHistory step ok (es ++ next.2) next.1 ls

instance alongHistory_decidable (step : S → L → Option (S × List E)) (ok : List E → S → L → Prop)
    [∀ es s l, Decidable (ok es s l)] : ∀ es s ls, Decidable (AlongHistory step ok es s ls)
  | _, _, [] => .isTrue trivial
  | es, s, l :: ls =>
      match head : step s l with
      | none => decidable_of_iff (ok es s l) (by simp only [AlongHistory, head, and_true])
      | some next =>
          have := alongHistory_decidable step ok (es ++ next.2) next.1 ls
          decidable_of_iff (ok es s l ∧ AlongHistory step ok (es ++ next.2) next.1 ls)
            (by simp only [AlongHistory, head])

/-- The same for two runs under the same labels, as far as both go. -/
def AlongBoth (step : S → L → Option (S × List E)) (ok : S → S → L → Prop) : S → S → List L → Prop
  | _, _, [] => True
  | s, t, l :: ls => ok s t l ∧ match step s l, step t l with
    | some a, some b => AlongBoth step ok a.1 b.1 ls
    | _, _ => True

instance alongBoth_decidable (step : S → L → Option (S × List E)) (ok : S → S → L → Prop)
    [∀ s t l, Decidable (ok s t l)] : ∀ s t ls, Decidable (AlongBoth step ok s t ls)
  | _, _, [] => .isTrue trivial
  | s, t, l :: ls =>
      match first : step s l, second : step t l with
      | some a, some b =>
          have := alongBoth_decidable step ok a.1 b.1 ls
          decidable_of_iff (ok s t l ∧ AlongBoth step ok a.1 b.1 ls)
            (by simp only [AlongBoth, first, second])
      | none, _ => decidable_of_iff (ok s t l) (by simp only [AlongBoth, first, and_true])
      | some _, none =>
          decidable_of_iff (ok s t l) (by simp only [AlongBoth, first, second, and_true])

variable {step : S → L → Option (S × List E)} {ok : S → L → Prop}

@[simp] theorem run_nil (s : S) : run step s [] = some (s, []) := rfl

theorem run_nil_eq_some : run step s [] = some (t, es) ↔ s = t ∧ [] = es := by
  simp only [run_nil, Option.some.injEq, Prod.mk.injEq]

theorem run_cons_eq_some :
    run step s (l :: ls) = some (u, es) ↔
      ∃ t first rest, step s l = some (t, first) ∧ run step t ls = some (u, rest) ∧
        es = first ++ rest := by
  simp only [run, Option.bind_eq_some_iff, Option.map_eq_some_iff, Prod.exists, Prod.mk.injEq]
  constructor
  · rintro ⟨t, first, head, u', rest, tail, rfl, rfl⟩
    exact ⟨t, first, rest, head, tail, rfl⟩
  · rintro ⟨t, first, rest, head, tail, rfl⟩
    exact ⟨t, first, head, u, rest, tail, rfl, rfl⟩

theorem run_append (front : run step s ls = some (t, es)) (back : run step t ks = some (u, fs)) :
    run step s (ls ++ ks) = some (u, es ++ fs) := by
  induction ls generalizing s es with
  | nil =>
    obtain ⟨rfl, rfl⟩ := run_nil_eq_some.mp front
    exact back
  | cons l ls ih =>
    obtain ⟨middle, first, rest, head, tail, rfl⟩ := run_cons_eq_some.mp front
    exact run_cons_eq_some.mpr ⟨middle, first, rest ++ fs, head, ih tail, List.append_assoc ..⟩

theorem run_append_eq_some :
    run step s (ls ++ ks) = some (u, es) ↔
      ∃ t first rest, run step s ls = some (t, first) ∧ run step t ks = some (u, rest) ∧
        es = first ++ rest := by
  constructor
  · intro path
    induction ls generalizing s es with
    | nil => exact ⟨s, [], es, rfl, path, rfl⟩
    | cons l ls ih =>
      obtain ⟨middle, first, rest, head, tail, rfl⟩ := run_cons_eq_some.mp path
      obtain ⟨t, front, back, before, after, rfl⟩ := ih tail
      refine ⟨t, first ++ front, back, ?_, after, (List.append_assoc ..).symm⟩
      exact run_cons_eq_some.mpr ⟨middle, first, front, head, before, rfl⟩
  · rintro ⟨t, first, rest, front, back, rfl⟩
    exact run_append front back

def silent (next : S → L → Option S) (s : S) (l : L) : Option (S × List Unit) :=
  (next s l).map fun t => (t, [])

theorem silent_eq_some {next : S → L → Option S} (stepped : silent next s l = some (t, es)) :
    next s l = some t := by
  obtain ⟨after, moved, same⟩ := Option.map_eq_some_iff.mp stepped
  cases same
  exact moved

/-- A condition on the labels alone, checked on the schedule. -/
theorem along_labels {allowed : L → Prop} (all : ∀ l ∈ ls, allowed l) (s : S) :
    Along step (fun _ l => allowed l) s ls := by
  induction ls generalizing s with
  | nil => trivial
  | cons l ls ih =>
    refine ⟨all l List.mem_cons_self, ?_⟩
    cases step s l with
    | none => trivial
    | some next => exact ih (fun k member => all k (List.mem_cons_of_mem l member)) next.1

/-- A condition on the labels can be added to one on the steps. -/
theorem along_and {allowed : L → Prop} (meets : Along step ok s ls) (all : ∀ l ∈ ls, allowed l) :
    Along step (fun s l => ok s l ∧ allowed l) s ls := by
  induction ls generalizing s with
  | nil => trivial
  | cons l ls ih =>
    obtain ⟨admitted, remaining⟩ := meets
    refine ⟨⟨admitted, all l List.mem_cons_self⟩, ?_⟩
    cases head : step s l with
    | none => trivial
    | some next =>
      rw [head] at remaining
      exact ih remaining (fun k member => all k (List.mem_cons_of_mem l member))

theorem along_always (always : ∀ s l, ok s l) (s : S) (ls : List L) : Along step ok s ls := by
  induction ls generalizing s with
  | nil => trivial
  | cons l ls ih =>
    refine ⟨always s l, ?_⟩
    cases step s l with
    | none => trivial
    | some next => exact ih next.1

theorem along_true (s : S) (ls : List L) : Along step (fun _ _ => True) s ls :=
  along_always (fun _ _ => trivial) s ls

theorem along_cons (head : step s l = some (t, es)) :
    Along step ok s (l :: ls) ↔ ok s l ∧ Along step ok t ls := by
  simp only [Along, head]

theorem along_append (front : run step s ls = some (t, es)) :
    Along step ok s (ls ++ ks) ↔ Along step ok s ls ∧ Along step ok t ks := by
  induction ls generalizing s es with
  | nil =>
    obtain ⟨rfl, rfl⟩ := run_nil_eq_some.mp front
    simp only [List.nil_append, Along, true_and]
  | cons l ls ih =>
    obtain ⟨middle, first, rest, head, tail, rfl⟩ := run_cons_eq_some.mp front
    rw [List.cons_append, along_cons head, along_cons head, ih tail, and_assoc]

/-- An admitted schedule leads from `s` to `t`. -/
def Reaches (step : S → L → Option (S × List E)) (ok : S → L → Prop) (s t : S) : Prop :=
  ∃ ls es, Along step ok s ls ∧ run step s ls = some (t, es)

theorem Reaches.refl (s : S) : Reaches step ok s s := ⟨[], [], trivial, rfl⟩

/-- One step more, with what it reports at the end of the run. -/
theorem Reaches.reports (reached : Reaches step ok s t) (admitted : ok t l)
    (next : step t l = some (u, es)) :
    ∃ ls before, Along step ok s ls ∧ run step s ls = some (u, before ++ es) := by
  obtain ⟨ls, before, met, path⟩ := reached
  have last : run step t [l] = some (u, es) :=
    run_cons_eq_some.mpr ⟨u, es, [], next, rfl, (List.append_nil es).symm⟩
  exact ⟨ls ++ [l], before,
    (along_append path).mpr ⟨met, (along_cons next).mpr ⟨admitted, trivial⟩⟩, run_append path last⟩

theorem Reaches.next (reached : Reaches step ok s t) (admitted : ok t l)
    (next : step t l = some (u, es)) :
    Reaches step ok s u := by
  obtain ⟨ls, before, met, path⟩ := reached.reports admitted next
  exact ⟨ls, before ++ es, met, path⟩

theorem run_extends {P : List E → S → Prop}
    (keeps : ∀ {before s l t es}, P before s → ok s l → step s l = some (t, es) →
      P (before ++ es) t)
    (initial : P before s) (meets : Along step ok s ls) (path : run step s ls = some (t, es)) :
    P (before ++ es) t := by
  induction ls generalizing before s es with
  | nil =>
    obtain ⟨rfl, rfl⟩ := run_nil_eq_some.mp path
    simpa only [List.append_nil] using initial
  | cons l ls ih =>
    obtain ⟨middle, first, rest, head, tail, rfl⟩ := run_cons_eq_some.mp path
    obtain ⟨admitted, remaining⟩ := (along_cons head).mp meets
    have kept := ih (keeps initial admitted head) remaining tail
    simpa only [List.append_assoc] using kept

/-- The one induction behind every safety result: a property of the events so
far and the current state that each admitted step keeps holds after the run. -/
theorem run_invariant {P : List E → S → Prop}
    (keeps : ∀ {before s l t es}, P before s → ok s l → step s l = some (t, es) →
      P (before ++ es) t)
    (initial : P [] s) (meets : Along step ok s ls) (path : run step s ls = some (t, es)) :
    P es t :=
  run_extends keeps initial meets path

/-- The same rule for a property of the state alone. -/
theorem run_preserves {P : S → Prop}
    (keeps : ∀ {s l t es}, P s → ok s l → step s l = some (t, es) → P t)
    (initial : P s) (meets : Along step ok s ls) (path : run step s ls = some (t, es)) : P t :=
  run_invariant (P := fun _ s => P s) (fun held admitted next => keeps held admitted next)
    initial meets path

/-- The same rule for a property of the state that also bounds what a step reports. -/
theorem run_reports {P : S → Prop} {Q : E → Prop}
    (keeps : ∀ {s l t es}, P s → ok s l → step s l = some (t, es) → P t ∧ ∀ e ∈ es, Q e)
    (initial : P s) (meets : Along step ok s ls) (path : run step s ls = some (t, es)) :
    P t ∧ ∀ e ∈ es, Q e := by
  refine run_invariant (P := fun es s => P s ∧ ∀ e ∈ es, Q e) ?_ ⟨initial, nofun⟩ meets path
  intro before s l t es held admitted next
  obtain ⟨kept, reported⟩ := keeps held.1 admitted next
  exact ⟨kept, List.forall_mem_append.mpr ⟨held.2, reported⟩⟩

/-- Two outcomes with related states whose reports agree where `seen` looks. -/
def Alike (R : S → S → Prop) (seen : E → Bool) (a b : S × List E) : Prop :=
  R a.1 b.1 ∧ a.2.filter seen = b.2.filter seen

/-- Two runs under the same labels end together, and alike, if each pair of steps
does. -/
theorem run_alike {R : S → S → Prop} {seen : E → Bool} {ok : S → S → L → Prop}
    (keeps : ∀ {s t l}, R s t → ok s t l → Option.Rel (Alike R seen) (step s l) (step t l))
    (initial : R s t) (meets : AlongBoth step ok s t ls) :
    Option.Rel (Alike R seen) (run step s ls) (run step t ls) := by
  induction ls generalizing s t with
  | nil => exact .some ⟨initial, rfl⟩
  | cons l ls ih =>
    obtain ⟨admitted, remaining⟩ := meets
    have next := keeps initial admitted
    simp only [run]
    generalize step s l = first at next remaining ⊢
    generalize step t l = second at next remaining ⊢
    cases next with
    | none => exact .none
    | @some a b alike =>
      have rest := ih alike.1 remaining
      simp only [Option.bind_some]
      generalize run step a.1 ls = front at rest ⊢
      generalize run step b.1 ls = back at rest ⊢
      cases rest with
      | none => exact .none
      | some after =>
        refine .some ⟨after.1, ?_⟩
        rw [List.filter_append, List.filter_append, alike.2, after.2]

/-- A property that each allowed step keeps exactly when it meets the condition
holds in every state of a run exactly when all its steps do. -/
theorem run_exact {P : List E → S → Prop} {allowed : L → Prop}
    (exact : ∀ {before s l t es}, P before s → allowed l → step s l = some (t, es) →
      (P (before ++ es) t ↔ ok s l))
    (initial : P before s) (all : ∀ l ∈ ls, allowed l) (path : run step s ls = some (t, es)) :
    (∀ front u fs, front <+: ls → run step s front = some (u, fs) → P (before ++ fs) u) ↔
      Along step ok s ls := by
  induction ls generalizing before s es with
  | nil =>
    refine ⟨fun _ => trivial, ?_⟩
    intro _ front u fs empty reached
    obtain rfl := List.prefix_nil.mp empty
    obtain ⟨rfl, rfl⟩ := run_nil_eq_some.mp reached
    simpa only [List.append_nil] using initial
  | cons l ls ih =>
    obtain ⟨middle, first, rest, head, tail, rfl⟩ := run_cons_eq_some.mp path
    have here := all l List.mem_cons_self
    have later : ∀ k ∈ ls, allowed k := fun k member => all k (List.mem_cons_of_mem l member)
    rw [along_cons head]
    constructor
    · intro always
      have next : P (before ++ first) middle := by
        refine always [l] middle first ⟨ls, rfl⟩ (run_cons_eq_some.mpr ?_)
        exact ⟨middle, first, [], head, rfl, (List.append_nil _).symm⟩
      refine ⟨(exact initial here head).mp next, (ih next later tail).mp ?_⟩
      intro front u fs front_of reached
      rw [List.append_assoc]
      refine always (l :: front) u (first ++ fs) ?_ (run_cons_eq_some.mpr ?_)
      · exact (List.prefix_cons_inj l).mpr front_of
      · exact ⟨middle, first, fs, head, reached, rfl⟩
    · rintro ⟨admitted, remaining⟩ front u fs front_of reached
      have next := (exact initial here head).mpr admitted
      cases front with
      | nil =>
        obtain ⟨rfl, rfl⟩ := run_nil_eq_some.mp reached
        simpa only [List.append_nil] using initial
      | cons k front =>
        obtain ⟨rfl, shorter⟩ := List.cons_prefix_cons.mp front_of
        obtain ⟨middle', first', rest', head', tail', rfl⟩ := run_cons_eq_some.mp reached
        obtain ⟨rfl, rfl⟩ := Prod.mk.inj (Option.some.inj (head.symm.trans head'))
        rw [← List.append_assoc]
        exact (ih next later tail).mpr remaining front u rest' shorter tail'

/-- The same rule for a property of the state alone. -/
theorem run_keeps_iff {P : S → Prop}
    (exact : ∀ {s l t es}, P s → step s l = some (t, es) → (P t ↔ ok s l))
    (initial : P s) (path : run step s ls = some (t, es)) :
    (∀ front u fs, front <+: ls → run step s front = some (u, fs) → P u) ↔ Along step ok s ls := by
  have always : ∀ l ∈ ls, (fun _ : L => True) l := fun _ _ => trivial
  exact @run_exact S L E step ok [] s ls t es (fun _ s => P s) _ (fun held _ next =>
    exact held next)
    initial always path

/-- For a property of single reports: every report of a run has it exactly when
every step meets the condition under which its own reports do. -/
theorem run_reports_iff {P : S → Prop} {Q : E → Prop} {allowed : L → Prop}
    (keeps : ∀ {s l t es}, P s → allowed l → ok s l → step s l = some (t, es) → P t)
    (exact : ∀ {s l t es}, P s → allowed l → step s l = some (t, es) → ((∀ e ∈ es, Q e) ↔ ok s l))
    (initial : P s) (all : ∀ l ∈ ls, allowed l) (path : run step s ls = some (t, es)) :
    (∀ e ∈ es, Q e) ↔ Along step ok s ls := by
  induction ls generalizing s es with
  | nil =>
    obtain ⟨rfl, rfl⟩ := run_nil_eq_some.mp path
    exact iff_of_true nofun trivial
  | cons l ls ih =>
    obtain ⟨middle, first, rest, head, tail, rfl⟩ := run_cons_eq_some.mp path
    have here := all l List.mem_cons_self
    have later : ∀ k ∈ ls, allowed k := fun k member => all k (List.mem_cons_of_mem l member)
    simp only [along_cons head, List.mem_append, or_imp, forall_and, exact initial here head]
    exact and_congr_right fun admitted => ih (keeps initial here admitted head) later tail

/-- The rule for conditions on the history. -/
theorem run_history {ok : List E → S → L → Prop} {P : List E → S → Prop} {allowed : L → Prop}
    (keeps : ∀ {before s l t es}, P before s → allowed l → ok before s l →
      step s l = some (t, es) → P (before ++ es) t)
    (initial : P before s) (all : ∀ l ∈ ls, allowed l) (meets : AlongHistory step ok before s ls)
    (path : run step s ls = some (t, es)) : P (before ++ es) t := by
  induction ls generalizing before s es with
  | nil =>
    obtain ⟨rfl, rfl⟩ := run_nil_eq_some.mp path
    simpa only [List.append_nil] using initial
  | cons l ls ih =>
    obtain ⟨middle, first, rest, head, tail, rfl⟩ := run_cons_eq_some.mp path
    obtain ⟨admitted, remaining⟩ := meets
    rw [head] at remaining
    have next := keeps initial (all l List.mem_cons_self) admitted head
    have kept := ih next (fun k member => all k (List.mem_cons_of_mem l member)) remaining tail
    simpa only [List.append_assoc] using kept

/-- A concrete machine simulates an abstract one when every concrete step is
matched by an abstract run that reports the observable part of its events. -/
def Simulates (step : S → L → Option (S × List E)) (ok : S → L → Prop)
    (astep : A → K → Option (A × List F)) (allowed : K → Prop) (observe : E → Option F)
    (R : S → A → Prop) : Prop :=
  ∀ s a l t es, R s a → ok s l → step s l = some (t, es) →
    ∃ ks b, (∀ k ∈ ks, allowed k) ∧ run astep a ks = some (b, es.filterMap observe) ∧ R t b

theorem Simulates.run {astep : A → K → Option (A × List F)} {allowed : K → Prop}
    {observe : E → Option F} {R : S → A → Prop}
    (simulates : Simulates step ok astep allowed observe R)
    (related : R s a) (meets : Along step ok s ls) (path : run step s ls = some (t, es)) :
    ∃ ks b, (∀ k ∈ ks, allowed k) ∧ Transition.run astep a ks = some (b, es.filterMap observe) ∧
      R t b := by
  induction ls generalizing s a es with
  | nil =>
    obtain ⟨rfl, rfl⟩ := run_nil_eq_some.mp path
    exact ⟨[], a, by simp, rfl, related⟩
  | cons l ls ih =>
    obtain ⟨middle, first, rest, head, tail, rfl⟩ := run_cons_eq_some.mp path
    obtain ⟨admitted, remaining⟩ := (along_cons head).mp meets
    obtain ⟨ks, b, permitted, matched, next⟩ := simulates s a l middle first related admitted head
    obtain ⟨more, c, permitted', matched', final⟩ := ih next remaining tail
    refine ⟨ks ++ more, c, ?_, ?_, final⟩
    · intro k member
      rcases List.mem_append.mp member with member | member
      · exact permitted k member
      · exact permitted' k member
    · rw [List.filterMap_append]
      exact run_append matched matched'

/-- An abstraction that each step from a state of the invariant commutes with
commutes with whole runs. -/
theorem run_commutes {inv : S → Prop} {astep : A → L → Option (A × List E)} {abs : S → A}
    (commutes : ∀ {s l}, inv s → (step s l).map (Prod.map abs id) = astep (abs s) l)
    (keeps : ∀ {s l t es}, inv s → step s l = some (t, es) → inv t) (held : inv s) (ls : List L) :
    (run step s ls).map (Prod.map abs id) = run astep (abs s) ls := by
  induction ls generalizing s with
  | nil => rfl
  | cons l ls ih =>
    rw [run, run, ← commutes held]
    cases stepped : step s l with
    | none => rfl
    | some next =>
      rw [Option.map_some, Option.bind_some, Option.bind_some, Prod.map_fst, Prod.map_snd,
        ← ih (keeps held stepped), Option.map_map, Option.map_map]
      rfl

end IdtNtb.Transition
