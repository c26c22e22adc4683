import Mathlib.Data.List.Basic

/-!
# Runs of a step function

A system is a step function `step : σ → α → Option σ`; `none` says that the action cannot be taken
in that state. A run is a list of actions. `Meets step ok s acts` says that every action of the run
meets the condition `ok` in the state it is taken in, and `run_invariant` is the one induction on
which every statement about whole runs rests: what holds at the start, and is kept by every step
that meets the condition, holds wherever such a run ends.
-/

namespace ProgrammingPath.Lib

variable {σ α : Type} {step : σ → α → Option σ} {ok : σ → α → Prop}

/-- Take the actions one after the other. -/
def run (step : σ → α → Option σ) : σ → List α → Option σ
  | s, [] => some s
  | s, a :: as => (step s a).bind fun s' => run step s' as

/-- Every action of the run meets `ok` in the state it is taken in. -/
def Meets (step : σ → α → Option σ) (ok : σ → α → Prop) : σ → List α → Prop
  | _, [] => True
  | s, a :: as => ok s a ∧
    match step s a with
    | some s' => Meets step ok s' as
    | none => True

instance Meets.decidable [∀ s a, Decidable (ok s a)] :
    ∀ (s : σ) (acts : List α), Decidable (Meets step ok s acts)
  | _, [] => inferInstanceAs (Decidable True)
  | s, a :: as =>
    match h : step s a with
    | some s' =>
      match Meets.decidable s' as with
      | .isTrue hr =>
        decidable_of_iff (ok s a) (by rw [Meets, h]; exact ⟨fun ho => ⟨ho, hr⟩, And.left⟩)
      | .isFalse hr => .isFalse (by rw [Meets, h]; exact fun hm => hr hm.2)
    | none => decidable_of_iff (ok s a) (by rw [Meets, h]; exact ⟨fun ho => ⟨ho, trivial⟩, And.left⟩)

theorem run_cons (s : σ) (a : α) (as : List α) :
    run step s (a :: as) = (step s a).bind fun s' => run step s' as := rfl

theorem run_cons_eq_some {s t : σ} {a : α} {as : List α} :
    run step s (a :: as) = some t ↔ ∃ s', step s a = some s' ∧ run step s' as = some t := by
  rw [run_cons, Option.bind_eq_some_iff]

theorem run_append (s : σ) (as bs : List α) :
    run step s (as ++ bs) = (run step s as).bind fun m => run step m bs := by
  induction as generalizing s with
  | nil => rfl
  | cons a as ih =>
    rw [List.cons_append, run_cons, run_cons, Option.bind_assoc]
    exact congrArg _ (funext ih)

theorem run_append_eq_some {s t : σ} {as bs : List α} :
    run step s (as ++ bs) = some t ↔ ∃ m, run step s as = some m ∧ run step m bs = some t := by
  rw [run_append, Option.bind_eq_some_iff]

theorem run_concat_eq_some {s t : σ} {as : List α} {a : α} :
    run step s (as ++ [a]) = some t ↔ ∃ m, run step s as = some m ∧ step m a = some t := by
  rw [run_append_eq_some]
  simp [run]

theorem Meets.head {s : σ} {a : α} {as : List α} (h : Meets step ok s (a :: as)) : ok s a := h.1

theorem Meets.tail {s s' : σ} {a : α} {as : List α} (h : Meets step ok s (a :: as))
    (hs : step s a = some s') : Meets step ok s' as := by
  have := h.2
  rwa [hs] at this

theorem Meets.single {s : σ} {a : α} (h : ok s a) : Meets step ok s [a] := by
  refine ⟨h, ?_⟩
  split
  · trivial
  · trivial

/-- A condition that always holds is met. -/
theorem Meets.of_forall (h : ∀ s a, ok s a) (s : σ) (acts : List α) : Meets step ok s acts := by
  induction acts generalizing s with
  | nil => trivial
  | cons a as ih =>
    refine ⟨h s a, ?_⟩
    split
    · exact ih _
    · trivial

/-- A run that can be taken meets what every step that can be taken meets. -/
theorem Meets.of_run (h : ∀ s a s', step s a = some s' → ok s a) {s t : σ} {acts : List α}
    (hrun : run step s acts = some t) : Meets step ok s acts := by
  induction acts generalizing s with
  | nil => trivial
  | cons a as ih =>
    obtain ⟨s', hs, hr⟩ := run_cons_eq_some.mp hrun
    refine ⟨h s a s' hs, ?_⟩
    rw [hs]
    exact ih hr

/-- A run that meets two conditions meets both at once. -/
theorem Meets.and {ok' : σ → α → Prop} {s : σ} {acts : List α} (h : Meets step ok s acts)
    (h' : Meets step ok' s acts) : Meets step (fun s a => ok s a ∧ ok' s a) s acts := by
  induction acts generalizing s with
  | nil => trivial
  | cons a as ih =>
    refine ⟨⟨h.head, h'.head⟩, ?_⟩
    split
    · next s' hs => exact ih (h.tail hs) (h'.tail hs)
    · trivial

/-- A run that meets a condition meets it on each of its two parts. -/
theorem Meets.append {s m : σ} {as bs : List α} (h : Meets step ok s (as ++ bs))
    (hm : run step s as = some m) : Meets step ok s as ∧ Meets step ok m bs := by
  induction as generalizing s with
  | nil =>
    cases hm
    exact ⟨trivial, h⟩
  | cons a as ih =>
    obtain ⟨s', hs, hr⟩ := run_cons_eq_some.mp hm
    obtain ⟨h1, h2⟩ := ih (Meets.tail h hs) hr
    refine ⟨⟨h.head, ?_⟩, h2⟩
    rw [hs]
    exact h1

/-- Two runs that meet a condition make one. -/
theorem Meets.glue {s m : σ} {as bs : List α} (has : Meets step ok s as)
    (hm : run step s as = some m) (hbs : Meets step ok m bs) : Meets step ok s (as ++ bs) := by
  induction as generalizing s with
  | nil =>
    cases hm
    exact hbs
  | cons a as ih =>
    obtain ⟨s', hs, hr⟩ := run_cons_eq_some.mp hm
    refine ⟨has.head, ?_⟩
    rw [hs]
    exact ih (has.tail hs) hr

/-- If the condition is that an action can be taken, the run can be taken if and only if it meets it. -/
theorem run_isSome_iff (hstep : ∀ s a, (step s a).isSome ↔ ok s a) (s : σ) (acts : List α) :
    (run step s acts).isSome ↔ Meets step ok s acts := by
  induction acts generalizing s with
  | nil => exact iff_of_true rfl trivial
  | cons a as ih =>
    rw [run_cons, Meets, ← hstep]
    cases step s a with
    | none => exact iff_of_false Bool.false_ne_true fun h => Bool.false_ne_true h.1
    | some s' => exact (ih s').trans ⟨fun h => ⟨rfl, h⟩, And.right⟩

/-- What every step of a fold leaves alone, the fold leaves alone. -/
theorem foldl_frame {β γ : Type} {f : β → α → β} (g : β → γ) (hf : ∀ b a, g (f b a) = g b)
    (l : List α) (b : β) : g (l.foldl f b) = g b := by
  induction l generalizing b with
  | nil => rfl
  | cons a l ih => rw [List.foldl_cons, ih, hf]

/-- **The invariant rule.** -/
theorem run_invariant {Inv : σ → Prop}
    (hstep : ∀ s a s', Inv s → ok s a → step s a = some s' → Inv s')
    {s t : σ} {acts : List α} (hinit : Inv s) (hok : Meets step ok s acts)
    (hrun : run step s acts = some t) : Inv t := by
  induction acts generalizing s with
  | nil =>
    cases hrun
    exact hinit
  | cons a as ih =>
    obtain ⟨s', hs, hr⟩ := run_cons_eq_some.mp hrun
    exact ih (hstep s a s' hinit hok.head hs) (hok.tail hs) hr

/-- The invariant rule for a run that can be taken because it meets the condition. -/
theorem run_of_meets {Inv : σ → Prop}
    (hstep : ∀ s a, Inv s → ok s a → ∃ s', step s a = some s' ∧ Inv s') {s : σ} {acts : List α}
    (hinit : Inv s) (hok : Meets step ok s acts) : ∃ t, run step s acts = some t ∧ Inv t := by
  induction acts generalizing s with
  | nil => exact ⟨s, rfl, hinit⟩
  | cons a as ih =>
    obtain ⟨s', hs, hs'⟩ := hstep s a hinit hok.head
    obtain ⟨t, ht, hinv⟩ := ih hs' (hok.tail hs)
    exact ⟨t, run_cons_eq_some.mpr ⟨s', hs, ht⟩, hinv⟩

/-- The invariant rule for a system whose actions can always be taken while the invariant holds. -/
theorem run_total {Inv : σ → Prop} (hstep : ∀ s a, Inv s → ∃ s', step s a = some s' ∧ Inv s')
    {s : σ} (hinit : Inv s) (acts : List α) : ∃ t, run step s acts = some t ∧ Inv t := by
  induction acts generalizing s with
  | nil => exact ⟨s, rfl, hinit⟩
  | cons a as ih =>
    obtain ⟨s', hs, hs'⟩ := hstep s a hinit
    obtain ⟨t, ht, hinv⟩ := ih hs'
    exact ⟨t, run_cons_eq_some.mpr ⟨s', hs, ht⟩, hinv⟩

/-- For a system that can always go on: if a step keeps the invariant exactly when it meets the condition, the
invariant holds all along a run exactly when the run meets it. -/
theorem forall_prefix_iff_meets {Inv : σ → Prop}
    (hstep : ∀ s a, Inv s → ∃ s', step s a = some s' ∧ (Inv s' ↔ ok s a)) {s : σ} (hinit : Inv s)
    (acts : List α) :
    (∀ as bs t, acts = as ++ bs → run step s as = some t → Inv t) ↔ Meets step ok s acts := by
  induction acts generalizing s with
  | nil =>
    refine ⟨fun _ => trivial, fun _ as bs t happ hrun => ?_⟩
    obtain ⟨rfl, -⟩ := List.append_eq_nil_iff.mp happ.symm
    cases hrun
    exact hinit
  | cons a acts ih =>
    obtain ⟨s', hs, hiff⟩ := hstep s a hinit
    constructor
    · intro hall
      have hs' : Inv s' := hall [a] acts s' rfl (run_cons_eq_some.mpr ⟨s', hs, rfl⟩)
      refine ⟨hiff.mp hs', ?_⟩
      rw [hs]
      apply (ih hs').mp
      intro as bs t happ hrun
      exact hall (a :: as) bs t (by rw [happ, List.cons_append]) (run_cons_eq_some.mpr ⟨s', hs, hrun⟩)
    · intro hmeets as bs t happ hrun
      cases as with
      | nil =>
        cases hrun
        exact hinit
      | cons b as =>
        rw [List.cons_append, List.cons.injEq] at happ
        obtain ⟨rfl, rfl⟩ := happ
        obtain ⟨s'', hs'', hr⟩ := run_cons_eq_some.mp hrun
        cases hs.symm.trans hs''
        exact (ih (hiff.mpr hmeets.head)).mpr (hmeets.tail hs) as bs t rfl hr

/-- For a run of allowed actions that can be taken: if, while the invariant holds, the steps that meet the condition
keep it, and no other step leads to a good state, the states all along the run are good exactly when the run meets
it. -/
theorem good_iff_meets_of_allowed {Inv Good : σ → Prop} {allowed : σ → α → Prop} (hgood : ∀ s, Inv s → Good s)
    (hstep : ∀ s a s', Inv s → allowed s a → step s a = some s' → (ok s a → Inv s') ∧ (Good s' → ok s a))
    {s t : σ} (hinit : Inv s) {acts : List α} (hallowed : Meets step allowed s acts)
    (hrun : run step s acts = some t) :
    (∀ as bs m, acts = as ++ bs → run step s as = some m → Good m) ↔ Meets step ok s acts := by
  induction acts generalizing s with
  | nil =>
    refine ⟨fun _ => trivial, fun _ as bs m happ has => ?_⟩
    obtain ⟨rfl, -⟩ := List.append_eq_nil_iff.mp happ.symm
    cases has
    exact hgood s hinit
  | cons a acts ih =>
    obtain ⟨s', hs, hr⟩ := run_cons_eq_some.mp hrun
    obtain ⟨hkeep, honly⟩ := hstep s a s' hinit hallowed.head hs
    have hallowed' : Meets step allowed s' acts := hallowed.tail hs
    constructor
    · intro hall
      have hok : ok s a := honly (hall [a] acts s' rfl (run_cons_eq_some.mpr ⟨s', hs, rfl⟩))
      refine ⟨hok, ?_⟩
      rw [hs]
      apply (ih (hkeep hok) hallowed' hr).mp
      intro as bs m happ has
      exact hall (a :: as) bs m (by rw [happ, List.cons_append]) (run_cons_eq_some.mpr ⟨s', hs, has⟩)
    · intro hmeets as bs m happ has
      cases as with
      | nil =>
        cases has
        exact hgood s hinit
      | cons b as =>
        rw [List.cons_append, List.cons.injEq] at happ
        obtain ⟨rfl, rfl⟩ := happ
        obtain ⟨s'', hs'', hrest⟩ := run_cons_eq_some.mp has
        cases hs.symm.trans hs''
        exact (ih (hkeep hmeets.head) hallowed' hr).mpr (hmeets.tail hs) as bs m rfl hrest

/-- The same where every action is allowed. -/
theorem good_iff_meets {Inv Good : σ → Prop} (hgood : ∀ s, Inv s → Good s)
    (hstep : ∀ s a s', Inv s → step s a = some s' → (ok s a → Inv s') ∧ (Good s' → ok s a)) {s t : σ}
    (hinit : Inv s) {acts : List α} (hrun : run step s acts = some t) :
    (∀ as bs m, acts = as ++ bs → run step s as = some m → Good m) ↔ Meets step ok s acts := by
  have hall : Meets step (fun _ _ => True) s acts := Meets.of_forall (fun _ _ => trivial) s acts
  exact good_iff_meets_of_allowed hgood (fun s a s' hinv _ hs => hstep s a s' hinv hs) hinit hall hrun

end ProgrammingPath.Lib
