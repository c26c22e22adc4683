import Mathlib.Data.List.Basic

/-!
# Operations with results

A system whose operations return results is a step function `step : σ → α → Option (σ × ρ)`; `none` says
that the operation goes wrong. `outputs` takes the operations one after the other and collects the results.
One system simulates another when their states stay related and the results are the same; `outputs_of_simulation`
lifts that from one operation to all sequences of them.
-/

namespace ProgrammingPath.Lib

variable {σ τ α ρ : Type}

/-- The state after the operations, and their results. -/
def outputs (step : σ → α → Option (σ × ρ)) : σ → List α → Option (σ × List ρ)
  | s, [] => some (s, [])
  | s, a :: as =>
    match step s a with
    | none => none
    | some (s', r) => (outputs step s' as).map fun (t, rs) => (t, r :: rs)

variable {step : σ → α → Option (σ × ρ)} {step' : τ → α → Option (τ × ρ)}

theorem outputs_cons_eq_some {s t : σ} {a : α} {as : List α} {out : List ρ} :
    outputs step s (a :: as) = some (t, out) ↔
      ∃ s' r rs, step s a = some (s', r) ∧ outputs step s' as = some (t, rs) ∧ out = r :: rs := by
  rw [outputs]
  cases hs : step s a with
  | none => simp
  | some p =>
    obtain ⟨s', r⟩ := p
    simp only [Option.map_eq_some_iff, Prod.exists, Prod.mk.injEq, Option.some.injEq]
    constructor
    · rintro ⟨t', rs, hrs, rfl, rfl⟩
      exact ⟨s', r, rs, ⟨rfl, rfl⟩, hrs, rfl⟩
    · rintro ⟨_, _, rs, ⟨rfl, rfl⟩, hrs, rfl⟩
      exact ⟨t, rs, hrs, rfl, rfl⟩

/-- **The simulation rule.** What the specification returns, the program returns. -/
theorem outputs_of_simulation {R : σ → τ → Prop}
    (hsim : ∀ s t a t' r, R s t → step' t a = some (t', r) → ∃ s', step s a = some (s', r) ∧ R s' t')
    {s : σ} {t t' : τ} {as : List α} {out : List ρ} (hR : R s t)
    (hout : outputs step' t as = some (t', out)) :
    ∃ s', outputs step s as = some (s', out) ∧ R s' t' := by
  induction as generalizing s t out with
  | nil =>
    cases hout
    exact ⟨s, rfl, hR⟩
  | cons a as ih =>
    obtain ⟨t₁, r, rs, hstep, hrest, rfl⟩ := outputs_cons_eq_some.mp hout
    obtain ⟨s₁, hs₁, hR₁⟩ := hsim s t a t₁ r hR hstep
    obtain ⟨s', hs', hR'⟩ := ih hR₁ hrest
    exact ⟨s', outputs_cons_eq_some.mpr ⟨s₁, r, rs, hs₁, hs', rfl⟩, hR'⟩

/-- When the specification always goes on, so does the program. -/
theorem outputs_of_total_simulation {R : σ → τ → Prop}
    (hsim : ∀ s t a, R s t → ∃ s' t' r, step s a = some (s', r) ∧ step' t a = some (t', r) ∧ R s' t')
    {s : σ} {t : τ} (as : List α) (hR : R s t) :
    ∃ s' t' out, outputs step s as = some (s', out) ∧ outputs step' t as = some (t', out) ∧
      R s' t' := by
  induction as generalizing s t with
  | nil => exact ⟨s, t, [], rfl, rfl, hR⟩
  | cons a as ih =>
    obtain ⟨s₁, t₁, r, hs₁, ht₁, hR₁⟩ := hsim s t a hR
    obtain ⟨s', t', rs, hs', ht', hR'⟩ := ih hR₁
    exact ⟨s', t', r :: rs, outputs_cons_eq_some.mpr ⟨s₁, r, rs, hs₁, hs', rfl⟩,
      outputs_cons_eq_some.mpr ⟨t₁, r, rs, ht₁, ht', rfl⟩, hR'⟩

end ProgrammingPath.Lib
