import Mathlib.Data.List.Basic

/-!
# Runs of a partial step function

A component is given by a step function `step : σ → α → Option σ` on states `σ` and operations
`α`, where `none` means that the operation does not complete (a failed assertion, or a loop that
never ends). This module gives the runs of such a function and the rule by which an invariant of
one step becomes an invariant of whole runs.

* `Transition.run step s as`: the state after the operations `as`, if all of them complete.
* `Transition.Meets step ok s as`: every operation of `as` meets the condition `ok` in the state
  in which it is issued.
* `Transition.run_induction`, `exists_run`, `forall_prefix_iff_meets`: the rules for runs, and
  `safe_of_meets`, `safe_iff_meets` for those that need not complete.
-/

namespace Transition

open Option List

variable {σ α : Type*}

/-- The state reached from `s` by the operations `as`, or `none` if one of them does not
complete. -/
def run (step : σ → α → Option σ) : σ → List α → Option σ
  | s, [] => some s
  | s, a :: as =>
    match step s a with
    | none => none
    | some s' => run step s' as

/-- Every operation of the run meets `ok` in the state before it. Operations after one that does
not complete are not constrained. -/
def Meets (step : σ → α → Option σ) (ok : σ → α → Prop) : σ → List α → Prop
  | _, [] => True
  | s, a :: as => ok s a ∧ ∀ s', step s a = some s' → Meets step ok s' as

variable {step : σ → α → Option σ} {ok : σ → α → Prop} {s s' : σ} {a : α} {as bs : List α}

@[simp]
theorem run_nil : run step s [] = some s := rfl

/-- A run of `a :: as` is a step followed by a run of `as`. -/
theorem run_cons_eq_some :
    run step s (a :: as) = some s' ↔ ∃ t, step s a = some t ∧ run step t as = some s' := by
  rw [run]
  cases step s a <;> simp

/-- A run of `as ++ bs` is a run of `as` followed by a run of `bs`. -/
theorem run_append_eq_some :
    run step s (as ++ bs) = some s' ↔ ∃ t, run step s as = some t ∧ run step t bs = some s' := by
  induction as generalizing s with
  | nil => simp
  | cons a as ih =>
    simp only [cons_append, run_cons_eq_some, ih]
    constructor
    · rintro ⟨t, hstep, u, hu, hrun⟩
      exact ⟨u, ⟨t, hstep, hu⟩, hrun⟩
    · rintro ⟨u, ⟨t, hstep, hu⟩, hrun⟩
      exact ⟨t, hstep, u, hu, hrun⟩

@[simp]
theorem meets_nil : Meets step ok s [] := trivial

/-- The conditions of a run `a :: as` whose first step completes. -/
theorem meets_cons (hstep : step s a = some s') :
    Meets step ok s (a :: as) ↔ ok s a ∧ Meets step ok s' as := by
  simp [Meets, hstep]

/-- A condition on the operations alone. -/
theorem meets_of_forall (h : ∀ a ∈ as, ∀ s, ok s a) : Meets step ok s as := by
  induction as generalizing s with
  | nil => exact meets_nil
  | cons a as ih =>
    exact ⟨h a mem_cons_self s, fun t _ => ih fun b hb => h b (mem_cons_of_mem a hb)⟩

/-- A condition that every step that completes meets. -/
theorem meets_of_run (h : ∀ s a s', step s a = some s' → ok s a) (hrun : run step s as = some s') :
    Meets step ok s as := by
  induction as generalizing s with
  | nil => exact meets_nil
  | cons a as ih =>
    obtain ⟨t, hstep, hrun⟩ := run_cons_eq_some.mp hrun
    exact (meets_cons hstep).mpr ⟨h s a t hstep, ih hrun⟩

/-- Steps that meet a condition meet every weaker one. -/
theorem Meets.imp {ok' : σ → α → Prop} (h : Meets step ok s as) (himp : ∀ s a, ok s a → ok' s a) :
    Meets step ok' s as := by
  induction as generalizing s with
  | nil => exact meets_nil
  | cons a as ih => exact ⟨himp s a h.1, fun t ht => ih (h.2 t ht)⟩

/-- The first steps of a run meet what all its steps meet. -/
theorem Meets.left (h : Meets step ok s (as ++ bs)) : Meets step ok s as := by
  induction as generalizing s with
  | nil => exact meets_nil
  | cons a as ih => exact ⟨h.1, fun t ht => ih (h.2 t ht)⟩

/-- The conditions of a run can be evaluated along the run. -/
instance decidableMeets [∀ s a, Decidable (ok s a)] (s : σ) :
    (as : List α) → Decidable (Meets step ok s as)
  | [] => isTrue trivial
  | a :: as =>
    match hstep : step s a with
    | none => decidable_of_iff (ok s a)
      ⟨fun ha => ⟨ha, fun s' h => absurd (hstep.symm.trans h) (by simp)⟩, And.left⟩
    | some s' =>
      have := decidableMeets s' as
      decidable_of_iff (ok s a ∧ Meets step ok s' as) (meets_cons hstep).symm

/-- **Invariant rule.** If every step that meets `ok` keeps `I`, then `I` holds at the end of
every run from an `I`-state whose steps all meet `ok`. -/
theorem run_induction {I : σ → Prop}
    (hkeep : ∀ s a s', I s → ok s a → step s a = some s' → I s')
    (hinit : I s) (hok : Meets step ok s as) (hrun : run step s as = some s') : I s' := by
  induction as generalizing s with
  | nil =>
    rw [run_nil, some.injEq] at hrun
    exact hrun ▸ hinit
  | cons a as ih =>
    obtain ⟨t, hstep, hrun⟩ := run_cons_eq_some.mp hrun
    obtain ⟨ha, has⟩ := (meets_cons hstep).mp hok
    exact ih (hkeep _ _ _ hinit ha hstep) has hrun

/-- The invariant rule for steps that keep `I` without a condition. -/
theorem run_invariant {I : σ → Prop} (hkeep : ∀ s a s', I s → step s a = some s' → I s')
    (hinit : I s) (hrun : run step s as = some s') : I s' := by
  have hok : Meets step (fun _ _ => True) s as := meets_of_forall fun _ _ _ => trivial
  exact run_induction (fun s a s' hI _ => hkeep s a s' hI) hinit hok hrun

/-- **Completion rule.** If every step that meets `ok` in an `I`-state completes and keeps `I`, then
every run whose steps all meet `ok` completes. -/
theorem exists_run {I : σ → Prop}
    (hkeep : ∀ s a s', I s → ok s a → step s a = some s' → I s')
    (hcomplete : ∀ s, ∀ a ∈ as, I s → ok s a → ∃ s', step s a = some s')
    (hinit : I s) (hok : Meets step ok s as) : ∃ s', run step s as = some s' := by
  induction as generalizing s with
  | nil => exact ⟨s, run_nil⟩
  | cons a as ih =>
    obtain ⟨t, hstep⟩ := hcomplete s a mem_cons_self hinit hok.1
    obtain ⟨ha, has⟩ := (meets_cons hstep).mp hok
    obtain ⟨s', hrun⟩ := ih (fun s b hb => hcomplete s b (mem_cons_of_mem a hb))
      (hkeep s a t hinit ha hstep) has
    exact ⟨s', run_cons_eq_some.mpr ⟨t, hstep, hrun⟩⟩

/-- **Exactness rule.** Let `I` be an invariant under which `ok` is exactly the condition for a step
to reach a `P`-state. Then along a run that completes, `P` holds in every state reached if and only
if all steps meet `ok`. -/
theorem forall_prefix_iff_meets {I P : σ → Prop}
    (hP : ∀ s, I s → P s)
    (hkeep : ∀ s a s', I s → ok s a → step s a = some s' → I s')
    (hexact : ∀ s a s', I s → step s a = some s' → P s' → ok s a)
    (hinit : I s) (hrun : run step s as = some s') :
    (∀ bs, bs <+: as → ∀ t, run step s bs = some t → P t) ↔ Meets step ok s as := by
  constructor
  · intro hall
    induction as generalizing s with
    | nil => exact meets_nil
    | cons a as ih =>
      obtain ⟨t, hstep, hrun⟩ := run_cons_eq_some.mp hrun
      have hone : run step s [a] = some t := run_cons_eq_some.mpr ⟨t, hstep, run_nil⟩
      have hok := hexact s a t hinit hstep (hall [a] (by simp) t hone)
      refine (meets_cons hstep).mpr ⟨hok, ih (hkeep s a t hinit hok hstep) hrun ?_⟩
      intro bs hbs u hu
      exact hall (a :: bs) (by simpa using hbs) u (run_cons_eq_some.mpr ⟨t, hstep, hu⟩)
  · intro hmeets bs hbs t ht
    induction bs generalizing s as with
    | nil =>
      rw [run_nil, some.injEq] at ht
      exact ht ▸ hP s hinit
    | cons b bs ih =>
      obtain ⟨rest, rfl, htail⟩ := cons_prefix_iff.mp hbs
      obtain ⟨u, hstep, ht⟩ := run_cons_eq_some.mp ht
      obtain ⟨u', hstep', hrun⟩ := run_cons_eq_some.mp hrun
      obtain rfl : u = u' := some.inj (hstep.symm.trans hstep')
      obtain ⟨hok, hmeets⟩ := (meets_cons hstep).mp hmeets
      exact ih (hkeep s b u hinit hok hstep) hrun hmeets htail ht

/-- All operations of `as` complete, and every state on the way satisfies `P`. -/
def Safe (step : σ → α → Option σ) (P : σ → Prop) (s : σ) (as : List α) : Prop :=
  (∃ s', run step s as = some s') ∧ ∀ bs, bs <+: as → ∀ t, run step s bs = some t → P t

/-- **Safety rule.** If every step of an `I`-state that meets `ok` completes and keeps `I`, then every
run whose steps all meet `ok` is safe. -/
theorem safe_of_meets {I P : σ → Prop} (hP : ∀ s, I s → P s)
    (hspec : ∀ s a, I s → ok s a → ∃ s', step s a = some s' ∧ I s') (hinit : I s)
    (hmeets : Meets step ok s as) : Safe step P s as := by
  have hkeep : ∀ s a s', I s → ok s a → step s a = some s' → I s' := by
    intro s a s' hI hok hstep
    obtain ⟨t, ht, hI'⟩ := hspec s a hI hok
    exact some.inj (ht.symm.trans hstep) ▸ hI'
  refine ⟨exists_run hkeep (fun s a _ hI hok => (hspec s a hI hok).imp fun _ h => h.1) hinit hmeets,
    ?_⟩
  rintro bs ⟨rest, rfl⟩ t ht
  exact hP t (run_induction hkeep hinit hmeets.left ht)

/-- **Exactness rule for runs that may get stuck.** If every step of an `I`-state completes, reaches a
`P`-state exactly if it meets `ok`, and keeps `I` then, a run is safe if and only if all its steps
meet `ok`. -/
theorem safe_iff_meets {I P : σ → Prop} (hP : ∀ s, I s → P s)
    (hspec : ∀ s a, I s → ∃ s', step s a = some s' ∧ (P s' ↔ ok s a) ∧ (ok s a → I s'))
    (hinit : I s) : Safe step P s as ↔ Meets step ok s as := by
  have hkeep : ∀ s a s', I s → ok s a → step s a = some s' → I s' := by
    intro s a s' hI hok hstep
    obtain ⟨t, ht, -, hkeep⟩ := hspec s a hI
    exact some.inj (ht.symm.trans hstep) ▸ hkeep hok
  have hexact : ∀ s a s', I s → step s a = some s' → P s' → ok s a := by
    intro s a s' hI hstep hP'
    obtain ⟨t, ht, hiff, -⟩ := hspec s a hI
    exact hiff.mp (some.inj (ht.symm.trans hstep) ▸ hP')
  constructor
  · rintro ⟨⟨s', hrun⟩, hall⟩
    exact (forall_prefix_iff_meets hP hkeep hexact hinit hrun).mp hall
  · intro hmeets
    obtain ⟨s', hrun⟩ := exists_run hkeep
      (fun s a _ hI _ => (hspec s a hI).imp fun _ h => h.1) hinit hmeets
    exact ⟨⟨s', hrun⟩, (forall_prefix_iff_meets hP hkeep hexact hinit hrun).mpr hmeets⟩

end Transition
