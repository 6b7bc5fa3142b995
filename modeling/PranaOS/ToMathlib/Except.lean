import Mathlib.Tactic

/-!
# Postconditions of computations that can fail

A computation in `Except ε` ends with a result or with an error. `Except.Ensures bad post x` says that
`x` does not end with an error in `bad`, and that its result satisfies `post` if it has one. The
rules follow the way computations are put together.

* `Ensures.bind`, `Ensures.mono`, `ensures_require`: sequencing and assertions.
* `Ensures.foldlM`: a loop over a list.
* `Except.forRange`: a counting loop that its body can leave early, and `Ensures.forRange`, the
  rule for it.
-/

namespace Except

open List

variable {ε α β σ : Type} {bad : ε → Prop} {post : α → Prop}

/-- The computation does not fail with an error in `bad`, and its result satisfies `post`. -/
def Ensures (bad : ε → Prop) (post : α → Prop) : Except ε α → Prop
  | .ok a => post a
  | .error e => ¬bad e

variable {a : α} {e : ε} {x : Except ε α} {body : σ → ℕ → Except ε (Bool × σ)} {i : ℕ}

theorem Ensures.mono {post' : α → Prop} (h : Ensures bad post x) (hpost : ∀ a, post a → post' a) :
    Ensures bad post' x := by
  cases x with
  | ok a => exact hpost a h
  | error e => exact h

/-- Fewer errors are excluded. -/
theorem Ensures.anti {bad' : ε → Prop} (h : Ensures bad post x) (hbad : ∀ e, bad' e → bad e) :
    Ensures bad' post x := by
  cases x with
  | ok a => exact h
  | error e => exact fun he => h (hbad e he)

/-- What follows a computation can rely on its postcondition. -/
theorem Ensures.bind {post' : β → Prop} {f : α → Except ε β} (h : Ensures bad post x)
    (hf : ∀ a, post a → Ensures bad post' (f a)) :
    Ensures bad post' (x >>= f) := by
  cases x with
  | ok a => exact hf a h
  | error e => exact h

theorem Ensures.of_ok (h : Ensures bad post x) (hx : x = .ok a) :
    post a := by
  subst hx
  exact h

theorem Ensures.not_bad (h : Ensures bad post x) (hx : x = .error e) :
    ¬bad e := by
  subst hx
  exact h

/-- A computation that cannot fail succeeds. -/
theorem Ensures.exists_ok (h : Ensures bad post x) (hbad : ∀ e, bad e) :
    ∃ a, x = .ok a ∧ post a := by
  cases x with
  | ok a => exact ⟨a, rfl, h⟩
  | error e => exact absurd (hbad e) h

/-- A sequence succeeds if both of its parts do. -/
theorem bind_eq_ok {f : α → Except ε β} {b : β} :
    (x >>= f) = .ok b ↔ ∃ a, x = .ok a ∧ f a = .ok b := by
  cases x with
  | ok a =>
    refine ⟨fun h => ⟨a, rfl, h⟩, ?_⟩
    rintro ⟨_, ha, h⟩
    exact Except.ok.inj ha ▸ h
  | error e =>
    constructor
    · intro h
      cases h
    · rintro ⟨_, ha, -⟩
      cases ha

/-! ## Assertions and options -/

/-- An assertion that fails with the error `e`. -/
def require (condition : Prop) [Decidable condition] (e : ε) : Except ε Unit :=
  if condition then .ok () else .error e

theorem ensures_require {condition : Prop} [Decidable condition] (h : ¬condition → ¬bad e) :
    Ensures bad (fun _ => condition) (require condition e) := by
  unfold require
  split
  next hcondition => exact hcondition
  next hcondition => exact h hcondition

@[simp]
theorem require_eq_ok {condition : Prop} [Decidable condition] {u : Unit} :
    require condition e = .ok u ↔ condition := by
  unfold require
  split <;> simp_all

/-- The value of an option, or the error `e`. -/
def ofOption (e : ε) : Option α → Except ε α
  | some a => .ok a
  | none => .error e

theorem ensures_ofOption {o : Option α} (h : ¬bad e) :
    Ensures bad (fun a => o = some a) (ofOption e o) := by
  cases o with
  | none => exact h
  | some a => exact rfl

/-! ## Loops over a list -/

/-- The rule for a loop over a list. `I front` holds when the entries `front` have been dealt with. -/
theorem Ensures.foldlM {f : β → α → Except ε β} {I : List α → β → Prop} {l : List α} {b : β}
    (hstep : ∀ front a back b, l = front ++ a :: back → I front b →
      Ensures bad (I (front ++ [a])) (f b a)) (hinit : I [] b) :
    Ensures bad (I l) (l.foldlM f b) := by
  have hloop (back front : List α) (b : β) (hl : l = front ++ back) (hb : I front b) :
      Ensures bad (I l) (back.foldlM f b) := by
    induction back generalizing front b with
    | nil =>
      rw [append_nil] at hl
      exact hl ▸ hb
    | cons a back ih =>
      exact (hstep front a back b hl hb).bind fun b' hb' =>
        ih (front ++ [a]) b' (by rw [hl, append_assoc, singleton_append]) hb'
  exact hloop l [] b rfl hinit

/-! ## Counting loops -/

/-- The loop `for (i = start; n steps; i++)`. The body returns whether the loop goes on, and so does the
loop. -/
def forRange (body : σ → ℕ → Except ε (Bool × σ)) : ℕ → ℕ → σ → Except ε (Bool × σ)
  | 0, _, s => .ok (true, s)
  | n + 1, i, s => do
    let (go, s) ← body s i
    if go then forRange body n (i + 1) s else .ok (false, s)

/-- The rule for loops. `I j` holds before the body is run for `j`, and `J` when it leaves the loop. -/
theorem Ensures.forRange {I : ℕ → σ → Prop} {J : σ → Prop}
    {n : ℕ} {s : σ}
    (hbody : ∀ s j, j < i + n → I j s →
      Ensures bad (fun r => if r.1 then I (j + 1) r.2 else J r.2) (body s j))
    (hs : I i s) :
    Ensures bad (fun r => if r.1 then I (i + n) r.2 else J r.2) (forRange body n i s) := by
  induction n generalizing i s with
  | zero => exact hs
  | succ n ih =>
    refine (hbody s i (by omega) hs).bind ?_
    rintro ⟨go, s'⟩ hs'
    cases go with
    | true =>
      have hrest := ih (fun s j hj => hbody s j (by omega)) hs'
      rwa [Nat.add_right_comm] at hrest
    | false => exact hs'

/-- An invariant that the body keeps is kept by the loop. -/
theorem Ensures.forRange_invariant {I : σ → Prop} {n : ℕ} {s : σ}
    (hbody : ∀ s j, I s → Ensures bad (fun r => I r.2) (body s j)) (hs : I s) :
    Ensures bad (fun r => I r.2) (Except.forRange body n i s) := by
  have hloop := Ensures.forRange (I := fun _ => I) (J := I) (n := n) (i := i)
    (fun s j _ hs => (hbody s j hs).mono fun r hr => by split <;> exact hr) hs
  refine hloop.mono fun r hr => ?_
  split at hr <;> exact hr

/-- A loop over the entries of a list that passes `out j b` to `f` for each entry `b` with index `j`. It can
be left early only if there is nothing to pass at all. -/
theorem forRange_foldl {entries : List β} (f : σ → α → σ) (out : ℕ → β → List α) (stopped : Prop) (s : σ)
    (hbody : ∀ s j b, entries[j]? = some b →
      ∃ go, body s (i + j) = .ok (go, (out (i + j) b).foldl f s) ∧ (go = false → stopped))
    (hstopped : stopped → ∀ entry ∈ entries.zipIdx i, out entry.2 entry.1 = []) :
    ∃ go, Except.forRange body entries.length i s =
        .ok (go, ((entries.zipIdx i).flatMap fun entry => out entry.2 entry.1).foldl f s) ∧
      (go = false → stopped) := by
  induction entries generalizing i s with
  | nil => exact ⟨true, by simp [Except.forRange], by simp⟩
  | cons b entries ih =>
    obtain ⟨go, hstep, hgo⟩ := hbody s 0 b rfl
    have hrest := fun h entry hentry => hstopped h entry (by
      exact mem_cons_of_mem _ hentry)
    rw [Nat.add_zero] at hstep
    rw [zipIdx_cons, flatMap_cons, foldl_append, length_cons, Except.forRange, hstep]
    cases go with
    | true =>
      exact ih (i := i + 1) ((out i b).foldl f s) (fun s j b hj => by
        rw [Nat.add_assoc, Nat.add_comm 1 j]
        exact hbody s (j + 1) b hj) hrest
    | false =>
      refine ⟨false, ?_, hgo⟩
      rw [flatMap_eq_nil_iff.mpr (hrest (hgo rfl))]
      rfl

end Except
