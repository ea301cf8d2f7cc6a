/-
# What a computation may fail with

A rule of thumb for checkers that stop at their first error: the errors of a whole are the
errors of its parts.  `Fails p x` says that `x` ends with no error outside `p`, and `FailsT p m`
says it of a computation with a state, started anywhere.  Both go through sequences and choices
without a word about what is computed.
-/
import Mathlib.Data.List.Induction

namespace Failures

variable {ε σ α β : Type} {p : ε → Prop}

/-! ## 1. Computations

The rules follow the sequence and the loop; they are not exact, as an error that a part may end
with need not occur in the whole. -/

/-- Every error of `x` is one of `p`. -/
def Fails (p : ε → Prop) (x : Except ε α) : Prop := ∀ e, x = .error e → p e

theorem Fails.ok {a : α} : Fails p (.ok a : Except ε α) := by
  intro e h
  exact absurd h (by simp)

theorem Fails.error {e : ε} (h : p e) : Fails p (.error e : Except ε α) := by
  intro e' he
  exact Except.error.inj he ▸ h

/-- One after the other: the second is only run on what the first returns. -/
theorem Fails.bind_of {x : Except ε α} {f : α → Except ε β} (hx : Fails p x)
    (hf : ∀ a, x = .ok a → Fails p (f a)) : Fails p (x >>= f) := by
  intro e he
  cases hcase : x with
  | error e' =>
    rw [hcase] at he
    exact Except.error.inj he ▸ hx e' hcase
  | ok a =>
    rw [hcase] at he
    exact hf a hcase e he

theorem Fails.bind {x : Except ε α} {f : α → Except ε β} (hx : Fails p x)
    (hf : ∀ a, Fails p (f a)) : Fails p (x >>= f) :=
  hx.bind_of (fun a _ => hf a)

theorem Fails.mapM {f : α → Except ε β} {l : List α} (h : ∀ a ∈ l, Fails p (f a)) :
    Fails p (l.mapM f) := by
  induction l with
  | nil => exact Fails.ok
  | cons a l ih =>
    rw [List.mapM_cons]
    refine (h a List.mem_cons_self).bind ?_
    intro b
    refine (ih (fun x hx => h x (List.mem_cons_of_mem a hx))).bind ?_
    intro bs
    exact Fails.ok

/-- An error of a sequence is the first's, or the second's after the first has returned. -/
theorem bind_eq_error {x : Except ε α} {f : α → Except ε β} {e : ε} :
    (x >>= f) = .error e ↔ x = .error e ∨ ∃ a, x = .ok a ∧ f a = .error e := by
  cases x with
  | error e' => simp [Bind.bind, Except.bind]
  | ok a => simp [Bind.bind, Except.bind]

theorem error_of_bind {x : Except ε α} {f : α → Except ε β} {e : ε} (h : (x >>= f) = .error e) :
    x = .error e ∨ ∃ a, x = .ok a ∧ f a = .error e := bind_eq_error.mp h

theorem bind_error_of_ok {x : Except ε α} {f : α → Except ε β} {a : α} {e : ε} (hx : x = .ok a)
    (hf : f a = .error e) : (x >>= f) = .error e := bind_eq_error.mpr (.inr ⟨a, hx, hf⟩)

/-! ## 2. Computations with a state

The same started from any state, as for a reader that may stop anywhere in its input. -/

/-- Every error of `m`, from any state, is one of `p`. -/
def FailsT (p : ε → Prop) (m : StateT σ (Except ε) α) : Prop := ∀ s, Fails p (m s)

theorem FailsT.pure {a : α} : FailsT p (pure a : StateT σ (Except ε) α) := by
  intro s
  exact Fails.ok

theorem FailsT.lift {x : Except ε α} (h : Fails p x) :
    FailsT p (StateT.lift x : StateT σ (Except ε) α) := by
  intro s
  refine h.bind ?_
  intro a
  exact Fails.ok

theorem FailsT.bind {m : StateT σ (Except ε) α} {f : α → StateT σ (Except ε) β}
    (hm : FailsT p m) (hf : ∀ a, FailsT p (f a)) : FailsT p (m >>= f) := by
  intro s
  refine (hm s).bind ?_
  rintro ⟨a, s'⟩
  exact hf a s'

theorem bindT_error {m : StateT σ (Except ε) α} {f : α → StateT σ (Except ε) β} {s : σ} {e : ε}
    (hm : m s = .error e) : (m >>= f) s = .error e := by
  change (m s >>= fun x => f x.1 x.2) = .error e
  exact bind_eq_error.mpr (.inl hm)

theorem bindT_error_of_ok {m : StateT σ (Except ε) α} {f : α → StateT σ (Except ε) β} {s s' : σ}
    {a : α} {e : ε} (hm : m s = .ok (a, s')) (hf : f a s' = .error e) :
    (m >>= f) s = .error e := by
  change (m s >>= fun x => f x.1 x.2) = .error e
  exact bind_error_of_ok hm hf

/-! ## 3. A single check

A computation that decides one question and returns one value.  Here the rule is exact, and so two
of them can be compared. -/

/-- `x` is the check of `p`: it returns the one value that `value` names, or fails with `e`. -/
structure Checks (x : Except ε α) (p : Prop) (value : α → Prop) (e : ε) : Prop where
  returns : p → ∃ a, x = .ok a
  ok_iff : ∀ a, x = .ok a ↔ p ∧ value a
  refused : ¬ p → x = .error e

namespace Checks

variable {x y : Except ε α} {p q : Prop} {value : α → Prop} {a : α} {e : ε}

theorem of_ok (hp : p) (hx : x = .ok a) (hvalue : ∀ b, a = b ↔ value b) :
    Checks x p value e where
  returns _ := ⟨a, hx⟩
  ok_iff b := by simp [hx, hp, hvalue]
  refused hnot := absurd hp hnot

theorem of_error (hp : ¬ p) (hx : x = .error e) : Checks x p value e where
  returns h := absurd h hp
  ok_iff b := by simp [hx, hp]
  refused _ := hx

theorem accepts (h : Checks x p value e) : (∃ a, x = .ok a) ↔ p := by
  constructor
  · rintro ⟨a, ha⟩
    exact ((h.ok_iff a).mp ha).1
  · exact h.returns

/-- Two checks with the same value and the same error end alike when they decide alike. -/
theorem eq_iff (h : Checks x p value e) (h' : Checks y q value e) : x = y ↔ (p ↔ q) := by
  constructor
  · intro heq
    rw [← h.accepts, ← h'.accepts, heq]
  · intro hiff
    by_cases hp : p
    · obtain ⟨a, ha⟩ := h.returns hp
      have hvalue : value a := ((h.ok_iff a).mp ha).2
      rw [ha, (h'.ok_iff a).mpr ⟨hiff.mp hp, hvalue⟩]
    · rw [h.refused hp, h'.refused (fun hq => hp (hiff.mpr hq))]

end Checks

end Failures
