/-
# Runs of labelled transition systems

A system is given by its steps: `step s e s'` says that in the state `s` the event `e` may
happen and leads to `s'`.  A *run* is a finite sequence of steps, and its *trace* is the list of
its events, the latest last.

What holds of a state and the empty trace, and is kept by every step, holds of every run
(`Run.invariant`).  The invariant may speak of the trace, and that is how a state is tied to its
history: which events must have happened for the state to be what it is.

A run of one system is followed by a run of another when every step is (`Run.simulate`).
-/
import Mathlib.Data.List.Induction

namespace Transition

variable {σ ε : Type}

/-- The states that can be reached from `s`, with the trace of what happened on the way. -/
inductive Run (step : σ → ε → σ → Prop) (s : σ) : List ε → σ → Prop
  | nil : Run step s [] s
  | snoc {tr : List ε} {s' s'' : σ} {e : ε} (run : Run step s tr s') (next : step s' e s'') :
      Run step s (tr ++ [e]) s''

namespace Run

variable {step : σ → ε → σ → Prop} {s s' s'' : σ} {tr tr' : List ε}

/-- **The invariant rule.** -/
theorem invariant {I : List ε → σ → Prop} (initially : I [] s)
    (kept : ∀ tr s' e s'', I tr s' → step s' e s'' → I (tr ++ [e]) s'')
    (h : Run step s tr s') : I tr s' := by
  induction h with
  | nil => exact initially
  | snoc _ hnext ih => exact kept _ _ _ _ ih hnext

/-- The rule for a property of states alone. -/
theorem stable {P : σ → Prop} (kept : ∀ s' e s'', P s' → step s' e s'' → P s'')
    (initially : P s) (h : Run step s tr s') : P s' :=
  h.invariant (I := fun _ s => P s) initially (fun _ s' e s'' => kept s' e s'')

/-- A run goes on with another. -/
theorem append (h : Run step s tr s') (h' : Run step s' tr' s'') :
    Run step s (tr ++ tr') s'' := by
  induction h' with
  | nil =>
    rw [List.append_nil]
    exact h
  | snoc _ hnext ih =>
    rw [← List.append_assoc]
    exact ih.snoc hnext

/-- A run passes through a state wherever its trace is cut. -/
theorem split (h : Run step s (tr ++ tr') s'') :
    ∃ s', Run step s tr s' ∧ Run step s' tr' s'' := by
  induction tr' using List.reverseRecOn generalizing s'' with
  | nil =>
    rw [List.append_nil] at h
    exact ⟨s'', h, nil⟩
  | append_singleton tr' e ih =>
    rw [← List.append_assoc] at h
    generalize htrace : (tr ++ tr') ++ [e] = trace at h
    cases h with
    | nil => exact absurd htrace (by simp)
    | snoc hrun hnext =>
      obtain ⟨hbefore, hevent⟩ := List.append_inj' htrace rfl
      obtain rfl := List.singleton_inj.mp hevent
      obtain ⟨s', hfirst, hsecond⟩ := ih (hbefore ▸ hrun)
      exact ⟨s', hfirst, hsecond.snoc hnext⟩

/-- The step at which an event of the trace happened. -/
theorem step_of_mem {pre post : List ε} {e : ε} (h : Run step s (pre ++ e :: post) s'') :
    ∃ s₁ s₂, Run step s pre s₁ ∧ step s₁ e s₂ ∧ Run step s₂ post s'' := by
  rw [List.append_cons] at h
  obtain ⟨s₂, hfirst, hrest⟩ := h.split
  generalize htrace : pre ++ [e] = trace at hfirst
  cases hfirst with
  | nil => exact absurd htrace (by simp)
  | snoc hrun hnext =>
    obtain ⟨hbefore, hevent⟩ := List.append_inj' htrace rfl
    obtain rfl := List.singleton_inj.mp hevent
    exact ⟨_, s₂, hbefore ▸ hrun, hnext, hrest⟩

/-- **Simulation.**  If every step of a run is matched by steps of another system with the same
visible part, then the run is matched by a run of the other system. -/
theorem simulate {σ' ε' α : Type} {step' : σ' → ε' → σ' → Prop} {a₀ : σ'} {seen : ε → Option α}
    {seen' : ε' → Option α} (R : σ → σ' → Prop) (initially : R s a₀)
    (matched : ∀ tr s' e s'' a, Run step s tr s' → R s' a → step s' e s'' →
      ∃ tr' a', Run step' a tr' a' ∧ R s'' a' ∧ tr'.filterMap seen' = (seen e).toList)
    (h : Run step s tr s') :
    ∃ tr' a, Run step' a₀ tr' a ∧ R s' a ∧ tr'.filterMap seen' = tr.filterMap seen := by
  induction h with
  | nil => exact ⟨[], a₀, nil, initially, rfl⟩
  | @snoc tr s' s'' e hrun hnext ih =>
    obtain ⟨tr₁, a, hfirst, hrel, hseen⟩ := ih
    obtain ⟨tr₂, a', hsecond, hrel', hevent⟩ := matched tr s' e s'' a hrun hrel hnext
    refine ⟨tr₁ ++ tr₂, a', hfirst.append hsecond, hrel', ?_⟩
    rw [List.filterMap_append, List.filterMap_append, hseen, hevent]
    cases he : seen e <;> simp [he]

end Run

end Transition
