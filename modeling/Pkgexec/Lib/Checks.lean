/-
# Checks in order

A factory makes its checks one after the other and reports the first that fails.  A check is
given here by the errors that it may report, so that a specification of the factory is a list of
checks: which values pass, and for each other value the error it is refused with, whatever loop
or search finds it.

`Checked x cs` says that `x` ends with an error exactly as the list says (`First`), and so
returns a value exactly when every check passes (`Checked.ok_iff`).  Checks of parts are put
together in the order in which the parts run (`Checked.bind`).
-/
import Mathlib.Data.List.Basic

namespace Checks

variable {ε α β : Type}

/-! ## 1. Checks

A check has no order and no computation in it; only `First` has an order, that of the list.  What
passes a check is whatever it has no error for. -/

/-- A check, by the errors that it may report. -/
def Check (ε : Type) : Type := ε → Prop

namespace Check

/-- It reports one error, under a condition. -/
def when (p : Prop) (e : ε) : Check ε := fun e' => p ∧ e' = e

/-- It reports an error that names what is wrong. -/
def naming (p : α → Prop) (e : α → ε) : Check ε := fun e' => ∃ a, p a ∧ e' = e a

/-- It reports nothing. -/
def Passes (c : Check ε) : Prop := ∀ e, ¬ c e

@[simp] theorem passes_when {p : Prop} {e : ε} : (when p e).Passes ↔ ¬ p := by
  constructor
  · intro h hp
    exact h e ⟨hp, rfl⟩
  · rintro h _ ⟨hp, -⟩
    exact h hp

@[simp] theorem passes_naming {p : α → Prop} {e : α → ε} :
    (naming p e).Passes ↔ ∀ a, ¬ p a := by
  constructor
  · intro h a ha
    exact h (e a) ⟨a, ha, rfl⟩
  · rintro h _ ⟨a, ha, -⟩
    exact h a ha

end Check

/-- The first check that does not pass reports the error. -/
inductive First : List (Check ε) → ε → Prop
  | here {c : Check ε} {cs : List (Check ε)} {e : ε} (reported : c e) : First (c :: cs) e
  | later {c : Check ε} {cs : List (Check ε)} {e : ε} (passed : c.Passes) (rest : First cs e) :
      First (c :: cs) e

variable {c : Check ε} {cs ds : List (Check ε)} {e : ε}

theorem First.exists_check (h : First cs e) : ∃ c ∈ cs, c e := by
  induction h with
  | here reported => exact ⟨_, List.mem_cons_self, reported⟩
  | later _ _ ih =>
    obtain ⟨c, hc, he⟩ := ih
    exact ⟨c, List.mem_cons_of_mem _ hc, he⟩

theorem not_first_of_passes (h : ∀ c ∈ cs, c.Passes) : ¬ First cs e := by
  intro hfirst
  obtain ⟨c, hc, he⟩ := hfirst.exists_check
  exact h c hc e he

/-- Some check reports an error, unless all pass. -/
theorem exists_first (h : ¬ ∀ c ∈ cs, c.Passes) : ∃ e, First cs e := by
  induction cs with
  | nil => exact absurd (by simp) h
  | cons c cs ih =>
    by_cases hc : c.Passes
    · obtain ⟨e, he⟩ := ih (fun hcs => h (by
        intro d hd
        rcases List.mem_cons.mp hd with rfl | hd
        · exact hc
        · exact hcs d hd))
      exact ⟨e, .later hc he⟩
    · obtain ⟨e, he⟩ : ∃ e, c e := by
        by_contra hno
        exact hc (fun e he => hno ⟨e, he⟩)
      exact ⟨e, .here he⟩

theorem first_append :
    First (cs ++ ds) e ↔ First cs e ∨ (∀ c ∈ cs, c.Passes) ∧ First ds e := by
  induction cs with
  | nil =>
    constructor
    · intro h
      exact .inr ⟨by simp, h⟩
    · rintro (h | ⟨-, h⟩)
      · cases h
      · exact h
  | cons c cs ih =>
    constructor
    · intro h
      cases h with
      | here reported => exact .inl (.here reported)
      | later passed rest =>
        rcases ih.mp rest with hfirst | ⟨hpass, hfirst⟩
        · exact .inl (.later passed hfirst)
        · exact .inr ⟨List.forall_mem_cons.mpr ⟨passed, hpass⟩, hfirst⟩
    · rintro (h | ⟨hpass, hfirst⟩)
      · cases h with
        | here reported => exact .here reported
        | later passed rest => exact .later passed (ih.mpr (.inl rest))
      · obtain ⟨hc, hcs⟩ := List.forall_mem_cons.mp hpass
        exact .later hc (ih.mpr (.inr ⟨hcs, hfirst⟩))

/-! ## 2. Computations that make them

One lemma for each way a factory goes on: a condition with its error, a search that names what it
found, a part that is a computation of its own.  So the proof that a factory makes its checks
follows its text. -/

/-- **The computation fails as its checks say.** -/
def Checked (x : Except ε α) (cs : List (Check ε)) : Prop := ∀ e, x = .error e ↔ First cs e

variable {x : Except ε α}

/-- It returns a value exactly when every check passes. -/
theorem Checked.ok_iff (h : Checked x cs) : (∃ a, x = .ok a) ↔ ∀ c ∈ cs, c.Passes := by
  cases x with
  | ok a =>
    refine iff_of_true ⟨a, rfl⟩ ?_
    by_contra hno
    obtain ⟨e, he⟩ := exists_first hno
    exact absurd ((h e).mpr he) (by simp)
  | error e =>
    refine iff_of_false (by simp) ?_
    intro hpass
    exact not_first_of_passes hpass ((h e).mp rfl)

theorem Checked.ok {a : α} : Checked (.ok a : Except ε α) [] := by
  intro e
  refine iff_of_false (by simp) ?_
  intro h
  cases h

/-- The first check fails, and can only report one error. -/
theorem Checked.fail (h : c e) (hone : ∀ e', c e' → e' = e) :
    Checked (.error e : Except ε α) (c :: cs) := by
  intro e'
  constructor
  · intro he
    obtain rfl := Except.error.inj he
    exact .here h
  · intro hfirst
    cases hfirst with
    | here reported => rw [hone e' reported]
    | later passed rest => exact absurd h (passed e)

theorem Checked.pass (hc : c.Passes) (h : Checked x cs) : Checked x (c :: cs) := by
  intro e
  rw [h e]
  constructor
  · exact .later hc
  · intro hfirst
    cases hfirst with
    | here reported => exact absurd reported (hc e)
    | later _ rest => exact rest

theorem Checked.fail_when {p : Prop} (hp : p) :
    Checked (.error e : Except ε α) (.when p e :: cs) :=
  .fail ⟨hp, rfl⟩ (fun _ he => he.2)

theorem Checked.pass_when {p : Prop} {e : ε} (hp : ¬ p) (h : Checked x cs) :
    Checked x (.when p e :: cs) :=
  .pass (Check.passes_when.mpr hp) h

/-- What is wrong is unique. -/
theorem Checked.fail_naming {p : β → Prop} {f : β → ε} {b : β} (hb : p b) (he : e = f b)
    (hone : ∀ b', p b' → f b' = f b) : Checked (.error e : Except ε α) (.naming p f :: cs) := by
  refine .fail ⟨b, hb, he⟩ ?_
  rintro e' ⟨b', hb', rfl⟩
  exact (hone b' hb').trans he.symm

theorem Checked.pass_naming {p : β → Prop} {f : β → ε} (hp : ∀ b, ¬ p b) (h : Checked x cs) :
    Checked x (.naming p f :: cs) :=
  .pass (Check.passes_naming.mpr hp) h

/-- **One part after the other.** -/
theorem Checked.bind {f : α → Except ε β} (hx : Checked x cs)
    (hf : ∀ a, x = .ok a → Checked (f a) ds) : Checked (x >>= f) (cs ++ ds) := by
  intro e
  rw [first_append]
  cases hcase : x with
  | error e' =>
    have hno : ¬ ∀ c ∈ cs, c.Passes := by
      intro hpass
      obtain ⟨a, ha⟩ := hx.ok_iff.mpr hpass
      exact absurd (hcase.symm.trans ha) (by simp)
    constructor
    · intro he
      obtain rfl := Except.error.inj he
      exact .inl ((hx e').mp hcase)
    · rintro (hfirst | ⟨hpass, -⟩)
      · have he := (hx e).mpr hfirst
        obtain rfl := Except.error.inj (hcase.symm.trans he)
        rfl
      · exact absurd hpass hno
  | ok a =>
    have hpass : ∀ c ∈ cs, c.Passes := hx.ok_iff.mp ⟨a, hcase⟩
    have hsecond := hf a hcase e
    constructor
    · intro he
      exact .inr ⟨hpass, hsecond.mp he⟩
    · rintro (hfirst | ⟨-, hfirst⟩)
      · exact absurd hfirst (not_first_of_passes hpass)
      · exact hsecond.mpr hfirst

/-- The same by cases of the first part: it has failed, -/
theorem Checked.stop (hx : Checked x cs) (h : x = .error e) :
    Checked (.error e : Except ε β) (cs ++ ds) := by
  subst h
  have hbind : Checked ((.error e : Except ε α) >>= fun _ => (.error e : Except ε β)) (cs ++ ds) :=
    hx.bind (fun _ ha => absurd ha (by simp))
  exact hbind

/-- or it has passed. -/
theorem Checked.next {a : α} {y : Except ε β} (hx : Checked x cs) (h : x = .ok a)
    (hy : Checked y ds) : Checked y (cs ++ ds) := by
  subst h
  have hbind : Checked ((.ok a : Except ε α) >>= fun _ => y) (cs ++ ds) := hx.bind (fun _ _ => hy)
  exact hbind

/-- Nothing is checked afterwards. -/
theorem Checked.bind_nil {f : α → Except ε β} (hx : Checked x cs)
    (hf : ∀ a, x = .ok a → Checked (f a) []) : Checked (x >>= f) cs := by
  have h := hx.bind hf
  rwa [List.append_nil] at h

end Checks
