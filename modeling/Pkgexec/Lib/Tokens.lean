/-
# Tokens over an alphabet with a low part

A token is a nonempty word whose first letter is of one class and whose other letters are of
another, the shape of most identifiers.  Here a grammar is written for the low letters of an
alphabet (ASCII among the bytes), and a program decides it with classifiers that are right on
the low letters and may say anything about the rest.

* `Extends.low_iff`: the grammar's tokens are the program's tokens in low letters.
* `Extends.agrees_iff`: grammar and program part on exactly the `Foreign` words.
* `Extends.agree_iff`: so do two programs, on the words that are foreign to just one of them.
* `Extends.exact_iff`: no word is foreign when no letter beyond the low ones is in a class.
-/
import Mathlib.Data.List.Basic

namespace Tokens

variable {α : Type} {low first rest first' rest' first₀ rest₀ : α → Prop} {l : List α}

/-! ## 1. The grammar

Over any alphabet and any two classes.  A token is decided by its letters one by one, so classes
that agree on the letters of a word agree on the word. -/

/-- A first letter of `first`, then any number of letters of `rest`. -/
def Token (first rest : α → Prop) : List α → Prop
  | [] => False
  | a :: t => first a ∧ ∀ b ∈ t, rest b

instance Token.decidable [DecidablePred first] [DecidablePred rest] :
    (l : List α) → Decidable (Token first rest l)
  | [] => isFalse id
  | a :: t => inferInstanceAs (Decidable (first a ∧ ∀ b ∈ t, rest b))

theorem Token.mono (hfirst : ∀ a ∈ l, first a → first' a) (hrest : ∀ a ∈ l, rest a → rest' a)
    (h : Token first rest l) : Token first' rest' l := by
  cases l with
  | nil => exact h
  | cons a t =>
    obtain ⟨ha, ht⟩ := h
    refine ⟨hfirst a List.mem_cons_self ha, ?_⟩
    intro b hb
    exact hrest b (List.mem_cons_of_mem a hb) (ht b hb)

theorem token_congr (hfirst : ∀ a ∈ l, first a ↔ first' a) (hrest : ∀ a ∈ l, rest a ↔ rest' a) :
    Token first rest l ↔ Token first' rest' l := by
  constructor
  · exact Token.mono (fun a ha => (hfirst a ha).mp) (fun a ha => (hrest a ha).mp)
  · exact Token.mono (fun a ha => (hfirst a ha).mpr) (fun a ha => (hrest a ha).mpr)

/-- Every letter of a token is in one of the two classes. -/
theorem Token.forall_mem (h : Token first rest l) : ∀ a ∈ l, first a ∨ rest a := by
  cases l with
  | nil => exact absurd h id
  | cons a t =>
    obtain ⟨ha, ht⟩ := h
    intro b hb
    rcases List.mem_cons.mp hb with rfl | hb
    · exact Or.inl ha
    · exact Or.inr (ht b hb)

/-! ## 2. Classes that go beyond the low letters

The wider classes are what a program tests, the narrower ones what was meant.  They part on words
with at least one letter that is not low, and on no others. -/

/-- A token with a letter that is not low. -/
def Foreign (low first rest : α → Prop) (l : List α) : Prop :=
  Token first rest l ∧ ∃ a ∈ l, ¬ low a

/-- `first` and `rest` are `first₀` and `rest₀` with letters added that are not low. -/
structure Extends (low first₀ rest₀ first rest : α → Prop) : Prop where
  first_low : ∀ a, first₀ a → low a
  rest_low : ∀ a, rest₀ a → low a
  first_iff : ∀ a, low a → (first a ↔ first₀ a)
  rest_iff : ∀ a, low a → (rest a ↔ rest₀ a)

namespace Extends

variable (h : Extends low first₀ rest₀ first rest)

include h

theorem low_iff : Token first₀ rest₀ l ↔ Token first rest l ∧ ∀ a ∈ l, low a := by
  constructor
  · intro ht
    have hlow : ∀ a ∈ l, low a := by
      intro a ha
      exact (ht.forall_mem a ha).elim (h.first_low a) (h.rest_low a)
    exact ⟨ht.mono (fun a ha => (h.first_iff a (hlow a ha)).mpr)
      (fun a ha => (h.rest_iff a (hlow a ha)).mpr), hlow⟩
  · rintro ⟨ht, hlow⟩
    exact ht.mono (fun a ha => (h.first_iff a (hlow a ha)).mp)
      (fun a ha => (h.rest_iff a (hlow a ha)).mp)

/-- A token of the wider classes is a token of the narrower ones, or foreign. -/
theorem token_iff : Token first rest l ↔ Token first₀ rest₀ l ∨ Foreign low first rest l := by
  rw [h.low_iff]
  constructor
  · intro ht
    by_cases hlow : ∀ a ∈ l, low a
    · exact Or.inl ⟨ht, hlow⟩
    · have hhigh : ∃ a ∈ l, ¬ low a := by simpa using hlow
      exact Or.inr ⟨ht, hhigh⟩
  · rintro (⟨ht, -⟩ | ⟨ht, -⟩)
    · exact ht
    · exact ht

/-- A foreign word is no token of the narrower classes. -/
theorem not_token_of_foreign (hf : Foreign low first rest l) : ¬ Token first₀ rest₀ l := by
  obtain ⟨-, a, ha, hhigh⟩ := hf
  intro ht
  exact hhigh ((h.low_iff.mp ht).2 a ha)

theorem agrees_iff :
    (Token first rest l ↔ Token first₀ rest₀ l) ↔ ¬ Foreign low first rest l := by
  constructor
  · intro hag hf
    exact h.not_token_of_foreign hf (hag.mp hf.1)
  · intro hf
    rw [h.token_iff]
    exact or_iff_left hf

theorem agree_iff (h' : Extends low first₀ rest₀ first' rest') :
    (Token first rest l ↔ Token first' rest' l) ↔
      (Foreign low first rest l ↔ Foreign low first' rest' l) := by
  constructor
  · intro hag
    exact and_congr_left' hag
  · intro hf
    rw [h.token_iff, h'.token_iff, hf]

theorem exact_iff (hsome : ∃ a, first₀ a) :
    (∀ l, Token first rest l ↔ Token first₀ rest₀ l) ↔ ∀ a, ¬ low a → ¬ first a ∧ ¬ rest a := by
  constructor
  · intro hag a hhigh
    obtain ⟨a₀, ha₀⟩ := hsome
    have ha₀' : first a₀ := (h.first_iff a₀ (h.first_low a₀ ha₀)).mpr ha₀
    constructor
    · intro ha
      have hf : Foreign low first rest [a] := ⟨⟨ha, by simp⟩, a, by simp, hhigh⟩
      exact h.agrees_iff.mp (hag [a]) hf
    · intro ha
      have hf : Foreign low first rest [a₀, a] := ⟨⟨ha₀', by simpa using ha⟩, a, by simp, hhigh⟩
      exact h.agrees_iff.mp (hag [a₀, a]) hf
  · intro hhigh l
    refine h.agrees_iff.mpr ?_
    rintro ⟨ht, a, ha, hlow⟩
    obtain ⟨hfirst, hrest⟩ := hhigh a hlow
    exact (ht.forall_mem a ha).elim hfirst hrest

end Extends

end Tokens
