/-
# Prefix codes

A function into lists is a *prefix code* when a value can be read off the front of any text
that starts with its code: `f a ++ r = f b ++ s` forces `a = b` and `r = s`.  Concatenating
the codes of the fields of a record is then injective, field by field, which is how a program
that hashes the concatenation of its fields makes the digest determine the record.

The rules below are one for every way such a program writes a field: a fixed number of bytes,
a length in front of the bytes of a string, a count in front of the elements of a list, and a
flag in front of an optional value.
-/
import Pkgexec.Lib.Bytes

/-- The code of a value can be cut off the front of any text. -/
def PrefixCode {α β : Type} (f : α → List β) : Prop :=
  ∀ ⦃a b : α⦄ ⦃r s : List β⦄, f a ++ r = f b ++ s → a = b ∧ r = s

namespace PrefixCode

variable {α β γ : Type} {f : α → List γ} {g : β → List γ}

/-! ## 1. Rules

Over any alphabet.  A record is a chain of `append`, and what makes the chain work is that each
field but the last can be cut off, whatever comes after it. -/

/-- A prefix code is injective. -/
theorem injective (hf : PrefixCode f) : Function.Injective f := by
  intro a b h
  exact (hf (r := []) (s := []) (by rw [h])).1

/-- Codes of one length. -/
theorem ofLength {n : Nat} (hlen : ∀ a, (f a).length = n) (hinj : Function.Injective f) :
    PrefixCode f := by
  intro a b r s h
  obtain ⟨hab, hrs⟩ := List.append_inj h (by rw [hlen, hlen])
  exact ⟨hinj hab, hrs⟩

/-- Reading a value through an injection. -/
theorem comp (hf : PrefixCode f) {k : β → α} (hk : Function.Injective k) :
    PrefixCode (fun b => f (k b)) := by
  intro a b r s h
  obtain ⟨hab, hrs⟩ := hf h
  exact ⟨hk hab, hrs⟩

/-- Two fields, one after the other. -/
theorem append (hf : PrefixCode f) (hg : PrefixCode g) :
    PrefixCode (fun p : α × β => f p.1 ++ g p.2) := by
  rintro ⟨a, b⟩ ⟨a', b'⟩ r s h
  simp only [List.append_assoc] at h
  obtain ⟨ha, h⟩ := hf h
  obtain ⟨hb, hrs⟩ := hg h
  exact ⟨Prod.ext ha hb, hrs⟩

/-- The elements of two lists of one length. -/
theorem flatMap (hf : PrefixCode f) {l m : List α} {r s : List γ} (hlen : l.length = m.length)
    (h : l.flatMap f ++ r = m.flatMap f ++ s) : l = m ∧ r = s := by
  induction l generalizing m with
  | nil =>
    obtain rfl := List.eq_nil_of_length_eq_zero hlen.symm
    exact ⟨rfl, h⟩
  | cons a l ih =>
    cases m with
    | nil => exact absurd hlen (by simp)
    | cons b m =>
      simp only [List.flatMap_cons, List.append_assoc] at h
      obtain ⟨rfl, ht⟩ := hf h
      obtain ⟨rfl, hrs⟩ := ih (Nat.succ.inj hlen) ht
      exact ⟨rfl, hrs⟩

/-- A count in front of the elements of a list. -/
theorem counted {c : Nat → List γ} {p : List α → Prop}
    (hc : ∀ {l m : List α} {r s : List γ}, p l → p m → c l.length ++ r = c m.length ++ s →
      l.length = m.length ∧ r = s)
    (hf : PrefixCode f) : PrefixCode (fun l : {l : List α // p l} => c l.val.length ++ l.val.flatMap f) := by
  rintro ⟨l, hl⟩ ⟨m, hm⟩ r s h
  simp only [List.append_assoc] at h
  obtain ⟨hlen, h⟩ := hc hl hm h
  obtain ⟨rfl, hrs⟩ := flatMap hf hlen h
  exact ⟨rfl, hrs⟩

/-- A flag in front of an optional value. -/
theorem option {flag : Bool → List γ} (hflag : PrefixCode flag) (hf : PrefixCode f) :
    PrefixCode (fun o : Option α => flag o.isSome ++ o.elim [] f) := by
  intro a b r s h
  simp only [List.append_assoc] at h
  obtain ⟨hsome, h⟩ := hflag h
  cases a with
  | none => cases b with
    | none => exact ⟨rfl, by simpa using h⟩
    | some b => simp at hsome
  | some a => cases b with
    | none => simp at hsome
    | some b =>
      obtain ⟨rfl, hrs⟩ := hf (by simpa using h)
      exact ⟨rfl, hrs⟩

/-! ## 2. Bytes

The fields that such programs write, as instances of the rules: a byte, a flag, a word of a fixed
size, and a string or a sequence with its length in front. -/

open Bytes

theorem byte : PrefixCode (fun b : UInt8 => [b]) :=
  ofLength (n := 1) (fun _ => rfl) (fun _ _ h => by simpa using h)

theorem bool : PrefixCode (fun b : Bool => [if b then (1 : UInt8) else 0]) :=
  byte.comp (k := fun b : Bool => if b then (1 : UInt8) else 0) (by decide)

theorem bigEndian {k : α → Nat} {n : Nat} (hk : Function.Injective k) (hlt : ∀ a, k a < 256 ^ n) :
    PrefixCode (fun a => bigEndian n (k a)) :=
  ofLength (fun _ => length_bigEndian n _) (fun _ _ h => hk (bigEndian_inj (hlt _) (hlt _) h))

theorem word32 : PrefixCode (fun v : UInt32 => Bytes.bigEndian 4 v.toNat) :=
  bigEndian (fun _ _ => UInt32.toNat_inj.mp) (fun v => v.toNat_lt)

theorem word64 : PrefixCode (fun v : UInt64 => Bytes.bigEndian 8 v.toNat) :=
  bigEndian (fun _ _ => UInt64.toNat_inj.mp) (fun v => v.toNat_lt)

/-- A 64-bit count in front of a sequence whose size fits one. -/
theorem vec {f : α → Bytes} (hf : PrefixCode f) :
    PrefixCode (fun v : Vec α => Bytes.bigEndian 8 v.val.length ++ v.val.flatMap f) :=
  counted (c := Bytes.bigEndian 8) (p := fun l => l.length < 2 ^ 64)
    (fun hl hm h =>
      have hcut := List.append_inj h (by simp)
      ⟨bigEndian_inj hl hm hcut.1, hcut.2⟩) hf

/-- A 64-bit length in front of a string. -/
theorem str : PrefixCode (fun s : Str => Bytes.bigEndian 8 s.val.length ++ s.val) := by
  have h : PrefixCode (fun s : Str => Bytes.bigEndian 8 s.val.length ++
      s.val.flatMap (fun b => [b])) := vec byte
  simpa using h

end PrefixCode
