/-
# Which names a locale admits

`valid_slot_name` and `valid_environment_name` (`src/model.cpp`) classify bytes with
`std::isalnum` and `std::isalpha`, which answer for the C locale of the process.  The message
of `resource_slot::named` calls an admitted name a canonical ASCII token.  Below 128 every
locale is ASCII; above, a single-byte locale has letters of its own, and the validators admit
them.

* Sections 1 and 2: the two ASCII grammars, and what the validators decide under a locale.
* Section 3: `name_admission`: code and grammar part on exactly the foreign names, those with a
  letter from 128 on where the locale has one; and so do two locales.
* `names_ascii_iff`: all names are decided as in ASCII when the locale has no such letter.
-/
import Pkgexec.Lib.Failures
import Pkgexec.Lib.Tokens
import Pkgexec.Policy

namespace Pkgexec

open Bytes Failures Tokens

/-! ## 1. The grammars

The grammars of the two sorts of names, over ASCII, and the names that only a locale admits. -/

/-- The bytes of ASCII. -/
def IsAscii (c : UInt8) : Prop := c < 128

instance : DecidablePred IsAscii := fun c => inferInstanceAs (Decidable (c < 128))

/-- A byte from 128 on in a class of the locale. -/
def Beyond (isClass : UInt8 → Bool) (c : UInt8) : Prop := 128 ≤ c ∧ isClass c = true

/-- `[A-Za-z0-9][A-Za-z0-9._+-]*`. -/
def AsciiSlotName : Bytes → Prop :=
  Token (fun c => asciiAlnum c = true) (fun c => asciiAlnum c = true ∨ c ∈ text "._+-")

/-- `[A-Za-z_][A-Za-z0-9_]*`. -/
def AsciiEnvironmentName : Bytes → Prop :=
  Token (fun c => asciiAlpha c = true ∨ c = 0x5f) (fun c => asciiAlnum c = true ∨ c = 0x5f)

/-- A slot name but for letters and digits that only the locale has, at least one of them. -/
def ForeignSlotName (ctype : Ctype) (name : Bytes) : Prop :=
  Token (fun c => asciiAlnum c = true ∨ Beyond ctype.isalnum c)
      (fun c => (asciiAlnum c = true ∨ c ∈ text "._+-") ∨ Beyond ctype.isalnum c) name ∧
    ∃ c ∈ name, 128 ≤ c

/-- The same for the name of an environment variable, which starts with a letter. -/
def ForeignEnvironmentName (ctype : Ctype) (name : Bytes) : Prop :=
  Token (fun c => (asciiAlpha c = true ∨ c = 0x5f) ∨ Beyond ctype.isalpha c)
      (fun c => (asciiAlnum c = true ∨ c = 0x5f) ∨ Beyond ctype.isalnum c) name ∧
    ∃ c ∈ name, 128 ≤ c

instance (name : Bytes) : Decidable (AsciiSlotName name) :=
  inferInstanceAs (Decidable (Token _ _ name))

instance (name : Bytes) : Decidable (AsciiEnvironmentName name) :=
  inferInstanceAs (Decidable (Token _ _ name))

/-- Letters and digits of ASCII are bytes of ASCII. -/
theorem asciiAlnum_low {c : UInt8} (h : asciiAlnum c = true) : IsAscii c := by
  simp only [asciiAlnum, asciiAlpha, Bool.or_eq_true, Bool.and_eq_true, decide_eq_true_eq,
    UInt8.le_iff_toNat_le, UInt8.reduceToNat] at h
  refine UInt8.lt_iff_toNat_lt.mpr ?_
  simp only [UInt8.reduceToNat]
  omega

theorem asciiAlnum_of_asciiAlpha {c : UInt8} (h : asciiAlpha c = true) : asciiAlnum c = true := by
  simp [asciiAlnum, h]

theorem punctuation_low : ∀ c ∈ text "._+-", IsAscii c := by
  have htext : text "._+-" = [0x2e, 0x5f, 0x2b, 0x2d] := by simp [text]
  simp only [htext, List.forall_mem_cons, List.not_mem_nil, false_implies, implies_true, and_true]
  decide

theorem not_isAscii {c : UInt8} : ¬ IsAscii c ↔ 128 ≤ c := UInt8.not_lt

/-- A class of the locale is its ASCII class, and what the locale adds beyond ASCII. -/
theorem class_iff {isClass ascii : UInt8 → Bool} (h : ∀ c < 128, isClass c = ascii c)
    (hlow : ∀ c, ascii c = true → IsAscii c) (c : UInt8) :
    isClass c = true ↔ ascii c = true ∨ Beyond isClass c := by
  constructor
  · intro hc
    by_cases hc128 : c < 128
    · exact Or.inl (h c hc128 ▸ hc)
    · exact Or.inr ⟨not_isAscii.mp hc128, hc⟩
  · rintro (hc | ⟨-, hc⟩)
    · exact (h c (hlow c hc)).trans hc
    · exact hc

/-! ## 2. The validators

Under a locale each validator decides a grammar of its own, whose classes extend those of ASCII.
`Lib.Tokens` has what follows from that for any such pair. -/

namespace Ctype

variable (ctype : Ctype) {name : Bytes}

/-- A digit or letter of the locale is one of ASCII or lies beyond, -/
theorem isalnum_iff (c : UInt8) :
    ctype.isalnum c = true ↔ asciiAlnum c = true ∨ Beyond ctype.isalnum c :=
  class_iff ctype.isalnum_ascii (fun _ => asciiAlnum_low) c

/-- and so is a letter. -/
theorem isalpha_iff (c : UInt8) :
    ctype.isalpha c = true ↔ asciiAlpha c = true ∨ Beyond ctype.isalpha c :=
  class_iff ctype.isalpha_ascii (fun _ hc => asciiAlnum_low (asciiAlnum_of_asciiAlpha hc)) c

/-- `valid_slot_name` looks at the first byte twice, the second time in vain. -/
theorem validSlotName_iff :
    validSlotName ctype name = true ↔
      Token (fun c => ctype.isalnum c = true)
        (fun c => ctype.isalnum c = true ∨ c ∈ text "._+-") name := by
  cases name with
  | nil => simp [validSlotName, Token]
  | cons first rest =>
    simp only [validSlotName, Token, Bool.and_eq_true, List.all_cons, Bool.or_eq_true,
      List.all_eq_true, List.contains_eq_mem, decide_eq_true_eq]
    constructor
    · rintro ⟨hfirst, -, hrest⟩
      exact ⟨hfirst, hrest⟩
    · rintro ⟨hfirst, hrest⟩
      exact ⟨hfirst, Or.inl hfirst, hrest⟩

theorem validEnvironmentName_iff :
    validEnvironmentName ctype name = true ↔
      Token (fun c => ctype.isalpha c = true ∨ c = 0x5f)
        (fun c => ctype.isalnum c = true ∨ c = 0x5f) name := by
  cases name with
  | nil => simp [validEnvironmentName, Token]
  | cons first rest => simp [validEnvironmentName, Token]

/-- The classes of `valid_slot_name` extend those of the ASCII grammar. -/
theorem slot_extends : Extends IsAscii (fun c => asciiAlnum c = true)
    (fun c => asciiAlnum c = true ∨ c ∈ text "._+-") (fun c => ctype.isalnum c = true)
    (fun c => ctype.isalnum c = true ∨ c ∈ text "._+-") where
  first_low := fun _ => asciiAlnum_low
  rest_low := by
    rintro c (hc | hc)
    · exact asciiAlnum_low hc
    · exact punctuation_low c hc
  first_iff := by
    intro c hc
    rw [ctype.isalnum_ascii c hc]
  rest_iff := by
    intro c hc
    rw [ctype.isalnum_ascii c hc]

/-- The classes of `valid_environment_name` extend those of the ASCII grammar. -/
theorem environment_extends : Extends IsAscii (fun c => asciiAlpha c = true ∨ c = 0x5f)
    (fun c => asciiAlnum c = true ∨ c = 0x5f) (fun c => ctype.isalpha c = true ∨ c = 0x5f)
    (fun c => ctype.isalnum c = true ∨ c = 0x5f) where
  first_low := by
    rintro c (hc | rfl)
    · exact asciiAlnum_low (asciiAlnum_of_asciiAlpha hc)
    · decide
  rest_low := by
    rintro c (hc | rfl)
    · exact asciiAlnum_low hc
    · decide
  first_iff := by
    intro c hc
    rw [ctype.isalpha_ascii c hc]
  rest_iff := by
    intro c hc
    rw [ctype.isalnum_ascii c hc]

/-- A foreign slot name is one that the validator admits, with a byte from 128 on. -/
theorem foreignSlotName_iff :
    Foreign IsAscii (fun c => ctype.isalnum c = true)
      (fun c => ctype.isalnum c = true ∨ c ∈ text "._+-") name ↔ ForeignSlotName ctype name := by
  unfold Foreign ForeignSlotName
  simp only [not_isAscii]
  refine and_congr_left' (token_congr ?_ ?_)
  · intro c _
    exact ctype.isalnum_iff c
  · intro c _
    rw [ctype.isalnum_iff c, or_right_comm]

theorem foreignEnvironmentName_iff :
    Foreign IsAscii (fun c => ctype.isalpha c = true ∨ c = 0x5f)
      (fun c => ctype.isalnum c = true ∨ c = 0x5f) name ↔ ForeignEnvironmentName ctype name := by
  unfold Foreign ForeignEnvironmentName
  simp only [not_isAscii]
  refine and_congr_left' (token_congr ?_ ?_)
  · intro c _
    rw [ctype.isalpha_iff c, or_right_comm]
  · intro c _
    rw [ctype.isalnum_iff c, or_right_comm]

end Ctype

/-! ## 3. Admission

The validators decide as the ASCII grammar does on all names but the foreign ones. -/

/-- For a named role, `resource_slot::named` checks the name. -/
theorem ResourceSlot.named_checks {role : ResourceRole} (hrole : isNamedRole role = true)
    (ctype : Ctype) (name : Str) :
    Checks (ResourceSlot.named ctype role name)
      (Token (fun c => ctype.isalnum c = true)
        (fun c => ctype.isalnum c = true ∨ c ∈ Bytes.text "._+-") name.val)
      (fun slot => slot.role = role ∧ slot.name = name)
      ⟨.invalidValue, Bytes.text "resource slot names must be canonical ASCII tokens"⟩ := by
  rw [← ctype.validSlotName_iff]
  by_cases hname : validSlotName ctype name.val = true
  · have hok : ResourceSlot.named ctype role name =
        .ok ⟨role, name, by simp [hrole, ne_nil_of_validSlotName hname]⟩ := by
      rw [named, Raw.require_of]
      simp only [bind, Except.bind, hrole, hname, ↓reduceDIte]
      rfl
    refine Checks.of_ok hname hok ?_
    intro slot
    rw [eq_comm, ResourceSlot.ext_iff]
  · refine Checks.of_error hname ?_
    simp [named, hrole, hname, raise, bind, Except.bind]

/-- With a NUL-free value and a name the policy does not own, the constructor of
`environment_variable` checks the name. -/
theorem EnvironmentVariable.make_checks {name value : Str} (hnul : containsNul value.val = false)
    (hreserved : reservedEnvironmentName name.val = false) (ctype : Ctype) :
    Checks (EnvironmentVariable.make ctype name value)
      (Token (fun c => ctype.isalpha c = true ∨ c = 0x5f)
        (fun c => ctype.isalnum c = true ∨ c = 0x5f) name.val)
      (fun v => v.name = name ∧ v.value = value)
      ⟨.invalidPolicy, text "environment variables require a valid name and NUL-free value"⟩ := by
  rw [← ctype.validEnvironmentName_iff]
  by_cases hname : validEnvironmentName ctype name.val = true
  · have hcheck : checkEnvironmentVariable ctype name.val value.val = .ok () := by
      simp [checkEnvironmentVariable, hname, hnul, hreserved]
    have hok : EnvironmentVariable.make ctype name value = .ok ⟨name, value, ctype, hcheck⟩ := by
      unfold make
      split
      · rfl
      · rename_i e he
        exact absurd (he.symm.trans hcheck) (by simp)
    refine Checks.of_ok hname hok ?_
    intro v
    rw [eq_comm, EnvironmentVariable.ext_iff]
  · have hcheck : checkEnvironmentVariable ctype name.val value.val = raise .invalidPolicy
        (text "environment variables require a valid name and NUL-free value") := by
      simp [checkEnvironmentVariable, hname]
    refine Checks.of_error hname ?_
    unfold make
    split
    · rename_i h
      exact absurd (hcheck.symm.trans h) raise_ne_ok
    · rename_i e he
      exact congrArg Except.error (Except.error.inj (he.symm.trans hcheck))

/-- **Names are ASCII but for the letters of the locale.**  A slot name is decided as its ASCII
grammar has it unless it is foreign, and so is the name of an environment variable.  Two locales
have the same outcome for a name unless it is foreign to one of them only. -/
theorem name_admission (ctype other : Ctype) :
    (∀ (role : ResourceRole) (name : Str), isNamedRole role = true →
      (((∃ slot, ResourceSlot.named ctype role name = .ok slot) ↔ AsciiSlotName name.val) ↔
        ¬ ForeignSlotName ctype name.val) ∧
      (ResourceSlot.named ctype role name = ResourceSlot.named other role name ↔
        (ForeignSlotName ctype name.val ↔ ForeignSlotName other name.val))) ∧
    ∀ name value : Str, containsNul value.val = false →
      reservedEnvironmentName name.val = false →
      (((∃ v, EnvironmentVariable.make ctype name value = .ok v) ↔
          AsciiEnvironmentName name.val) ↔ ¬ ForeignEnvironmentName ctype name.val) ∧
      (EnvironmentVariable.make ctype name value = EnvironmentVariable.make other name value ↔
        (ForeignEnvironmentName ctype name.val ↔ ForeignEnvironmentName other name.val)) := by
  constructor
  · intro role name hrole
    have hctype := ResourceSlot.named_checks hrole ctype name
    have hother := ResourceSlot.named_checks hrole other name
    constructor
    · rw [hctype.accepts, ← ctype.foreignSlotName_iff]
      exact ctype.slot_extends.agrees_iff
    · rw [hctype.eq_iff hother, ← ctype.foreignSlotName_iff, ← other.foreignSlotName_iff]
      exact ctype.slot_extends.agree_iff other.slot_extends
  · intro name value hnul hreserved
    have hctype := EnvironmentVariable.make_checks hnul hreserved ctype
    have hother := EnvironmentVariable.make_checks hnul hreserved other
    constructor
    · rw [hctype.accepts, ← ctype.foreignEnvironmentName_iff]
      exact ctype.environment_extends.agrees_iff
    · rw [hctype.eq_iff hother, ← ctype.foreignEnvironmentName_iff,
        ← other.foreignEnvironmentName_iff]
      exact ctype.environment_extends.agree_iff other.environment_extends

/-- **The ASCII locales.**  Every name is decided as in ASCII exactly under the locales that have
no letter and no digit beyond it. -/
theorem names_ascii_iff (ctype : Ctype) :
    ((∀ name, validSlotName ctype name = true ↔ AsciiSlotName name) ∧
        ∀ name, validEnvironmentName ctype name = true ↔ AsciiEnvironmentName name) ↔
      ∀ c, 128 ≤ c → ctype.isalnum c = false ∧ ctype.isalpha c = false := by
  simp only [ctype.validSlotName_iff, ctype.validEnvironmentName_iff]
  have hslot := ctype.slot_extends.exact_iff ⟨0x41, rfl⟩
  have henvironment := ctype.environment_extends.exact_iff ⟨0x5f, Or.inr rfl⟩
  refine (and_congr hslot henvironment).trans ?_
  constructor
  · rintro ⟨hs, he⟩ c hc
    have hnot : ¬ IsAscii c := not_isAscii.mpr hc
    have halnum : ctype.isalnum c ≠ true := (hs c hnot).1
    have halpha : ctype.isalpha c ≠ true := fun h => (he c hnot).1 (Or.inl h)
    exact ⟨Bool.eq_false_of_not_eq_true halnum, Bool.eq_false_of_not_eq_true halpha⟩
  · intro hnone
    constructor
    · intro c hnot
      have halnum := (hnone c (not_isAscii.mp hnot)).1
      refine ⟨by simp [halnum], ?_⟩
      rintro (h | h)
      · simp [halnum] at h
      · exact hnot (punctuation_low c h)
    · intro c hnot
      obtain ⟨halnum, halpha⟩ := hnone c (not_isAscii.mp hnot)
      have hunderscore : c ≠ 0x5f := by
        rintro rfl
        exact hnot (by decide)
      exact ⟨by simp [halpha, hunderscore], by simp [halnum, hunderscore]⟩

/-! ## 4. A locale with letters beyond ASCII

ISO 8859-1 has one byte for `é`, and that byte is a letter there. -/

/-- The letters of ISO 8859-1 from 128 on. -/
def latin1Letter (c : UInt8) : Bool :=
  c == 0xaa || c == 0xb5 || c == 0xba || (0xc0 ≤ c && c != 0xd7 && c != 0xf7)

theorem latin1Letter_of_lt {c : UInt8} (hc : c < 128) : latin1Letter c = false := by
  refine Bool.eq_false_of_not_eq_true ?_
  intro h
  simp only [latin1Letter, Bool.or_eq_true, beq_iff_eq, Bool.and_eq_true, decide_eq_true_eq] at h
  rcases h with ((rfl | rfl) | rfl) | ⟨⟨h, -⟩, -⟩
  · exact absurd hc (by decide)
  · exact absurd hc (by decide)
  · exact absurd hc (by decide)
  · exact absurd (lt_of_le_of_lt h hc) (by decide)

/-- `<cctype>` under a locale of that character set. -/
def Ctype.latin1 : Ctype where
  isalnum c := asciiAlnum c || latin1Letter c
  isalpha c := asciiAlpha c || latin1Letter c
  isalnum_ascii := by
    intro c hc
    simp [latin1Letter_of_lt hc]
  isalpha_ascii := by
    intro c hc
    simp [latin1Letter_of_lt hc]

/-- The name of the one byte `é` in ISO 8859-1. -/
def accentedName : Str := ⟨[0xe9], by decide⟩

/-- Under the locale of ISO 8859-1 the byte `é` names a source tree and an environment variable.
It is no ASCII name, and the locale `"C"` refuses it. -/
theorem accentedName_admitted :
    ((∃ slot, ResourceSlot.named .latin1 ResourceRole.sourceTree accentedName = .ok slot) ∧
      ¬ AsciiSlotName accentedName.val ∧
      ¬ ∃ slot, ResourceSlot.named .c ResourceRole.sourceTree accentedName = .ok slot) ∧
    (∃ v, EnvironmentVariable.make .latin1 accentedName .nil = .ok v) ∧
      ¬ AsciiEnvironmentName accentedName.val ∧
      ¬ ∃ v, EnvironmentVariable.make .c accentedName .nil = .ok v := by
  have hslot := @ResourceSlot.named_checks .sourceTree rfl
  have hvariable := @EnvironmentVariable.make_checks accentedName .nil rfl (by decide)
  refine ⟨⟨(hslot .latin1 accentedName).accepts.mpr (by decide), by decide, ?_⟩,
    (hvariable .latin1).accepts.mpr (by decide), by decide, ?_⟩
  · rw [(hslot .c accentedName).accepts]
    decide
  · rw [(hvariable .c).accepts]
    decide

end Pkgexec
