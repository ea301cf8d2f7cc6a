/-
# What a logical path is

`logical_path::parse` (`src/model.cpp`) reads a string from left to right, component by
component.  What it accepts is the canonical absolute paths: `/`, and the strings
`/c₁/c₂.../cₙ` whose components are not empty, are neither `.` nor `..`, and have no slash and
no NUL in them (`parse_iff_canonical`).

* Sections 1 and 2 compare the scanning loop with `List.splitOn`, on every string.
* Section 3 repeats the function with every access checked: a `front()` of an empty string, a
  `substr` past the end or a difference of sizes that wraps would show as `none`.
* Sections 4 and 5 are the grammar, and the bijection between paths and lists of components.
-/
import Pkgexec.Model

namespace Pkgexec

open Bytes

/-! ## 1. Pieces between separators

A string that begins with a separator is the separator before each of its pieces.  Mathlib's
`List.splitOn` cuts it, and joins it again. -/

section Pieces

variable {α : Type} [BEq α] [LawfulBEq α] {sep : α}

/-- No piece has a separator in it. -/
theorem not_mem_of_mem_splitOn {l c : List α} (h : c ∈ l.splitOn sep) : sep ∉ c := by
  induction l generalizing c with
  | nil =>
    rw [List.splitOn_nil, List.mem_singleton] at h
    simp [h]
  | cons x l ih =>
    rw [List.splitOn_cons_eq_if_modifyHead] at h
    split at h
    · rcases List.mem_cons.mp h with rfl | hmem
      · simp
      · exact ih hmem
    · rename_i hx
      cases hpieces : l.splitOn sep with
      | nil => exact absurd hpieces (List.splitOn_ne_nil sep l)
      | cons d ds =>
        rw [hpieces, List.modifyHead_cons] at h
        rcases List.mem_cons.mp h with rfl | hmem
        · have hd : sep ∉ d := ih (by simp [hpieces])
          intro hsep
          rcases List.mem_cons.mp hsep with rfl | hrest
          · exact hx (beq_self_eq_true sep)
          · exact hd hrest
        · exact ih (by simp [hpieces, hmem])

omit [BEq α] [LawfulBEq α] in
/-- A separator before every piece instead of between them. -/
theorem flatMap_cons_eq_intercalate {cs : List (List α)} (h : cs ≠ []) :
    cs.flatMap (sep :: ·) = sep :: [sep].intercalate cs := by
  induction cs with
  | nil => exact absurd rfl h
  | cons c cs ih =>
    cases cs with
    | nil => simp
    | cons d ds =>
      rw [List.flatMap_cons, ih (by simp), List.intercalate_cons_cons]
      simp

theorem flatMap_cons_splitOn (l : List α) : (l.splitOn sep).flatMap (sep :: ·) = sep :: l := by
  rw [flatMap_cons_eq_intercalate (List.splitOn_ne_nil sep l), List.intercalate_splitOn]

theorem splitOn_of_flatMap {l : List α} {cs : List (List α)} (hne : cs ≠ [])
    (hcs : ∀ c ∈ cs, sep ∉ c) (h : sep :: l = cs.flatMap (sep :: ·)) : l.splitOn sep = cs := by
  rw [flatMap_cons_eq_intercalate hne] at h
  obtain ⟨-, rfl⟩ := List.cons.inj h
  exact List.splitOn_intercalate sep hcs hne

/-- A piece is made of elements of the list. -/
theorem mem_of_mem_splitOn {l c : List α} {x : α} (h : c ∈ l.splitOn sep) (hx : x ∈ c) :
    x ∈ l := by
  have hne : x ≠ sep := by
    rintro rfl
    exact not_mem_of_mem_splitOn h hx
  have hmem : x ∈ (l.splitOn sep).flatMap (sep :: ·) :=
    List.mem_flatMap.mpr ⟨c, h, List.mem_cons_of_mem sep hx⟩
  rw [flatMap_cons_splitOn] at hmem
  exact (List.mem_cons.mp hmem).resolve_left hne

end Pieces

/-! ## 2. The scanning loop

`find` gives the first slash at or after a position, and that is where the first piece ends.  So a
round of the loop and one step of `splitOn` take off the same component. -/

/-- What the loop asks of a component. -/
def Normal (component : Bytes) : Prop :=
  ¬ (component = [] ∨ component = text "." ∨ component = text "..")

/-- Without a slash the rest is one piece, -/
theorem find_eq_none {value : Bytes} {ch : UInt8} {pos : Nat} :
    find value ch pos = none ↔ ch ∉ value.drop pos := by
  simp only [find, Option.map_eq_none_iff, List.findIdx?_eq_none_iff, beq_eq_false_iff_ne]
  constructor
  · intro h hmem
    exact h ch hmem rfl
  · intro h x hx
    rintro rfl
    exact h hx

/-- and with one it is cut there. -/
theorem find_eq_some {value : Bytes} {ch : UInt8} {pos last : Nat}
    (h : find value ch pos = some last) :
    ∃ pre post, value.drop pos = pre ++ ch :: post ∧ ch ∉ pre ∧ last = pos + pre.length := by
  obtain ⟨i, hi, rfl⟩ := Option.map_eq_some_iff.mp h
  obtain ⟨hlt, heq, hbefore⟩ := List.findIdx?_eq_some_iff_getElem.mp hi
  refine ⟨(value.drop pos).take i, (value.drop pos).drop (i + 1), ?_, ?_, ?_⟩
  · have hcut := List.take_append_drop i (value.drop pos)
    rw [List.drop_eq_getElem_cons hlt, eq_of_beq heq] at hcut
    exact hcut.symm
  · intro hmem
    obtain ⟨j, hj, hch⟩ := List.getElem_of_mem hmem
    rw [List.length_take] at hj
    rw [List.getElem_take] at hch
    exact hbefore j (by omega) (beq_iff_eq.mpr hch)
  · rw [List.length_take]
    omega

/-- **The loop reads the pieces between slashes.**  By induction along the loop: a slash that is
found ends the first piece, and the rest of the string is the next round's. -/
theorem scanComponents_eq_ok {value : Bytes} {first : Nat} (h : first ≤ value.length) :
    scanComponents value first = .ok () ↔ ∀ c ∈ (value.drop first).splitOn 0x2f, Normal c := by
  fun_induction scanComponents value first with
  | case1 first hle hend component hbad =>
    have hcomponent : component = value.drop first :=
      List.take_of_length_le (by simp)
    rw [List.splitOn_eq_singleton (find_eq_none.mp hend)]
    simp only [raise_ne_ok, List.mem_singleton, forall_eq, false_iff]
    intro hnormal
    exact hnormal (hcomponent ▸ hbad)
  | case2 first hle hend component hgood =>
    have hcomponent : component = value.drop first :=
      List.take_of_length_le (by simp)
    rw [List.splitOn_eq_singleton (find_eq_none.mp hend)]
    simp only [List.mem_singleton, forall_eq, true_iff]
    rw [← hcomponent]
    exact hgood
  | case3 first hle last hend component hbad =>
    obtain ⟨pre, post, hcut, hpre, rfl⟩ := find_eq_some hend
    have hcomponent : component = pre := by
      simp [component, hcut]
    rw [hcut, List.splitOn_append_cons_self_of_not_mem hpre]
    simp only [raise_ne_ok, List.mem_cons, forall_eq_or_imp, false_iff, not_and]
    intro hnormal
    exact absurd (hcomponent ▸ hbad) hnormal
  | case4 first hle last hend component hgood ih =>
    obtain ⟨pre, post, hcut, hpre, rfl⟩ := find_eq_some hend
    have hcomponent : component = pre := by
      simp [component, hcut]
    have hlength : value.length - first = pre.length + (post.length + 1) := by
      have hlen := congrArg List.length hcut
      simpa using hlen
    have hrest : value.drop (first + pre.length + 1) = post := by
      rw [Nat.add_assoc, ← List.drop_drop, hcut, List.drop_append]
      simp
    rw [ih (by omega), hrest, hcut, List.splitOn_append_cons_self_of_not_mem hpre]
    simp only [List.mem_cons, forall_eq_or_imp]
    constructor
    · intro hnormal
      exact ⟨hcomponent ▸ hgood, hnormal⟩
    · rintro ⟨-, hnormal⟩
      exact hnormal
  | case5 first hlt => exact absurd h hlt

/-- The loop refuses with one code, -/
theorem scanComponents_error {value : Bytes} {first : Nat} {e : Error}
    (h : scanComponents value first = .error e) : e.code = .invalidPath := by
  fun_induction scanComponents value first with
  | case1 =>
    obtain rfl := Except.error.inj h
    rfl
  | case3 =>
    obtain rfl := Except.error.inj h
    rfl
  | case4 first hle last hend component hgood ih => exact ih h
  | _ => exact absurd h (by simp)

/-- and so does the whole check. -/
theorem checkLogicalPath_error {value : Bytes} {e : Error}
    (h : checkLogicalPath value = .error e) : e.code = .invalidPath := by
  unfold checkLogicalPath at h
  split at h
  · obtain rfl := Except.error.inj h
    rfl
  · split at h
    · exact absurd h (by simp)
    · split at h
      · obtain rfl := Except.error.inj h
        rfl
      · exact scanComponents_error h

/-- After the leading slash: a string without NUL whose pieces are normal.  A trailing slash is
an empty last piece, so the check for one refuses nothing more. -/
theorem checkLogicalPath_eq_ok {value : Bytes} :
    checkLogicalPath value = .ok () ↔ value = text "/" ∨
      ∃ rest, value = 0x2f :: rest ∧ 0 ∉ rest ∧ ∀ c ∈ rest.splitOn 0x2f, Normal c := by
  unfold checkLogicalPath
  split
  · rename_i hbad
    simp only [raise_ne_ok, false_iff, not_or, not_exists, not_and]
    constructor
    · rintro rfl
      exact absurd hbad (by decide)
    · rintro rest rfl hnul
      simp [containsNul, hnul] at hbad
  · rename_i hstart
    simp only [not_or, Decidable.not_not, Bool.not_eq_true] at hstart
    obtain ⟨hne, hhead, hnul⟩ := hstart
    obtain ⟨rest, rfl⟩ : ∃ rest, value = 0x2f :: rest := by
      cases value with
      | nil => exact absurd rfl hne
      | cons b rest =>
        obtain rfl := Option.some.inj hhead
        exact ⟨rest, rfl⟩
    have hnul' : (0 : UInt8) ∉ rest := by
      simpa [containsNul] using hnul
    split
    · rename_i hroot
      simp [hroot]
    · rename_i hroot
      split
      · rename_i htrailing
        obtain ⟨hlen, hlast⟩ := htrailing
        simp only [raise_ne_ok, false_iff, not_or, not_exists, not_and]
        refine ⟨hroot, ?_⟩
        intro rest' heq _ hnormal
        obtain ⟨-, rfl⟩ := List.cons.inj heq
        -- the last piece is empty
        have hpos : rest ≠ [] := by
          rintro rfl
          simp at hlen
        obtain ⟨pre, rfl⟩ : ∃ pre, rest = pre ++ [0x2f] := by
          rw [List.getLast?_cons_of_ne_nil hpos] at hlast
          exact ⟨rest.dropLast, (List.dropLast_append_getLast? _ hlast).symm⟩
        rw [List.splitOn_append_cons_self] at hnormal
        exact hnormal [] (by simp) (.inl rfl)
      · rw [scanComponents_eq_ok (by simp)]
        constructor
        · intro hnormal
          exact .inr ⟨rest, rfl, hnul', hnormal⟩
        · rintro (hroot' | ⟨rest', heq, -, hnormal⟩)
          · exact absurd hroot' hroot
          · obtain ⟨-, rfl⟩ := List.cons.inj heq
            exact hnormal

/-! ## 3. Every access in range

The functions of the source that would throw or wrap around are partial here.  The checked copy
returns what the model returns, on every string, so no access of the source leaves its string. -/

/-- `a - b` on `std::size_t`, when it does not wrap. -/
def sub? (a b : Nat) : Option Nat := if b ≤ a then some (a - b) else none

/-- `value.substr(pos, count)`, when `pos` is not past the end. -/
def substr? (value : Bytes) (pos count : Nat) : Option Bytes :=
  if pos ≤ value.length then some ((value.drop pos).take count) else none

/-- The component that starts at `first`, as long as the distance to where it ends. -/
def component? (value : Bytes) (first stop : Nat) : Option Bytes := do
  let length ← sub? stop first
  substr? value first length

/-- `scanComponents`, with every access checked. -/
def scanComponents? (value : Bytes) (first : Nat) : Option (Except Error Unit) :=
  if first ≤ value.length then
    match hend : find value 0x2f first with
    | none => do
      let component ← component? value first value.length
      if component = [] ∨ component = text "." ∨ component = text ".." then
        return raise .invalidPath
          (text "logical paths must be normalized without empty, dot, or parent components")
      else return .ok ()
    | some last => do
      let component ← component? value first last
      if component = [] ∨ component = text "." ∨ component = text ".." then
        return raise .invalidPath
          (text "logical paths must be normalized without empty, dot, or parent components")
      else scanComponents? value (last + 1)
  else return .ok ()
termination_by value.length + 1 - first
decreasing_by
  have := le_of_find hend
  omega

/-- `checkLogicalPath`, with every access checked; `||` and `&&` stop at what decides them. -/
def checkLogicalPath? (value : Bytes) : Option (Except Error Unit) := do
  let refused ←
    if value = [] then pure true
    else do
      let front ← value.head?
      pure (front ≠ 0x2f || containsNul value)
  if refused = true then
    return raise .invalidPath (text "logical paths must be non-empty absolute POSIX paths")
  if value = text "/" then
    return .ok ()
  let trailing ←
    if value.length > 1 then do
      let back ← value.getLast?
      pure (back == 0x2f)
    else pure false
  if trailing = true then
    return raise .invalidPath (text "logical paths must not contain a trailing slash")
  scanComponents? value 1

theorem component?_eq_some {value : Bytes} {first stop : Nat} (hfirst : first ≤ value.length)
    (hstop : first ≤ stop) :
    component? value first stop = some ((value.drop first).take (stop - first)) := by
  have hlength : sub? stop first = some (stop - first) := if_pos hstop
  have hsubstr : ∀ count, substr? value first count = some ((value.drop first).take count) :=
    fun _ => if_pos hfirst
  rw [component?, hlength]
  exact hsubstr _

/-- The loop never leaves the string. -/
theorem scanComponents?_eq (value : Bytes) (first : Nat) :
    scanComponents? value first = some (scanComponents value first) := by
  fun_induction scanComponents value first with
  | case1 first hle hend component hbad =>
    rw [scanComponents?, if_pos hle]
    split
    · rw [component?_eq_some hle hle]
      exact if_pos hbad
    · rename_i last heq
      exact absurd (hend.symm.trans heq) (by simp)
  | case2 first hle hend component hgood =>
    rw [scanComponents?, if_pos hle]
    split
    · rw [component?_eq_some hle hle]
      exact if_neg hgood
    · rename_i last heq
      exact absurd (hend.symm.trans heq) (by simp)
  | case3 first hle last hend component hbad =>
    rw [scanComponents?, if_pos hle]
    split
    · rename_i heq
      exact absurd (heq.symm.trans hend) (by simp)
    · rename_i last' heq
      obtain rfl := Option.some.inj (heq.symm.trans hend)
      rw [component?_eq_some hle (le_of_find hend)]
      exact if_pos hbad
  | case4 first hle last hend component hgood ih =>
    rw [scanComponents?, if_pos hle]
    split
    · rename_i heq
      exact absurd (heq.symm.trans hend) (by simp)
    · rename_i last' heq
      obtain rfl := Option.some.inj (heq.symm.trans hend)
      rw [component?_eq_some hle (le_of_find hend)]
      exact (if_neg hgood).trans ih
  | case5 first hlt =>
    rw [scanComponents?, if_neg hlt]
    rfl

/-- Nor do the checks around it. -/
theorem checkLogicalPath?_eq (value : Bytes) :
    checkLogicalPath? value = some (checkLogicalPath value) := by
  cases value with
  | nil => rfl
  | cons b rest =>
    by_cases hfront : b = 0x2f
    · subst hfront
      -- the last character of a string that is not empty
      obtain ⟨last, hlast⟩ : ∃ last, (0x2f :: rest).getLast? = some last :=
        ⟨_, List.getLast?_eq_some_getLast (by simp)⟩
      simp only [checkLogicalPath?, checkLogicalPath, scanComponents?_eq, hlast]
      by_cases hnul : containsNul (0x2f :: rest) = true
      · simp [hnul]
      · by_cases hroot : 0x2f :: rest = text "/"
        · obtain rfl : rest = [] := (List.cons.inj hroot).2
          simp [hnul, text]
        · by_cases htrailing : 0 < rest.length ∧ last = 0x2f
          · simp [hnul, hroot, htrailing]
          · by_cases hlength : 0 < rest.length
            · have hne : last ≠ 0x2f := fun h => htrailing ⟨hlength, h⟩
              simp [hnul, hroot, hlength, hne]
            · simp [hnul, hroot, hlength]
    · simp [checkLogicalPath?, checkLogicalPath, hfront]

/-! ## 4. The grammar

A path is rendered from its components, and the pieces of what was rendered are the components
again. -/

/-- **A component of a path.** -/
structure Component (c : Bytes) : Prop where
  nonempty : c ≠ []
  no_slash : 0x2f ∉ c
  no_nul : 0 ∉ c
  not_dot : c ≠ text "."
  not_parent : c ≠ text ".."

/-- The string of a list of components. -/
def renderPath : List Bytes → Bytes
  | [] => text "/"
  | c :: cs => (c :: cs).flatMap (0x2f :: ·)

theorem Component.normal {c : Bytes} (h : Component c) : Normal c := by
  rintro (hempty | hdot | hparent)
  · exact h.nonempty hempty
  · exact h.not_dot hdot
  · exact h.not_parent hparent

theorem component_of_mem_splitOn {rest c : Bytes} (hnul : 0 ∉ rest)
    (hnormal : ∀ c ∈ rest.splitOn 0x2f, Normal c) (h : c ∈ rest.splitOn 0x2f) : Component c where
  nonempty hempty := hnormal c h (.inl hempty)
  no_slash := not_mem_of_mem_splitOn h
  no_nul hmem := hnul (mem_of_mem_splitOn h hmem)
  not_dot hdot := hnormal c h (.inr (.inl hdot))
  not_parent hparent := hnormal c h (.inr (.inr hparent))

/-- The pieces of a string are the components it was rendered from. -/
theorem checkLogicalPath_iff {value : Bytes} :
    checkLogicalPath value = .ok () ↔
      ∃ cs : List Bytes, (∀ c ∈ cs, Component c) ∧ value = renderPath cs := by
  rw [checkLogicalPath_eq_ok]
  constructor
  · rintro (rfl | ⟨rest, rfl, hnul, hnormal⟩)
    · exact ⟨[], by simp, rfl⟩
    · refine ⟨rest.splitOn 0x2f, fun c hc => component_of_mem_splitOn hnul hnormal hc, ?_⟩
      cases hpieces : rest.splitOn 0x2f with
      | nil => exact absurd hpieces (List.splitOn_ne_nil _ _)
      | cons c cs =>
        rw [renderPath, ← hpieces, flatMap_cons_splitOn]
  · rintro ⟨cs, hcs, rfl⟩
    cases cs with
    | nil => exact .inl rfl
    | cons c cs =>
      obtain ⟨rest, hrest⟩ : ∃ rest, renderPath (c :: cs) = 0x2f :: rest := ⟨_, rfl⟩
      have hsplit : rest.splitOn 0x2f = c :: cs :=
        splitOn_of_flatMap (by simp) (fun d hd => (hcs d hd).no_slash) hrest.symm
      refine .inr ⟨rest, hrest, ?_, ?_⟩
      · intro hnul
        have hmem : (0 : UInt8) ∈ renderPath (c :: cs) := by
          rw [hrest]
          exact List.mem_cons_of_mem _ hnul
        obtain ⟨d, hd, hzero⟩ := List.mem_flatMap.mp hmem
        rcases List.mem_cons.mp hzero with hslash | hzero
        · exact absurd hslash (by decide)
        · exact (hcs d hd).no_nul hzero
      · rw [hsplit]
        intro d hd
        exact (hcs d hd).normal

/-- The components of a canonical string. -/
def pathComponents (value : Bytes) : List Bytes :=
  if value = text "/" then [] else (value.drop 1).splitOn 0x2f

theorem pathComponents_renderPath {cs : List Bytes} (h : ∀ c ∈ cs, Component c) :
    pathComponents (renderPath cs) = cs := by
  cases cs with
  | nil => rfl
  | cons c cs =>
    obtain ⟨rest, hrest⟩ : ∃ rest, renderPath (c :: cs) = 0x2f :: rest := ⟨_, rfl⟩
    have hsplit : rest.splitOn 0x2f = c :: cs :=
      splitOn_of_flatMap (by simp) (fun d hd => (h d hd).no_slash) hrest.symm
    have hroot : renderPath (c :: cs) ≠ text "/" := by
      intro heq
      have hempty : rest = [] := (List.cons.inj (hrest.symm.trans heq)).2
      rw [hempty, List.splitOn_nil] at hsplit
      exact (h c (by simp)).nonempty (List.cons.inj hsplit).1.symm
    rw [pathComponents, if_neg hroot, hrest]
    exact hsplit

/-! ## 5. Paths and their components

A `LogicalPath` is canonical by construction, so it has components, and they determine it. -/

namespace LogicalPath

/-- The components of a path. -/
def components (p : LogicalPath) : List Bytes := pathComponents p.value.val

theorem component_of_mem {p : LogicalPath} {c : Bytes} (h : c ∈ p.components) : Component c := by
  obtain ⟨cs, hcs, hvalue⟩ := checkLogicalPath_iff.mp p.parsed
  rw [components, hvalue, pathComponents_renderPath hcs] at h
  exact hcs c h

/-- A path is the string of its components. -/
theorem renderPath_components (p : LogicalPath) : renderPath p.components = p.value.val := by
  obtain ⟨cs, hcs, hvalue⟩ := checkLogicalPath_iff.mp p.parsed
  rw [components, hvalue, pathComponents_renderPath hcs]

theorem components_injective : Function.Injective components := by
  intro p q h
  have hvalue : p.value.val = q.value.val := by
    rw [← p.renderPath_components, ← q.renderPath_components, h]
  exact LogicalPath.ext (Subtype.ext hvalue)

theorem parse_eq_ok {value : Str} {p : LogicalPath} :
    parse value = .ok p ↔ p.value = value := by
  unfold parse
  split
  · rename_i hparsed
    constructor
    · intro h
      obtain rfl := Except.ok.inj h
      rfl
    · rintro rfl
      rfl
  · rename_i e herror
    constructor
    · intro h
      exact absurd h (by simp)
    · rintro rfl
      exact absurd (p.parsed.symm.trans herror) (by simp)

theorem parse_error {value : Str} {e : Error} (h : parse value = .error e) :
    e.code = .invalidPath := by
  unfold parse at h
  split at h
  · exact absurd h (by simp)
  · rename_i e' herror
    obtain rfl := Except.error.inj h
    exact checkLogicalPath_error herror

/-- **`parse` accepts the canonical absolute paths.**  On every string it stays in range, accepts
the string exactly when it is `/` or `/c₁.../cₙ`, stores it as it is, and refuses every other
one with `invalid_path`.  Paths correspond one-to-one to lists of components, so comparing their
strings compares the paths, in lists of paths too. -/
theorem parse_iff_canonical (v : Str) :
    checkLogicalPath? v.val = some (checkLogicalPath v.val) ∧
      ((∃ p, parse v = .ok p) ↔ v.val = text "/" ∨
        ∃ cs : List Bytes, cs ≠ [] ∧ (∀ c ∈ cs, Component c) ∧ v.val = cs.flatMap (0x2f :: ·)) ∧
      ((¬ ∃ p, parse v = .ok p) → Raises (parse v) .invalidPath) ∧
      (∀ p, parse v = .ok p → p.value = v ∧
        ∃! cs : List Bytes, (∀ c ∈ cs, Component c) ∧ v.val = renderPath cs) ∧
      (∀ cs : List Bytes, (∀ c ∈ cs, Component c) → v.val = renderPath cs →
        ∃ p, parse v = .ok p ∧ p.components = cs) ∧
      (∀ p q : LogicalPath, p.value = q.value ↔ p.components = q.components) ∧
      (∀ ps : List LogicalPath, (ps.map value).Nodup ↔ (ps.map components).Nodup) := by
  have haccept : (∃ p, parse v = .ok p) ↔ checkLogicalPath v.val = .ok () := by
    constructor
    · rintro ⟨p, hp⟩
      exact parse_eq_ok.mp hp ▸ p.parsed
    · intro h
      exact ⟨⟨v, h⟩, parse_eq_ok.mpr rfl⟩
  refine ⟨checkLogicalPath?_eq v.val, ?_, ?_, ?_, ?_, ?_, ?_⟩
  · rw [haccept, checkLogicalPath_iff]
    constructor
    · rintro ⟨cs, hcs, hvalue⟩
      cases cs with
      | nil => exact .inl hvalue
      | cons c cs => exact .inr ⟨c :: cs, by simp, hcs, hvalue⟩
    · rintro (hroot | ⟨cs, hne, hcs, hvalue⟩)
      · exact ⟨[], by simp, hroot⟩
      · cases cs with
        | nil => exact absurd rfl hne
        | cons c cs => exact ⟨c :: cs, hcs, hvalue⟩
  · intro hrefused
    cases hparse : parse v with
    | ok p => exact absurd ⟨p, hparse⟩ hrefused
    | error e => exact ⟨e, rfl, parse_error hparse⟩
  · intro p hp
    obtain rfl := parse_eq_ok.mp hp
    refine ⟨rfl, p.components, ?_, ?_⟩
    · exact ⟨fun c hc => component_of_mem hc, p.renderPath_components.symm⟩
    · rintro cs ⟨hcs, hvalue⟩
      rw [components, hvalue, pathComponents_renderPath hcs]
  · intro cs hcs hvalue
    have hparsed : checkLogicalPath v.val = .ok () := checkLogicalPath_iff.mpr ⟨cs, hcs, hvalue⟩
    refine ⟨⟨v, hparsed⟩, parse_eq_ok.mpr rfl, ?_⟩
    show pathComponents v.val = cs
    rw [hvalue, pathComponents_renderPath hcs]
  · intro p q
    constructor
    · intro h
      rw [LogicalPath.ext h]
    · intro h
      rw [components_injective h]
  · intro ps
    rw [List.nodup_map_iff value_injective, List.nodup_map_iff components_injective]

end LogicalPath

end Pkgexec
