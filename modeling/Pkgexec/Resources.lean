/-
# Layouts and concrete resources

Which lists of bindings are layouts, how a binding is found in one (`src/model.cpp`), and which
concrete resources a backend is given for a request (`src/backend.cpp`).

Both sides sort first and look for repetitions among neighbours afterwards.  For bindings this
works because the slot is the first component they are compared by; for materializations because
they are sorted by the resource identity and by nothing else -- equal ones may come in any order,
and are refused.  What is left is strictly increasing in the key that `std::lower_bound` looks up.
-/
import Pkgexec.Control

namespace Pkgexec

open Bytes Ranges

/-! ## 1. Finding by a key

`std::lower_bound` on a list that is strictly increasing in a key leads to the element with that
key, if there is one.  Bindings and materializations are both looked up in this way. -/

section Find

variable {α β : Type} [LinearOrder β] {key : α → β} {l : List α} {code : ErrorCode}
  {message : Bytes}

/-- `std::lower_bound`, and an error when what it found has another key. -/
def findOrRaise (key : α → β) (l : List α) (b : β) (code : ErrorCode) (message : Bytes) :
    Except Error α :=
  match lookup key l b with
  | none => raise code message
  | some found => .ok found

variable (h : l.Pairwise (fun a b => key a < key b)) {a : α} {b : β}

include h

theorem findOrRaise_eq_ok :
    findOrRaise key l b code message = .ok a ↔ a ∈ l ∧ key a = b := by
  rw [← lookup_eq_some h, findOrRaise]
  split
  · rename_i hnone
    simp [hnone]
  · rename_i found hsome
    rw [hsome, Except.ok.injEq, Option.some.injEq]

theorem findOrRaise_raises (hno : ¬ ∃ a ∈ l, key a = b) :
    Raises (findOrRaise key l b code message) code := by
  have hnone : lookup key l b = none := by
    rw [lookup_eq_none h]
    intro a ha hkey
    exact hno ⟨a, ha, hkey⟩
  rw [findOrRaise, hnone]
  exact ⟨_, rfl, rfl⟩

/-- **The element with a key is found, and it is the only one.** -/
theorem existsUnique_findOrRaise (hex : ∃ a ∈ l, key a = b) :
    ∃! a, (a ∈ l ∧ key a = b) ∧ findOrRaise key l b code message = .ok a := by
  obtain ⟨a, ha, hkey⟩ := hex
  refine ⟨a, ⟨⟨ha, hkey⟩, (findOrRaise_eq_ok h).mpr ⟨ha, hkey⟩⟩, ?_⟩
  rintro x ⟨⟨hx, hxkey⟩, -⟩
  exact eq_of_key_eq h hx ha (hxkey.trans hkey.symm)

end Find

/-! ## 2. Which lists are layouts

The search among neighbours and the loop over mount points, as statements about the list that was
given. -/

namespace ResourceLayout

section Sealing

variable [External] {bindings : Vec ResourceBinding} {wd : ResourceSlot}

/-- No two bindings with one slot, no two at one place, and one for the working directory. -/
structure Sealable (bindings : List ResourceBinding) (workingDirectory : ResourceSlot) : Prop where
  slots : (bindings.map (·.slot)).Nodup
  mountPoints : (bindings.map (·.mountPoint)).Nodup
  working : ∃ b ∈ bindings, b.slot = workingDirectory

omit [External] in
theorem sameSlot_none_iff {l : List ResourceBinding} :
    adjacentFind ResourceBinding.sameSlot (sort l) = none ↔ (l.map (·.slot)).Nodup := by
  have hsorted : (sort l).Pairwise (fun a b => a.slot ≤ b.slot) :=
    (sort_sorted l).imp ResourceBinding.slot_le
  have hslot : ∀ a b : ResourceBinding, ResourceBinding.sameSlot a b = true ↔ a.slot = b.slot :=
    fun _ _ => decide_eq_true_iff
  rw [adjacentFind_eq_none_iff hslot hsorted]
  exact ((sort_perm l).map _).nodup_iff

omit [External] in
theorem mountPoints_none_iff {l : List ResourceBinding} :
    firstRepeated (·.mountPoint) [] (sort l) = none ↔ (l.map (·.mountPoint)).Nodup := by
  rw [← ((sort_perm l).map _).nodup_iff]
  constructor
  · intro h
    exact (nodup_of_firstRepeated h).1
  · intro h
    exact firstRepeated_eq_none h (by simp)

/-- What is sealed was sealable, -/
theorem sealable_of_seal {l : ResourceLayout} (h : ResourceLayout.seal bindings wd = .ok l) :
    Sealable bindings.val wd := by
  unfold ResourceLayout.seal at h
  split at h
  · exact absurd h raise_ne_ok
  split at h
  · exact absurd h raise_ne_ok
  rename_i hslots
  split at h
  · exact absurd h raise_ne_ok
  rename_i hmounts
  split at h
  · rename_i hfound
    obtain ⟨b, hb, hwd⟩ := hfound
    exact ⟨sameSlot_none_iff.mp hslots, mountPoints_none_iff.mp hmounts, b, mem_sort.mp hb, hwd⟩
  · exact absurd h raise_ne_ok

/-- what is sealable is sealed, -/
theorem seal_of_sealable (h : Sealable bindings.val wd) :
    ∃ l, ResourceLayout.seal bindings wd = .ok l := by
  obtain ⟨b, hb, hwd⟩ := h.working
  have hslots : adjacentFind ResourceBinding.sameSlot (Vec.sorted bindings).val = none :=
    sameSlot_none_iff.mpr h.slots
  have hmounts : firstRepeated (·.mountPoint) [] (Vec.sorted bindings).val = none :=
    mountPoints_none_iff.mpr h.mountPoints
  unfold ResourceLayout.seal
  split
  · rename_i hempty
    rw [hempty] at hb
    exact absurd hb List.not_mem_nil
  split
  · rename_i hsome
    exact absurd (hslots.symm.trans hsome) (by simp)
  split
  · rename_i hsome
    exact absurd (hmounts.symm.trans hsome) (by simp)
  split
  · exact ⟨_, rfl⟩
  · rename_i hmissing
    exact absurd ⟨b, mem_sort.mpr hb, hwd⟩ hmissing

/-- and sealing puts it in order. -/
theorem perm_of_seal {l : ResourceLayout} (h : ResourceLayout.seal bindings wd = .ok l) :
    l.bindings.val.Perm bindings.val := by
  unfold ResourceLayout.seal at h
  split at h
  · exact absurd h raise_ne_ok
  split at h
  · exact absurd h raise_ne_ok
  split at h
  · exact absurd h raise_ne_ok
  split at h
  · obtain rfl := Except.ok.inj h
    exact sort_perm bindings.val
  · exact absurd h raise_ne_ok

end Sealing

/-! ## 3. Looking up a binding

Every layout is in order, whoever sealed it, so the lookup is exact for all of them. -/

section Lookup

variable [External]

/-- `resource_layout::binding`. -/
def binding (l : ResourceLayout) (slot : ResourceSlot) : Except Error ResourceBinding :=
  findOrRaise (·.slot) l.bindings.val slot .invalidValue
    (Bytes.text "unknown execution resource slot " ++ slot.text)

/-- **Sealing and lookup agree.**  A list of bindings is sealed exactly when no slot and no mount
point repeats and the working directory is bound; the sealed list is the given one in strictly
increasing order; and in any layout a slot leads to the one binding that has it. -/
theorem seal_and_lookup (bindings : Vec ResourceBinding) (wd : ResourceSlot) :
    ((∃ l, ResourceLayout.seal bindings wd = .ok l) ↔ (bindings.val.map (·.slot)).Nodup ∧
        (bindings.val.map (·.mountPoint)).Nodup ∧ ∃ b ∈ bindings.val, b.slot = wd) ∧
      (∀ l, ResourceLayout.seal bindings wd = .ok l →
        l.bindings.val.Perm bindings.val ∧ l.bindings.val.Pairwise (· < ·)) ∧
      (∀ (l : ResourceLayout) (s : ResourceSlot),
        ((∃ b ∈ l.bindings.val, b.slot = s) →
          ∃! b, (b ∈ l.bindings.val ∧ b.slot = s) ∧ l.binding s = .ok b) ∧
        ((¬ ∃ b ∈ l.bindings.val, b.slot = s) → Raises (l.binding s) .invalidValue)) := by
  refine ⟨?_, ?_, ?_⟩
  · constructor
    · rintro ⟨l, hl⟩
      have hs : Sealable bindings.val wd := sealable_of_seal hl
      exact ⟨hs.slots, hs.mountPoints, hs.working⟩
    · rintro ⟨hslots, hmounts, hworking⟩
      exact seal_of_sealable ⟨hslots, hmounts, hworking⟩
  · intro l hl
    exact ⟨perm_of_seal hl, l.strict⟩
  · intro l s
    exact ⟨existsUnique_findOrRaise l.slots_strict, findOrRaise_raises l.slots_strict⟩

end Lookup

end ResourceLayout

/-! ## 4. Concrete resources

Paths belong to the standard library and are a parameter: all that is used of one is whether it is
absolute and what its normal form is.  The materializations are sorted by a comparison that does
not tell equal resources apart, so any sort that the standard allows is admitted. -/

/-- What is used of `std::filesystem::path`. -/
class Filesystem where
  Path : Type
  /-- `path::empty`. -/
  isEmpty : Path → Bool
  /-- `path::is_absolute`. -/
  isAbsolute : Path → Bool
  /-- `path::lexically_normal`. -/
  lexicallyNormal : Path → Path

section Admission

variable [Filesystem]

/-- `path` is the normal form of an absolute path. -/
def NormalPath (path : Filesystem.Path) : Prop :=
  ∃ given, (Filesystem.isEmpty given = false ∧ Filesystem.isAbsolute given = true) ∧
    path = Filesystem.lexicallyNormal given

/-- `resource_materialization`. -/
@[ext] structure ResourceMaterialization where
  resource : ResourceIdentity
  hostPath : Filesystem.Path
  normal : NormalPath hostPath

namespace ResourceMaterialization

/-- The constructor. -/
def make (resource : ResourceIdentity) (hostPath : Filesystem.Path) :
    Except Error ResourceMaterialization :=
  if h : Filesystem.isEmpty hostPath = false ∧ Filesystem.isAbsolute hostPath = true then
    .ok ⟨resource, Filesystem.lexicallyNormal hostPath, hostPath, h, rfl⟩
  else raise .invalidPath (text "concrete execution resource paths must be absolute")

def sameResource (a b : ResourceMaterialization) : Bool := a.resource = b.resource

theorem sameResource_iff (a b : ResourceMaterialization) :
    sameResource a b = true ↔ a.resource = b.resource := decide_eq_true_iff

end ResourceMaterialization

/-- `execution_resources`: no resource has two materializations. -/
@[ext] structure ExecutionResources where
  rootView : RootViewIdentity
  rootViewPath : Filesystem.Path
  materializations : Vec ResourceMaterialization
  normal : NormalPath rootViewPath
  resources_strict : materializations.val.Pairwise (fun a b => a.resource < b.resource)

namespace ExecutionResources

/-- The comparison `admit` sorts with looks at the resource only. -/
abbrev ResourceSort := Sorter (fun m : ResourceMaterialization => m.resource)

theorem resources_strict_of_sorted {std : ResourceSort} {l : List ResourceMaterialization}
    (h : adjacentFind ResourceMaterialization.sameResource (std.sort l) = none) :
    (std.sort l).Pairwise (fun a b => a.resource < b.resource) :=
  strict_of_adjacentFind ResourceMaterialization.sameResource_iff (std.sorted l) h

variable [External]

/-- The resources a request binds, each of them once. -/
def required (request : ExecutionRequest) : List ResourceIdentity :=
  normalize (request.resources.bindings.val.map (·.resource))

/-- `execution_resources::admit`. -/
def admitResources (std : ResourceSort) (request : ExecutionRequest) (rootView : RootViewIdentity)
    (rootViewPath : Filesystem.Path) (materializations : Vec ResourceMaterialization) :
    Except Error ExecutionResources :=
  if rootView ≠ request.rootView then
    raise .resourceMismatch (text "concrete root view does not match the sealed request")
  else if hpath : Filesystem.isEmpty rootViewPath = false ∧
      Filesystem.isAbsolute rootViewPath = true then
    match hdup :
        adjacentFind ResourceMaterialization.sameResource (std.sort materializations.val) with
    | some _ => raise .duplicateResource (text "duplicate concrete execution resource identity")
    | none =>
      if (required request).length ≠ (std.sort materializations.val).length then
        raise .resourceMismatch
          (text "concrete execution resources do not exactly match the request")
      else if ((required request).zip (std.sort materializations.val)).any
          (fun pair => pair.1 ≠ pair.2.resource) = true then
        raise .resourceMismatch
          (text "concrete execution resource identity does not match the request")
      else .ok {
        rootView := rootView
        rootViewPath := Filesystem.lexicallyNormal rootViewPath
        materializations := ⟨std.sort materializations.val, by
          rw [(std.perm materializations.val).length_eq]
          exact materializations.property⟩
        normal := ⟨rootViewPath, hpath, rfl⟩
        resources_strict := resources_strict_of_sorted hdup }
  else raise .invalidPath (text "concrete root-view path must be absolute")

/-- `execution_resources::materialization`. -/
def materialization (r : ExecutionResources) (resource : ResourceIdentity) :
    Except Error ResourceMaterialization :=
  findOrRaise (·.resource) r.materializations.val resource .resourceMismatch
    (text "unknown concrete execution resource identity")

/-! ## 5. Admission is an exact cover

The source compares two increasing lists position by position: the resources that the bindings
name, each once, and those of the materializations.  They agree exactly when every resource has one
materialization and no other has any. -/

/-- The materializations of a request's resources, one for each of them. -/
structure Covers (request : ExecutionRequest) (materializations : List ResourceMaterialization) :
    Prop where
  nodup : (materializations.map (·.resource)).Nodup
  mem_iff : ∀ x, x ∈ materializations.map (·.resource) ↔
    ∃ b ∈ request.resources.bindings.val, b.resource = x

section Cover

variable {std : ResourceSort} {q : ExecutionRequest} {rv : RootViewIdentity}
  {path : Filesystem.Path} {ms : Vec ResourceMaterialization} {r : ExecutionResources}

omit [Filesystem] in
theorem mem_required {x : ResourceIdentity} :
    x ∈ required q ↔ ∃ b ∈ q.resources.bindings.val, b.resource = x := by
  rw [required, mem_normalize, List.mem_map]

omit [External] in
theorem sameResource_none_iff {l : List ResourceMaterialization} :
    adjacentFind ResourceMaterialization.sameResource (std.sort l) = none ↔
      (l.map (·.resource)).Nodup := by
  rw [adjacentFind_eq_none_iff ResourceMaterialization.sameResource_iff (std.sorted l)]
  exact ((std.perm l).map _).nodup_iff

/-- Two strictly increasing lists agree position by position when they have the same members. -/
theorem required_eq_iff {l : List ResourceMaterialization} (hnd : (l.map (·.resource)).Nodup) :
    required q = (std.sort l).map (·.resource) ↔ Covers q l := by
  have hmem : ∀ x, x ∈ (std.sort l).map (·.resource) ↔ x ∈ l.map (·.resource) :=
    fun x => ((std.perm l).map _).mem_iff
  constructor
  · intro heq
    refine ⟨hnd, ?_⟩
    intro x
    rw [← hmem, ← heq, mem_required]
  · intro hcovers
    have hstrict : ((std.sort l).map (·.resource)).Pairwise (· < ·) := by
      rw [List.pairwise_map]
      exact (strict_iff_nodup (std.sorted l)).mpr (((std.perm l).map _).nodup_iff.mpr hnd)
    refine eq_of_mem_iff (normalize_strict _) hstrict ?_
    intro x
    exact mem_required.trans ((hcovers.mem_iff x).symm.trans (hmem x).symm)

/-- What was admitted, and what it was checked for. -/
theorem admitResources_ok (h : admitResources std q rv path ms = .ok r) :
    (rv = q.rootView ∧
        (Filesystem.isEmpty path = false ∧ Filesystem.isAbsolute path = true) ∧
        Covers q ms.val) ∧
      r.rootView = rv ∧ r.rootViewPath = Filesystem.lexicallyNormal path ∧
      r.materializations.val = std.sort ms.val := by
  unfold admitResources at h
  split at h
  · exact absurd h raise_ne_ok
  rename_i hroot
  split at h
  · rename_i hpath
    split at h
    · exact absurd h raise_ne_ok
    rename_i hdup
    split at h
    · exact absurd h raise_ne_ok
    rename_i hlength
    split at h
    · exact absurd h raise_ne_ok
    rename_i hany
    obtain rfl := Except.ok.inj h
    have hequal : required q = (std.sort ms.val).map (·.resource) :=
      (zip_any_ne_eq_false (not_not.mp hlength)).mp (Bool.not_eq_true _ ▸ hany)
    have hcovers : Covers q ms.val := (required_eq_iff (sameResource_none_iff.mp hdup)).mp hequal
    exact ⟨⟨not_not.mp hroot, hpath, hcovers⟩, rfl, rfl, rfl⟩
  · exact absurd h raise_ne_ok

theorem admitResources_of_covers (hroot : rv = q.rootView)
    (hpath : Filesystem.isEmpty path = false ∧ Filesystem.isAbsolute path = true)
    (hcovers : Covers q ms.val) : ∃ r, admitResources std q rv path ms = .ok r := by
  have hdup : adjacentFind ResourceMaterialization.sameResource (std.sort ms.val) = none :=
    sameResource_none_iff.mpr hcovers.nodup
  have hequal : required q = (std.sort ms.val).map (·.resource) :=
    (required_eq_iff hcovers.nodup).mpr hcovers
  have hlength : (required q).length = (std.sort ms.val).length := by
    rw [hequal, List.length_map]
  unfold admitResources
  rw [if_neg (not_not.mpr hroot), dif_pos hpath]
  split
  · rename_i hsome
    exact absurd (hdup.symm.trans hsome) (by simp)
  rw [if_neg (not_not.mpr hlength), (zip_any_ne_eq_false hlength).mpr hequal, if_neg (by simp)]
  exact ⟨_, rfl⟩

end Cover

/-- **Admission is an exact cover.**  Resources are admitted exactly when they are for the
request's root view, at an absolute path, and the materializations are one for each resource
that a binding uses.  Each such resource then leads to the one materialization it was given,
and no other identity leads to any. -/
theorem admission_exact_cover (std : ResourceSort) (q : ExecutionRequest) (rv : RootViewIdentity)
    (path : Filesystem.Path) (ms : Vec ResourceMaterialization) :
    ((∃ r, admitResources std q rv path ms = .ok r) ↔
        rv = q.rootView ∧
          (Filesystem.isEmpty path = false ∧ Filesystem.isAbsolute path = true) ∧
          (ms.val.map (·.resource)).Nodup ∧
          ∀ x, x ∈ ms.val.map (·.resource) ↔ ∃ b ∈ q.resources.bindings.val, b.resource = x) ∧
      (∀ r, admitResources std q rv path ms = .ok r → ∀ x,
        ((∃ b ∈ q.resources.bindings.val, b.resource = x) →
          ∃! m, (m ∈ ms.val ∧ m.resource = x) ∧ r.materialization x = .ok m) ∧
        ((¬ ∃ b ∈ q.resources.bindings.val, b.resource = x) →
          Raises (r.materialization x) .resourceMismatch)) := by
  constructor
  · constructor
    · rintro ⟨r, hr⟩
      obtain ⟨⟨hroot, hpath, hcovers⟩, -⟩ := admitResources_ok hr
      exact ⟨hroot, hpath, hcovers.nodup, hcovers.mem_iff⟩
    · rintro ⟨hroot, hpath, hnodup, hmem⟩
      exact admitResources_of_covers hroot hpath ⟨hnodup, hmem⟩
  · intro r hr x
    obtain ⟨⟨-, -, hcovers⟩, -, -, hlist⟩ := admitResources_ok hr
    have hmem : ∀ m, m ∈ r.materializations.val ↔ m ∈ ms.val := by
      intro m
      rw [hlist]
      exact (std.perm ms.val).mem_iff
    have hbound : (∃ b ∈ q.resources.bindings.val, b.resource = x) ↔
        ∃ m ∈ r.materializations.val, m.resource = x := by
      rw [← hcovers.mem_iff, List.mem_map]
      exact exists_congr (fun m => and_congr_left (fun _ => (hmem m).symm))
    rw [hbound]
    refine ⟨?_, findOrRaise_raises r.resources_strict⟩
    intro hex
    obtain ⟨m, ⟨hm, hfound⟩, hunique⟩ := existsUnique_findOrRaise r.resources_strict hex
    refine ⟨m, ⟨⟨(hmem m).mp hm.1, hm.2⟩, hfound⟩, ?_⟩
    rintro y ⟨⟨hy, hyx⟩, hyfound⟩
    exact hunique y ⟨⟨(hmem y).mpr hy, hyx⟩, hyfound⟩

end ExecutionResources

end Admission

end Pkgexec
