/-
# Execution values

The value classes of `src/model.cpp`.  Every class whose constructor is private is a structure
with a field for what its factories check, so a value of the type is a sealed value: a slot
whose name fits its role, a layout whose bindings are sorted by slot, an environment whose
variables are sorted by name, limits that are positive, and so on.  Each sealed value carries
the identity computed from its other fields.

`std::isalnum` and `std::isalpha` answer for the C locale of the process; a `Ctype` is one such
answer.
-/
import Pkgexec.Identity

namespace Pkgexec

open Bytes Ranges

/-! ## 1. Purposes and cancellation policies

Two values with an optional part that is there for some enumerators and absent for the others.  The
structures say which, so a purpose that is no lifecycle cannot carry an action. -/

/-- `execution_purpose`: only a lifecycle purpose carries an action. -/
@[ext] structure ExecutionPurpose where
  kind : ExecutionPurposeKind
  action : Option LifecycleAction
  lifecycle_iff : kind = .lifecycle ↔ action.isSome = true
  deriving DecidableEq

namespace ExecutionPurpose

def build : ExecutionPurpose := ⟨.build, none, by simp⟩

def check : ExecutionPurpose := ⟨.check, none, by simp⟩

def lifecycle (action : Raw LifecycleAction) : Except Error ExecutionPurpose := do
  let action ← action.require .invalidPurpose (text "unsupported package lifecycle action")
  return ⟨.lifecycle, some action, by simp⟩

end ExecutionPurpose

/-- `cancellation_policy`: exactly the enabled policies carry a grace period, and it is not 0. -/
@[ext] structure CancellationPolicy where
  mode : CancellationMode
  gracePeriodMilliseconds : Option UInt64
  grace_iff : mode ≠ .disabled ↔ gracePeriodMilliseconds.isSome = true
  grace_positive : gracePeriodMilliseconds ≠ some 0
  deriving DecidableEq

namespace CancellationPolicy

/-- The constructor, with its two checks. -/
def make (mode : CancellationMode) (grace : Option UInt64) : Except Error CancellationPolicy :=
  if hgrace : mode ≠ .disabled ↔ grace.isSome = true then
    if hpos : grace ≠ some 0 then .ok ⟨mode, grace, hgrace, hpos⟩
    else raise .invalidPolicy (text "cancellation grace period must be greater than zero")
  else raise .invalidPolicy (text "only enabled cancellation carries a grace period")

theorem none_ne_zero : (none : Option UInt64) ≠ some 0 := by simp

def disabled : CancellationPolicy := ⟨.disabled, none, by simp, none_ne_zero⟩

def gracefulThenForced (grace : UInt64) : Except Error CancellationPolicy :=
  make .gracefulThenForced (some grace)

end CancellationPolicy

/-! ## 2. Names

The validators ask `<cctype>`, whose answers depend on the locale of the process.  Below 128 all
locales agree with ASCII, and nothing is assumed of the bytes above. -/

/-- `isalpha` of ASCII. -/
def asciiAlpha (c : UInt8) : Bool := (0x41 ≤ c && c ≤ 0x5a) || (0x61 ≤ c && c ≤ 0x7a)

/-- `isalnum` of ASCII. -/
def asciiAlnum (c : UInt8) : Bool := asciiAlpha c || (0x30 ≤ c && c ≤ 0x39)

/-- `<cctype>` under one locale: on bytes 0-127 every locale agrees with ASCII. -/
structure Ctype where
  isalnum : UInt8 → Bool
  isalpha : UInt8 → Bool
  isalnum_ascii : ∀ c < 128, isalnum c = asciiAlnum c
  isalpha_ascii : ∀ c < 128, isalpha c = asciiAlpha c

/-- The locale `"C"`, in which a program starts. -/
def Ctype.c : Ctype := ⟨asciiAlnum, asciiAlpha, fun _ _ => rfl, fun _ _ => rfl⟩

def validSlotName (ctype : Ctype) : Bytes → Bool
  | [] => false
  | first :: rest =>
    ctype.isalnum first &&
      (first :: rest).all (fun ch => ctype.isalnum ch || (text "._+-").contains ch)

def validEnvironmentName (ctype : Ctype) : Bytes → Bool
  | [] => false
  | first :: rest =>
    (ctype.isalpha first || first == 0x5f) &&
      rest.all (fun ch => ctype.isalnum ch || ch == 0x5f)

def containsNul (value : Bytes) : Bool := value.contains 0

def reservedEnvironmentName (value : Bytes) : Bool :=
  [text "PATH", text "HOME", text "LANG", text "LC_ALL", text "TZ", text "TMPDIR",
    text "SOURCE_DATE_EPOCH", text "PKGEXEC_JOBS"].contains value

/-! ## 3. Logical paths

A path is scanned from one separator to the next.  The loop of the source runs on an index into the
text; here it is a recursion on that index, which `find` moves towards the end. -/

/-- `value.find(ch, pos)`. -/
def find (value : Bytes) (ch : UInt8) (pos : Nat) : Option Nat :=
  ((value.drop pos).findIdx? (· == ch)).map (pos + ·)

theorem le_of_find {value : Bytes} {ch : UInt8} {pos e : Nat} (h : find value ch pos = some e) :
    pos ≤ e := by
  obtain ⟨i, -, rfl⟩ := Option.map_eq_some_iff.mp h
  exact Nat.le_add_right _ _

/-- The loop of `logical_path::parse` over the components that start at `begin` and after. -/
def scanComponents (value : Bytes) (first : Nat) : Except Error Unit :=
  if first ≤ value.length then
    match hend : find value 0x2f first with
    | none =>
      let component := (value.drop first).take (value.length - first)
      if component = [] ∨ component = text "." ∨ component = text ".." then
        raise .invalidPath
          (text "logical paths must be normalized without empty, dot, or parent components")
      else .ok ()
    | some last =>
      let component := (value.drop first).take (last - first)
      if component = [] ∨ component = text "." ∨ component = text ".." then
        raise .invalidPath
          (text "logical paths must be normalized without empty, dot, or parent components")
      else scanComponents value (last + 1)
  else .ok ()
termination_by value.length + 1 - first
decreasing_by
  have := le_of_find hend
  omega

/-- What `logical_path::parse` checks. -/
def checkLogicalPath (value : Bytes) : Except Error Unit :=
  if value = [] ∨ value.head? ≠ some 0x2f ∨ containsNul value = true then
    raise .invalidPath (text "logical paths must be non-empty absolute POSIX paths")
  else if value = text "/" then .ok ()
  else if value.length > 1 ∧ value.getLast? = some 0x2f then
    raise .invalidPath (text "logical paths must not contain a trailing slash")
  else scanComponents value 1

/-- `logical_path`. -/
@[ext] structure LogicalPath where
  value : Str
  parsed : checkLogicalPath value.val = .ok ()

instance : DecidableEq LogicalPath := fun a b => decidable_of_iff (a.value = b.value)
  ⟨LogicalPath.ext, congrArg _⟩

namespace LogicalPath

def parse (value : Str) : Except Error LogicalPath :=
  match h : checkLogicalPath value.val with
  | .ok () => .ok ⟨value, h⟩
  | .error e => .error e

theorem value_injective : Function.Injective LogicalPath.value := fun _ _ h => LogicalPath.ext h

instance : LinearOrder LogicalPath := LinearOrder.lift' value value_injective

end LogicalPath

/-! ## 4. Slots and bindings

A slot is a role, with a name where the role may occur more than once.  A binding gives a slot a
resource, an access and a mount point, and the order of bindings begins with the slot. -/

def isNamedRole (role : ResourceRole) : Bool :=
  role == .sourceTree || role == .buildInputTree || role == .checkInputTree

/-- `resource_slot`: the named roles have a name, the others none. -/
@[ext] structure ResourceSlot where
  role : ResourceRole
  name : Str
  named_iff : isNamedRole role = true ↔ name.val ≠ []

namespace ResourceSlot

theorem key_injective :
    Function.Injective (fun s : ResourceSlot => toLex (s.role, s.name)) := by
  intro a b h
  have hkey : (a.role, a.name) = (b.role, b.name) := toLex.injective h
  exact ResourceSlot.ext (congrArg Prod.fst hkey) (congrArg Prod.snd hkey)

/-- `operator<` compares the role, then the name. -/
instance : LinearOrder ResourceSlot := LinearOrder.lift' _ key_injective

def singleton (role : Raw ResourceRole) : Except Error ResourceSlot := do
  let role ← role.require .invalidValue (text "unsupported execution resource role")
  if h : isNamedRole role = true then
    raise .invalidValue (text "source and package-input resource roles require a canonical name")
  else return ⟨role, .nil, by simp [h, Vec.nil]⟩

theorem ne_nil_of_validSlotName {ctype : Ctype} {name : Bytes} (h : validSlotName ctype name = true) :
    name ≠ [] := by
  rintro rfl
  simp [validSlotName] at h

def named (ctype : Ctype) (role : Raw ResourceRole) (name : Str) : Except Error ResourceSlot := do
  let role ← role.require .invalidValue (text "unsupported execution resource role")
  if hrole : isNamedRole role = true then
    if hname : validSlotName ctype name.val = true then
      return ⟨role, name, by simp [hrole, ne_nil_of_validSlotName hname]⟩
    else raise .invalidValue (text "resource slot names must be canonical ASCII tokens")
  else raise .invalidValue (text "only source and package-input resource roles may be named")

/-- `resource_slot::text`. -/
def text (slot : ResourceSlot) : Bytes :=
  if slot.name.val = [] then slot.role.toString
  else slot.role.toString ++ Bytes.text ":" ++ slot.name.val

end ResourceSlot

/-- Source, package and package-input resources. -/
def readOnlyRole (role : ResourceRole) : Bool :=
  role == .sourceTree || role == .buildInputTree || role == .checkInputTree || role == .packageTree

/-- Workspace, package-output and temporary resources. -/
def writableRole (role : ResourceRole) : Bool :=
  role == .buildWorkspace || role == .packageOutputRoot || role == .privateTemporaryRoot

/-- `resource_binding`: the role fixes the access, except for a managed target root. -/
@[ext] structure ResourceBinding where
  slot : ResourceSlot
  resource : ResourceIdentity
  access : ResourceAccess
  mountPoint : LogicalPath
  read_only : readOnlyRole slot.role = true → access = .readOnly
  is_writable : writableRole slot.role = true → access = .writable

namespace ResourceBinding

/-- The constructor. -/
def make (slot : ResourceSlot) (resource : ResourceIdentity) (access : Raw ResourceAccess)
    (mountPoint : LogicalPath) : Except Error ResourceBinding := do
  let access ← access.require .invalidPolicy (text "unsupported execution resource access policy")
  if hread : readOnlyRole slot.role = true → access = .readOnly then
    if hwrite : writableRole slot.role = true → access = .writable then
      return ⟨slot, resource, access, mountPoint, hread, hwrite⟩
    else
      raise .invalidPolicy
        (text "workspace, package-output, and temporary resources must be writable")
  else
    raise .invalidPolicy (text "source, package, and package-input resources must be read-only")

/-- The tuple `operator<` compares. -/
def key (b : ResourceBinding) :
    Lex (ResourceSlot × Lex (ResourceIdentity × Lex (ResourceAccess × LogicalPath))) :=
  toLex (b.slot, toLex (b.resource, toLex (b.access, b.mountPoint)))

theorem key_injective : Function.Injective key := by
  intro a b h
  simp only [key, EmbeddingLike.apply_eq_iff_eq, Prod.mk.injEq] at h
  obtain ⟨hslot, hresource, haccess, hmount⟩ := h
  exact ResourceBinding.ext hslot hresource haccess hmount

instance : LinearOrder ResourceBinding := LinearOrder.lift' key key_injective

/-- The slot is the first component of the order. -/
theorem slot_le {a b : ResourceBinding} (h : a ≤ b) : a.slot ≤ b.slot := by
  have hkey : a.key ≤ b.key := h
  rcases Prod.Lex.le_iff.mp hkey with hlt | ⟨heq, -⟩
  · exact le_of_lt hlt
  · exact le_of_eq heq

end ResourceBinding

end Pkgexec
