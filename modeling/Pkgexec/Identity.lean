/-
# Identities and the hash builder

`include/libpkgexec/identity.h` declares eleven value classes from one macro, each a string of
64 lowercase hexadecimal digits; `sha256_digest` of `model.h` is a twelfth.  Here they are one
structure, indexed by which class it is.

`identity_builder` (`src/identity_support.cpp`) feeds tagged, length-prefixed fields to SHA-256.
The model keeps the bytes fed so far, the *preimage*, and hashes them at `finish`.

What the library takes from elsewhere is the class `External`: SHA-256 of libcrypto, and the
program vocabulary of libpkgsource.  Hashing does not fail, so `identity_failed` never occurs.
-/
import Pkgexec.Lib.PrefixCode
import Pkgexec.Vocabulary

namespace Pkgexec

open Bytes

/-! ## 1. What comes from outside the library

Nothing is assumed of SHA-256 but the size of its digests.  Where a theorem needs that it tells
some bytes apart, it says which bytes. -/

/-- The 32 bytes SHA-256 returns. -/
abbrev Digest := {d : Bytes // d.length = 32}

/-- libcrypto and libpkgsource, as far as the library uses them. -/
class External where
  /-- `EVP_sha256`. -/
  sha256 : Bytes → Digest
  /-- `pkgsource::program_language`. -/
  ProgramLanguage : Type
  /-- `pkgsource::to_string(program_language)`. -/
  programLanguageToString : ProgramLanguage → Str
  /-- `pkgsource::to_string(lifecycle_action)`. -/
  lifecycleActionToString : LifecycleAction → Str

/-! ## 2. Identities

An identity is its text.  The text is kept with the proof that it is 64 digits, so it can be read
back as 32 bytes and compared as such. -/

/-- `detail::require_sha256_hex` accepts the text. -/
def IsSha256Hex (value : Bytes) : Prop := value.length = 64 ∧ ∀ c ∈ value, IsHexDigit c

instance (value : Bytes) : Decidable (IsSha256Hex value) := inferInstanceAs (Decidable (_ ∧ _))

/-- `detail::require_sha256_hex`, returning the evidence it checked. -/
def requireSha256Hex (value : Bytes) : Except Error (PLift (IsSha256Hex value)) :=
  if hlen : value.length ≠ 64 then
    raise .invalidIdentity (text "SHA-256 identity must contain exactly 64 hexadecimal digits")
  else if hdig : ∀ c ∈ value, IsHexDigit c then
    .ok ⟨not_not.mp hlen, hdig⟩
  else
    raise .invalidIdentity (text "SHA-256 identity must use lowercase hexadecimal digits")

theorem requireSha256Hex_ok {value : Bytes} (h : IsSha256Hex value) :
    requireSha256Hex value = .ok ⟨h⟩ := by
  rw [requireSha256Hex, dif_neg (not_not.mpr h.1), dif_pos h.2]

/-- The classes `PKGEXEC_DECLARE_IDENTITY` declares, and `sha256_digest`. -/
inductive IdentityKind
  | executionRequest
  | environmentPolicy
  | resourceLayout
  | credentialPolicy
  | resourceLimits
  | rootView
  | resource
  | interpreter
  | backend
  | backendCapabilityProfile
  | executionEvidence
  | sha256Digest
  deriving DecidableEq, Repr

/-- A value of one of the identity classes. -/
@[ext] structure Identity (kind : IdentityKind) where
  hex : Str
  isHex : IsSha256Hex hex.val
  deriving DecidableEq

abbrev ExecutionRequestIdentity := Identity .executionRequest
abbrev EnvironmentPolicyIdentity := Identity .environmentPolicy
abbrev ResourceLayoutIdentity := Identity .resourceLayout
abbrev CredentialPolicyIdentity := Identity .credentialPolicy
abbrev ResourceLimitsIdentity := Identity .resourceLimits
abbrev RootViewIdentity := Identity .rootView
abbrev ResourceIdentity := Identity .resource
abbrev InterpreterIdentity := Identity .interpreter
abbrev BackendIdentity := Identity .backend
abbrev BackendCapabilityProfileIdentity := Identity .backendCapabilityProfile
abbrev ExecutionEvidenceIdentity := Identity .executionEvidence
abbrev Sha256Digest := Identity .sha256Digest

namespace Identity

variable {kind : IdentityKind}

theorem hex_injective : Function.Injective (@Identity.hex kind) :=
  fun _ _ h => Identity.ext h

/-- `operator<` compares the texts. -/
instance : LinearOrder (Identity kind) := LinearOrder.lift' hex hex_injective

theorem sha256Hex_size {value : Bytes} (h : IsSha256Hex value) : value.length < 2 ^ 64 := by
  rw [h.1]
  decide

/-- `T::from_sha256`, and the constructor of `sha256_digest`. -/
def fromSha256 (hex : Bytes) : Except Error (Identity kind) := do
  let ⟨isHex⟩ ← requireSha256Hex hex
  return ⟨⟨hex, sha256Hex_size isHex⟩, isHex⟩

theorem fromSha256_hex (i : Identity kind) : fromSha256 i.hex.val = .ok i := by
  simp only [fromSha256, requireSha256Hex_ok i.isHex]
  rfl

theorem isSha256Hex_hexEncode {d : Bytes} (h : d.length = 32) : IsSha256Hex (hexEncode d) :=
  ⟨by rw [length_hexEncode, h], hexEncode_isHexDigit⟩

/-- The identity whose text is a digest in hexadecimal. -/
def ofDigest (d : Digest) : Identity kind :=
  ⟨⟨hexEncode d.val, sha256Hex_size (isSha256Hex_hexEncode d.property)⟩,
    isSha256Hex_hexEncode d.property⟩

theorem ofDigest_injective : Function.Injective (@ofDigest kind) := by
  intro d e h
  have hhex := congrArg (fun i : Identity kind => i.hex.val) h
  exact Subtype.ext (hexEncode_injective hhex)

/-- The 32 bytes an identity is written as. -/
theorem hexEncode_hexDecode_hex (i : Identity kind) : hexEncode (hexDecode i.hex.val) = i.hex.val :=
  hexEncode_hexDecode (by rw [i.isHex.1]) i.isHex.2

theorem length_hexDecode_hex (i : Identity kind) : (hexDecode i.hex.val).length = 32 := by
  rw [length_hexDecode, i.isHex.1]

end Identity

section External

variable [External]

/-- `detail::sha256_hex`. -/
def sha256Hex (bytes : Bytes) : Bytes := hexEncode (External.sha256 bytes).val

/-- `sha256_digest::of_bytes`. -/
def Sha256Digest.ofBytes (bytes : Bytes) : Sha256Digest := Identity.ofDigest (External.sha256 bytes)

end External

/-! ## 3. The builder

The operations append bytes, a multiple of them big-endian and a text with its length in front.
The loops over vectors and the optional fields of the source are two combinators. -/

/-- `detail::identity_builder`: the bytes given to the digest so far. -/
structure IdentityBuilder where
  preimage : Bytes

namespace IdentityBuilder

/-- `add_bytes`. -/
def addBytes (hash : IdentityBuilder) (data : Bytes) : IdentityBuilder := ⟨hash.preimage ++ data⟩

def addU8 (hash : IdentityBuilder) (v : UInt8) : IdentityBuilder := hash.addBytes [v]

def addBool (hash : IdentityBuilder) (v : Bool) : IdentityBuilder := hash.addU8 (if v then 1 else 0)

def addU16 (hash : IdentityBuilder) (v : UInt16) : IdentityBuilder :=
  hash.addBytes (bigEndian 2 v.toNat)

def addU32 (hash : IdentityBuilder) (v : UInt32) : IdentityBuilder :=
  hash.addBytes (bigEndian 4 v.toNat)

def addU64 (hash : IdentityBuilder) (v : UInt64) : IdentityBuilder :=
  hash.addBytes (bigEndian 8 v.toNat)

/-- The cast to an unsigned integer keeps the bits. -/
def addI64 (hash : IdentityBuilder) (v : Int64) : IdentityBuilder := hash.addU64 v.toUInt64

/-- The size of a string is a `std::size_t`, so the check that it fits 64 bits cannot fail. -/
def addString (hash : IdentityBuilder) (v : Bytes) : IdentityBuilder :=
  (hash.addU64 (.ofNat v.length)).addBytes v

/-- `hash.add_bool(v.has_value())`, and the step when there is a value. -/
def addOptional {α : Type} (hash : IdentityBuilder) (v : Option α)
    (step : IdentityBuilder → α → IdentityBuilder) : IdentityBuilder :=
  match v with
  | none => hash.addBool false
  | some x => step (hash.addBool true) x

def addOptionalU64 (hash : IdentityBuilder) (v : Option UInt64) : IdentityBuilder :=
  hash.addOptional v addU64

def addOptionalI64 (hash : IdentityBuilder) (v : Option Int64) : IdentityBuilder :=
  hash.addOptional v addI64

/-- `for (const auto& x : range) ...` -/
def addEach {α : Type} (hash : IdentityBuilder) (range : List α)
    (step : IdentityBuilder → α → IdentityBuilder) : IdentityBuilder :=
  range.foldl step hash

/-- `identity_builder(domain)`: the domain is the first field of every preimage. -/
def new (domain : String) : IdentityBuilder := (⟨[]⟩ : IdentityBuilder).addString (text domain)

/-- `T::from_sha256(hash.finish())`: the text of a digest is always accepted. -/
def finish [External] {kind : IdentityKind} (hash : IdentityBuilder) : Identity kind :=
  Identity.ofDigest (External.sha256 hash.preimage)

/-! ### What each field adds to the preimage

The bytes of a field do not depend on what was fed before, so a preimage is the concatenation of
its fields.  The simp lemmas push a builder down to that. -/

/-- A length and the bytes. -/
def stringField (v : Bytes) : Bytes := bigEndian 8 v.length ++ v

/-- A flag, and the value when there is one. -/
def optionField {α : Type} (f : α → Bytes) (v : Option α) : Bytes :=
  [if v.isSome then (1 : UInt8) else 0] ++ v.elim [] f

/-- A count and the elements. -/
def vecField {α : Type} (f : α → Bytes) (v : Vec α) : Bytes :=
  bigEndian 8 v.val.length ++ v.val.flatMap f

@[simp] theorem preimage_addU8 (hash : IdentityBuilder) (v : UInt8) :
    (hash.addU8 v).preimage = hash.preimage ++ [v] := rfl

@[simp] theorem preimage_addBool (hash : IdentityBuilder) (v : Bool) :
    (hash.addBool v).preimage = hash.preimage ++ [if v then 1 else 0] := rfl

@[simp] theorem preimage_addU16 (hash : IdentityBuilder) (v : UInt16) :
    (hash.addU16 v).preimage = hash.preimage ++ bigEndian 2 v.toNat := rfl

@[simp] theorem preimage_addU32 (hash : IdentityBuilder) (v : UInt32) :
    (hash.addU32 v).preimage = hash.preimage ++ bigEndian 4 v.toNat := rfl

@[simp] theorem preimage_addU64 (hash : IdentityBuilder) (v : UInt64) :
    (hash.addU64 v).preimage = hash.preimage ++ bigEndian 8 v.toNat := rfl

@[simp] theorem preimage_addString (hash : IdentityBuilder) (v : Str) :
    (hash.addString v.val).preimage = hash.preimage ++ stringField v.val := by
  have hlen : v.val.length % 2 ^ 64 = v.val.length := Nat.mod_eq_of_lt v.property
  simp only [addString, addBytes, preimage_addU64, stringField, UInt64.toNat_ofNat', hlen,
    List.append_assoc]

theorem preimage_addOptional {α : Type} {step : IdentityBuilder → α → IdentityBuilder}
    {f : α → Bytes} (hstep : ∀ hash x, (step hash x).preimage = hash.preimage ++ f x)
    (hash : IdentityBuilder) (v : Option α) :
    (hash.addOptional v step).preimage = hash.preimage ++ optionField f v := by
  cases v <;> simp [addOptional, optionField, hstep]

@[simp] theorem preimage_addOptionalU64 (hash : IdentityBuilder) (v : Option UInt64) :
    (hash.addOptionalU64 v).preimage
      = hash.preimage ++ optionField (fun x => bigEndian 8 x.toNat) v :=
  preimage_addOptional (fun _ _ => rfl) hash v

@[simp] theorem preimage_addOptionalI64 (hash : IdentityBuilder) (v : Option Int64) :
    (hash.addOptionalI64 v).preimage
      = hash.preimage ++ optionField (fun x => bigEndian 8 x.toUInt64.toNat) v :=
  preimage_addOptional (fun _ _ => rfl) hash v

/-- A loop that appends the field of every element appends their concatenation. -/
theorem preimage_addEach {α : Type} {step : IdentityBuilder → α → IdentityBuilder} {f : α → Bytes}
    (hstep : ∀ hash x, (step hash x).preimage = hash.preimage ++ f x) (range : List α)
    (hash : IdentityBuilder) :
    (hash.addEach range step).preimage = hash.preimage ++ range.flatMap f := by
  induction range generalizing hash with
  | nil => simp [addEach]
  | cons x t ih =>
    simp only [addEach] at ih
    simp only [addEach, List.foldl_cons, ih, hstep, List.append_assoc, List.flatMap_cons]

/-- A loop after its count is the field of a vector. -/
theorem preimage_addCounted {α : Type} {step : IdentityBuilder → α → IdentityBuilder}
    {f : α → Bytes} (hstep : ∀ hash x, (step hash x).preimage = hash.preimage ++ f x)
    (hash : IdentityBuilder) (v : Vec α) :
    ((hash.addU64 (.ofNat v.val.length)).addEach v.val step).preimage
      = hash.preimage ++ vecField f v := by
  have hlen : v.val.length % 2 ^ 64 = v.val.length := Nat.mod_eq_of_lt v.property
  rw [preimage_addEach hstep, preimage_addU64, UInt64.toNat_ofNat', hlen, List.append_assoc,
    vecField]

/-! ### Every field is a prefix code

Equal preimages can then be taken apart from the front, field by field. -/

theorem prefixCode_string : PrefixCode (fun v : Str => stringField v.val) := PrefixCode.str

theorem prefixCode_option {α : Type} {f : α → Bytes} (hf : PrefixCode f) :
    PrefixCode (optionField f) :=
  PrefixCode.option PrefixCode.bool hf

theorem prefixCode_vec {α : Type} {f : α → Bytes} (hf : PrefixCode f) :
    PrefixCode (vecField f) :=
  PrefixCode.vec hf

theorem prefixCode_enumByte {E : Type} [DecidableEq E] [Enumeration E] :
    PrefixCode (fun e : E => [enumByte e]) :=
  PrefixCode.byte.comp enumByte_injective

theorem prefixCode_i64 : PrefixCode (fun v : Int64 => bigEndian 8 v.toUInt64.toNat) :=
  PrefixCode.word64.comp (fun _ _ h => Int64.toBitVec_inj.mp (congrArg UInt64.toBitVec h))

theorem prefixCode_identity {kind : IdentityKind} :
    PrefixCode (fun i : Identity kind => stringField i.hex.val) :=
  prefixCode_string.comp Identity.hex_injective

/-- Two builders that finish in the same identity were given the same bytes, unless SHA-256
collides on them. -/
theorem finish_inj [External] {kind : IdentityKind} {a b : IdentityBuilder} {s : Set Bytes}
    (hs : Set.InjOn External.sha256 s) (ha : a.preimage ∈ s) (hb : b.preimage ∈ s)
    (h : (a.finish : Identity kind) = b.finish) : a.preimage = b.preimage :=
  hs ha hb (Identity.ofDigest_injective h)

end IdentityBuilder

end Pkgexec
