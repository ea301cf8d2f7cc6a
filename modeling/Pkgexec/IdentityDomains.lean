/-
# One digest for one thing

The library applies SHA-256 to nine kinds of bytes of its own making: the preimages of the four
policies, of a request, of a profile and of a result, and the records of a profile and of a
result before their checksums.  All but the records start with the name of their domain, as a
string with its length; a record starts with the magic of its format.

* Section 1: the kinds, and the tag with which the bytes of a kind start.  No tag is a prefix of
  another.
* Section 2: what is hashed, with the digest as the library shows it.
* Section 3: equal digests are those of one kind and of one content, unless SHA-256 collides
  (`digest_exact`).
-/
import Pkgexec.Records

namespace Pkgexec

open Bytes IdentityBuilder

/-! ## 1. Tags

Seven domains, each behind its length, and two magics.  A length begins with a zero byte and a
magic with a letter, so that the two sorts cannot be mistaken for each other. -/

/-- What the library hashes. -/
inductive HashedKind
  | resourceLayout
  | environmentPolicy
  | credentialPolicy
  | resourceLimits
  | executionRequest
  | backendCapabilityProfile
  | executionEvidence
  | profileRecord
  | resultRecord
  deriving DecidableEq, Repr

/-- A domain, or the magic of a record. -/
def HashedKind.tag : HashedKind → Bytes
  | resourceLayout => (IdentityBuilder.new "pkgexec/resource-layout/v1").preimage
  | environmentPolicy => (IdentityBuilder.new "pkgexec/environment-policy/v1").preimage
  | credentialPolicy => (IdentityBuilder.new "pkgexec/credential-policy/v1").preimage
  | resourceLimits => (IdentityBuilder.new "pkgexec/resource-limits/v1").preimage
  | executionRequest => (IdentityBuilder.new "pkgexec/execution-request/v1").preimage
  | backendCapabilityProfile =>
    (IdentityBuilder.new "pkgexec/backend-capability-profile/v1").preimage
  | executionEvidence => (IdentityBuilder.new "pkgexec/execution-evidence/v1").preimage
  | profileRecord => ProfileCodec.encodingMagic
  | resultRecord => encodingMagic

def HashedKind.all : List HashedKind :=
  [resourceLayout, environmentPolicy, credentialPolicy, resourceLimits, executionRequest,
    backendCapabilityProfile, executionEvidence, profileRecord, resultRecord]

theorem HashedKind.mem_all (k : HashedKind) : k ∈ all := by
  cases k <;> simp [all]

/-- **No tag is a prefix of another.** -/
theorem HashedKind.eq_of_tag_le {k k' : HashedKind} (h : k.tag <+: k'.tag) : k = k' := by
  have htags : ∀ k ∈ all, ∀ k' ∈ all, k.tag <+: k'.tag → k = k' := by decide +kernel
  exact htags k k.mem_all k' k'.mem_all h

/-- Bytes start with one tag at most. -/
theorem HashedKind.eq_of_tags {k k' : HashedKind} {bytes : Bytes} (h : k.tag <+: bytes)
    (h' : k'.tag <+: bytes) : k = k' := by
  rcases List.prefix_or_prefix_of_prefix h h' with hprefix | hprefix
  · exact eq_of_tag_le hprefix
  · exact (eq_of_tag_le hprefix).symm

section Hashed

variable [External]

/-! ## 2. What is hashed

A value of each kind, with the bytes that are hashed for it and the text that is shown.  Two values
are compared by their content: for most kinds that is equality, for a result it is its evidence,
and for the record of a result its image. -/

/-- A value that the library hashes.  Results are built, and a record is one of a result that
can be encoded. -/
inductive Hashed
  | layout (layout : ResourceLayout)
  | environment (environment : EnvironmentPolicy)
  | credentials (credentials : CredentialPolicy)
  | limits (limits : ResourceLimits)
  | request (request : ExecutionRequest)
  | profile (profile : BackendCapabilityProfile)
  | result (result : ExecutionResult) (built : Built result)
  | profileRecord (profile : BackendCapabilityProfile)
  | resultRecord (result : ExecutionResult) (built : Built result) (encodable : Encodable result)

namespace Hashed

def kind : Hashed → HashedKind
  | layout _ => .resourceLayout
  | environment _ => .environmentPolicy
  | credentials _ => .credentialPolicy
  | limits _ => .resourceLimits
  | request _ => .executionRequest
  | profile _ => .backendCapabilityProfile
  | result _ _ => .executionEvidence
  | profileRecord _ => .profileRecord
  | resultRecord _ _ _ => .resultRecord

/-- The text of the identity, or of the checksum. -/
def hex : Hashed → Bytes
  | layout l => l.identity.hex.val
  | environment e => e.identity.hex.val
  | credentials c => c.identity.hex.val
  | limits l => l.identity.hex.val
  | request q => q.identity.hex.val
  | profile p => p.identity.hex.val
  | result r _ => r.identity.hex.val
  | profileRecord p => sha256Hex (ProfileCodec.payload p)
  | resultRecord r _ _ => sha256Hex (payload r)

/-- The bytes that are hashed. -/
def bytes : Hashed → Bytes
  | layout l => l.preimage
  | environment e => e.preimage
  | credentials c => c.preimage
  | limits l => l.preimage
  | request q => q.preimage
  | profile p => p.preimage
  | result r _ => r.preimage
  | profileRecord p => ProfileCodec.payload p
  | resultRecord r _ _ => payload r

/-- These bytes, and those of the values they name by an identity. -/
def trail : Hashed → Set Bytes
  | request q => q.hashed
  | result r _ => r.hashed
  | h => {h.bytes}

/-- **One content.**  Results are compared by their evidence, records of results by their
images. -/
inductive Same : Hashed → Hashed → Prop
  | layout {l : ResourceLayout} : Same (layout l) (layout l)
  | environment {e : EnvironmentPolicy} : Same (environment e) (environment e)
  | credentials {c : CredentialPolicy} : Same (credentials c) (credentials c)
  | limits {l : ResourceLimits} : Same (limits l) (limits l)
  | request {q : ExecutionRequest} : Same (request q) (request q)
  | profile {p : BackendCapabilityProfile} : Same (profile p) (profile p)
  | result {r r' : ExecutionResult} {hr : Built r} {hr' : Built r'}
      (evidence : r.evidence = r'.evidence) : Same (result r hr) (result r' hr')
  | profileRecord {p : BackendCapabilityProfile} : Same (profileRecord p) (profileRecord p)
  | resultRecord {r r' : ExecutionResult} {hr : Built r} {hr' : Built r'} {henc : Encodable r}
      {henc' : Encodable r'} (image : r.image = r'.image) :
      Same (resultRecord r hr henc) (resultRecord r' hr' henc')

/-! ### The bytes

The text that is shown is the digest of the bytes, and the bytes start with the tag of their
kind. -/

theorem mem_trail (h : Hashed) : h.bytes ∈ h.trail := by
  cases h with
  | request q => simp [trail, bytes, ExecutionRequest.hashed]
  | result r built => simp [trail, bytes, ExecutionResult.hashed]
  | _ => exact Set.mem_singleton _

/-- The library shows the digest of the bytes. -/
theorem hex_eq (h : Hashed) : h.hex = sha256Hex h.bytes := by
  cases h with
  | layout l =>
    rw [hex, l.identified]
    rfl
  | environment e =>
    rw [hex, e.identified]
    rfl
  | credentials c =>
    rw [hex, c.identified]
    rfl
  | limits l =>
    rw [hex, l.identified]
    rfl
  | request q =>
    rw [hex, q.identified]
    rfl
  | profile p =>
    rw [hex, p.identified]
    rfl
  | result r built =>
    rw [hex, ExecutionResult.identified built]
    rfl
  | profileRecord p => rfl
  | resultRecord r built encodable => rfl

/-- The bytes start with the tag of their kind. -/
theorem tag_prefix (h : Hashed) : h.kind.tag <+: h.bytes := by
  cases h with
  | layout l =>
    simp only [bytes, ResourceLayout.preimage, layoutPreimage, preimage_addString, preimage_addU8,
      preimage_addCounted preimage_binding, List.append_assoc]
    exact List.prefix_append _ _
  | environment e =>
    simp only [bytes, EnvironmentPolicy.preimage, environmentPreimage, preimage_addString,
      preimage_addU8, preimage_addU32, preimage_addOptionalI64,
      preimage_addCounted preimage_variable,
      preimage_addCounted (fun hash (p : LogicalPath) => preimage_addString hash p.value),
      List.append_assoc]
    exact List.prefix_append _ _
  | credentials c =>
    simp only [bytes, CredentialPolicy.preimage, credentialPreimage, preimage_addU64,
      preimage_addBool, preimage_addCounted preimage_addU64, List.append_assoc]
    exact List.prefix_append _ _
  | limits l =>
    simp only [bytes, ResourceLimits.preimage, limitsPreimage, preimage_addOptionalU64,
      List.append_assoc]
    exact List.prefix_append _ _
  | request q =>
    simp only [bytes, ExecutionRequest.preimage, requestPreimage, preimage_addU16,
      preimage_addString, preimage_addU8, preimage_addU64, preimage_addOptional preimage_addU64,
      preimage_addOptional (fun hash (action : LifecycleAction) =>
        preimage_addString hash (External.lifecycleActionToString action)),
      preimage_addEach (fun hash (g : ExecutionGuarantee) => preimage_addU8 hash (enumByte g)),
      List.append_assoc]
    exact List.prefix_append _ _
  | profile p =>
    simp only [bytes, BackendCapabilityProfile.preimage, profilePreimage, preimage_addString,
      preimage_guarantees _ p.guarantees_strict, List.append_assoc]
    exact List.prefix_append _ _
  | result r built =>
    rw [bytes, ExecutionResult.preimage_eq r built.evidence.established_strict]
    exact List.prefix_append _ _
  | profileRecord p => exact List.prefix_append _ _
  | resultRecord r built encodable =>
    simp only [bytes, payload, evidenceBytes, List.append_assoc]
    exact List.prefix_append _ _

/-- Records of one profile. -/
theorem eq_of_profilePayload {p p' : BackendCapabilityProfile}
    (h : ProfileCodec.payload p = ProfileCodec.payload p') : p = p' := by
  have hdecode := ProfileCodec.decode_of_encode (ProfileCodec.encode_eq p)
  rw [h, ProfileCodec.decode_of_encode (ProfileCodec.encode_eq p')] at hdecode
  exact (Except.ok.inj hdecode).symm

/-! ## 3. Digests

Equal digests come from equal bytes, equal bytes have one tag and so one kind, and within a kind
the fields can be cut off one by one.  Where a field is an identity, its own bytes are on the
trail. -/

section Digests

variable {s t : Hashed}

/-- Records of results with one payload. -/
theorem image_of_payload {r r' : ExecutionResult} (hr : Built r) (hr' : Built r')
    (henc : Encodable r) (henc' : Encodable r') (h : payload r = payload r') :
    r.image = r'.image := by
  have hrecord : payload r ++ (External.sha256 (payload r)).val =
      payload r' ++ (External.sha256 (payload r')).val := by rw [h]
  exact image_of_prefix hr hr' (encode_of_encodable henc) (encode_of_encodable henc')
    (hrecord ▸ List.prefix_rfl)

theorem payload_of_image {r r' : ExecutionResult} (henc : Encodable r) (henc' : Encodable r')
    (h : r.image = r'.image) : payload r = payload r' := by
  have hrecord := encode_of_image h
  rw [encode_of_encodable henc, encode_of_encodable henc'] at hrecord
  refine (List.append_inj' (Except.ok.inj hrecord) ?_).1
  rw [(External.sha256 (payload r)).property, (External.sha256 (payload r')).property]

/-- **Equal bytes are those of one content.**  What they name by an identity is one as well,
unless SHA-256 collides there. -/
theorem Same.of_bytes (hlanguage : Function.Injective External.programLanguageToString)
    (haction : Function.Injective External.lifecycleActionToString)
    (hsha : Set.InjOn External.sha256 (s.trail ∪ t.trail)) (h : s.bytes = t.bytes) : Same s t := by
  have hkind : s.kind = t.kind := HashedKind.eq_of_tags s.tag_prefix (h ▸ t.tag_prefix)
  have hhex : s.hex = t.hex := by rw [s.hex_eq, t.hex_eq, h]
  cases s with
  | layout l =>
    cases t with
    | layout m =>
      obtain rfl := ResourceLayout.eq_of_preimage h
      exact .layout
    | _ => exact absurd hkind (by simp [kind])
  | environment e =>
    cases t with
    | environment f =>
      obtain rfl := EnvironmentPolicy.eq_of_preimage h
      exact .environment
    | _ => exact absurd hkind (by simp [kind])
  | credentials c =>
    cases t with
    | credentials d =>
      obtain rfl := CredentialPolicy.eq_of_preimage h
      exact .credentials
    | _ => exact absurd hkind (by simp [kind])
  | limits l =>
    cases t with
    | limits m =>
      obtain rfl := ResourceLimits.eq_of_preimage h
      exact .limits
    | _ => exact absurd hkind (by simp [kind])
  | request q =>
    cases t with
    | request q' =>
      have hidentity : q.identity = q'.identity := Identity.ext (Subtype.ext hhex)
      obtain rfl := ExecutionRequest.eq_of_identity hlanguage haction hsha hidentity
      exact .request
    | _ => exact absurd hkind (by simp [kind])
  | profile p =>
    cases t with
    | profile p' =>
      obtain rfl := BackendCapabilityProfile.eq_of_preimage h
      exact .profile
    | _ => exact absurd hkind (by simp [kind])
  | result r hr =>
    cases t with
    | result r' hr' =>
      have hidentity : r.identity = r'.identity := Identity.ext (Subtype.ext hhex)
      exact .result (ExecutionResult.evidence_eq_of_identity hr hr' hsha hidentity)
    | _ => exact absurd hkind (by simp [kind])
  | profileRecord p =>
    cases t with
    | profileRecord p' =>
      obtain rfl := eq_of_profilePayload h
      exact .profileRecord
    | _ => exact absurd hkind (by simp [kind])
  | resultRecord r hr henc =>
    cases t with
    | resultRecord r' hr' henc' => exact .resultRecord (image_of_payload hr hr' henc henc' h)
    | _ => exact absurd hkind (by simp [kind])

theorem Same.hex_eq (h : Same s t) : s.hex = t.hex := by
  cases h with
  | @result r r' hr hr' evidence =>
    have hidentity : r.identity = r'.identity :=
      ExecutionResult.identity_eq_of_evidence hr hr' evidence
    rw [hex, hex, hidentity]
  | @resultRecord r r' hr hr' henc henc' image =>
    rw [hex, hex, payload_of_image henc henc' image]
  | _ => rfl

/-- **A digest is that of one kind and of one content.**  Of anything two values the library
hashes, the digests are equal exactly when they are values of one kind with one content, unless
SHA-256 collides on their bytes or on those of what they name: no identity of a policy is one of
a request or of a profile, no evidence is a profile, and no checksum of a record is an identity. -/
theorem digest_exact (s t : Hashed)
    (hlanguage : Function.Injective External.programLanguageToString)
    (haction : Function.Injective External.lifecycleActionToString)
    (hsha : Set.InjOn External.sha256 (s.trail ∪ t.trail)) : s.hex = t.hex ↔ Same s t := by
  constructor
  · intro h
    rw [s.hex_eq, t.hex_eq] at h
    have hdigest : External.sha256 s.bytes = External.sha256 t.bytes :=
      Subtype.ext (hexEncode_injective h)
    exact Same.of_bytes hlanguage haction hsha
      (hsha (.inl s.mem_trail) (.inr t.mem_trail) hdigest)
  · exact Same.hex_eq

end Digests

end Hashed

end Hashed

open Sample in
/-- A request and its layout. -/
theorem Hashed.digest_exact_layout :
    (Hashed.request (Sample.request .discard)).hex ≠ (Hashed.layout Sample.layout).hex := by
  have hsha : Set.InjOn External.sha256 ((Hashed.request (Sample.request .discard)).trail ∪
      (Hashed.layout Sample.layout).trail) := by
    refine sha256_injOn_hashed.mono (Set.union_subset (fun _ h => h) ?_)
    rintro _ rfl
    exact .inr (.inl rfl)
  intro h
  cases (digest_exact _ _ (fun _ _ _ => rfl) lifecycleActionToString_injective hsha).mp h

end Pkgexec
