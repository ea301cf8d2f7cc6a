/-
# What the identity of a result says

The evidence of a result is what its identity is hashed from: who was asked for what, what the
profile advertised, and what was observed.  The diagnostic is not part of it, nor is the material
of a stream beyond its size and digest.

Two built results have one identity exactly when they have one evidence, as long as SHA-256 does
not collide on the preimages involved, and calls of a factory that differ in nothing but
diagnostic, material, order and repetition of guarantees, or token seal results with one identity
(`evidence_identity_exact`).
-/
import Pkgexec.RequestIdentity

namespace Pkgexec

open Bytes Ranges IdentityBuilder

/-! ## 1. The fields of a termination and of a capture

Two fields that only results have.  Of a capture the material is not hashed, so its field is that
of the size and the digest. -/

/-- The fields of a termination. -/
def terminationField (t : ProcessTermination) : Bytes :=
  [enumByte t.kind] ++ (optionField (fun v : UInt32 => bigEndian 4 v.toNat) t.value ++
    optionField (fun l => [enumByte l]) t.limit)

theorem preimage_termination (hash : IdentityBuilder) (t : ProcessTermination) :
    (((hash.addU8 (enumByte t.kind)).addOptional t.value addU32).addOptional t.limit
      (fun hash limit => hash.addU8 (enumByte limit))).preimage
      = hash.preimage ++ terminationField t := by
  simp only [preimage_addOptional preimage_addU32, preimage_addU8, terminationField,
    preimage_addOptional (fun hash (l : ResourceLimitKind) => preimage_addU8 hash (enumByte l)),
    List.append_assoc]

theorem prefixCode_termination : PrefixCode terminationField := by
  intro a b r s h
  simp only [terminationField, List.append_assoc] at h
  obtain ⟨hkind, h⟩ := prefixCode_enumByte h
  obtain ⟨hvalue, h⟩ := prefixCode_option PrefixCode.word32 h
  obtain ⟨hlimit, h⟩ := prefixCode_option prefixCode_enumByte h
  exact ⟨ProcessTermination.ext hkind hvalue hlimit, h⟩

/-- The size and the digest of a stream. -/
def summaryField (p : UInt64 × Sha256Digest) : Bytes :=
  bigEndian 8 p.1.toNat ++ stringField p.2.hex.val

theorem prefixCode_summary : PrefixCode summaryField :=
  PrefixCode.word64.append prefixCode_identity

/-! ## 2. Guarantees

An increasing list is short enough for its count to be exact in 64 bits. -/

/-- A strictly increasing list of guarantees as a vector. -/
def guaranteeVec (gs : List ExecutionGuarantee) (h : gs.Pairwise (· < ·)) :
    Vec ExecutionGuarantee :=
  ⟨gs, by have := length_le_of_strict h; omega⟩

theorem preimage_guarantees (hash : IdentityBuilder) {gs : List ExecutionGuarantee}
    (h : gs.Pairwise (· < ·)) :
    ((hash.addU64 (.ofNat gs.length)).addEach gs (fun hash g => hash.addU8 (enumByte g))).preimage
      = hash.preimage ++ vecField (fun g => [enumByte g]) (guaranteeVec gs h) :=
  preimage_addCounted (fun hash g => preimage_addU8 hash (enumByte g)) hash (guaranteeVec gs h)

theorem guaranteeVec_inj {gs gs' : List ExecutionGuarantee} {h : gs.Pairwise (· < ·)}
    {h' : gs'.Pairwise (· < ·)} (heq : guaranteeVec gs h = guaranteeVec gs' h') : gs = gs' :=
  congrArg Subtype.val heq

section EvidenceIdentity

variable [External]

/-- What of a capture is evidence. -/
def StreamCapture.summary (c : StreamCapture) : UInt64 × Sha256Digest := (c.byteCount, c.digest)

theorem preimage_appendCapture (hash : IdentityBuilder) (o : Option StreamCapture) :
    (appendCapture hash o).preimage
      = hash.preimage ++ optionField summaryField (o.map StreamCapture.summary) := by
  have hstep : ∀ (hash : IdentityBuilder) (c : StreamCapture),
      ((hash.addU64 c.byteCount).addString c.digest.hex.val).preimage
        = hash.preimage ++ summaryField c.summary := fun hash c => by
    simp only [preimage_addString, preimage_addU64, summaryField, StreamCapture.summary,
      List.append_assoc]
  rw [appendCapture, preimage_addOptional hstep]
  cases o <;> rfl

/-! ## 3. Preimages

A profile can be read off its preimage, and a result as far as it is hashed. -/

/-- The bytes a profile is hashed from, -/
def BackendCapabilityProfile.preimage (p : BackendCapabilityProfile) : Bytes :=
  (profilePreimage p.backend p.guarantees).preimage

/-- and a result. -/
def ExecutionResult.preimage (r : ExecutionResult) : Bytes :=
  (resultPreimage r.status r.startState r.request r.backend r.observedInterpreter r.termination
    r.standardOutput r.standardError r.establishedGuarantees r.cleanup r.failure).preimage

/-- What SHA-256 is applied to for a result and its profile. -/
def ExecutionResult.hashed (r : ExecutionResult) : Set Bytes := {r.preimage, r.backend.preimage}

theorem BackendCapabilityProfile.eq_of_preimage {p p' : BackendCapabilityProfile}
    (h : p.preimage = p'.preimage) : p = p' := by
  simp only [BackendCapabilityProfile.preimage, profilePreimage, preimage_addString,
    preimage_guarantees _ p.guarantees_strict, preimage_guarantees _ p'.guarantees_strict,
    List.append_assoc] at h
  obtain ⟨hbackend, h⟩ := prefixCode_identity (List.append_cancel_left h)
  have hguarantees := (prefixCode_vec prefixCode_enumByte).injective h
  exact BackendCapabilityProfile.eq_of_fields hbackend (guaranteeVec_inj hguarantees)

/-- The fields of the preimage of a result, one after the other. -/
theorem ExecutionResult.preimage_eq (r : ExecutionResult)
    (h : r.establishedGuarantees.Pairwise (· < ·)) :
    r.preimage = (IdentityBuilder.new "pkgexec/execution-evidence/v1").preimage ++
      ([enumByte r.status] ++ ([enumByte r.startState] ++ (stringField r.request.identity.hex.val ++
      (stringField r.backend.identity.hex.val ++
      (optionField (fun i => stringField i.hex.val) r.observedInterpreter ++
      (optionField terminationField r.termination ++
      (optionField summaryField (r.standardOutput.map StreamCapture.summary) ++
      (optionField summaryField (r.standardError.map StreamCapture.summary) ++
      (vecField (fun g => [enumByte g]) (guaranteeVec r.establishedGuarantees h) ++
      ([enumByte r.cleanup] ++ optionField (fun f => [enumByte f]) r.failure)))))))))) := by
  simp only [ExecutionResult.preimage, resultPreimage, preimage_addOptional
      (fun hash (f : ExecutionFailureKind) => preimage_addU8 hash (enumByte f)),
    preimage_addU8, preimage_guarantees _ h, preimage_appendCapture,
    preimage_addOptional preimage_termination,
    preimage_addOptional (fun hash (i : InterpreterIdentity) => preimage_addString hash i.hex),
    preimage_addString, List.append_assoc]

/-! ## 4. Evidence

Evidence is stated without order: the guarantees are sets.  As the lists that are stored are
increasing, the set determines the list, and evidence and preimage determine one another. -/

/-- **The semantic evidence of a result**: of a profile, the backend and the set of guarantees,
and of a stream, its size and digest. -/
@[ext] structure Evidence where
  status : ExecutionStatus
  startState : ExecutionStartState
  request : ExecutionRequestIdentity
  backend : BackendIdentity
  advertised : Set ExecutionGuarantee
  observedInterpreter : Option InterpreterIdentity
  termination : Option ProcessTermination
  standardOutput : Option (UInt64 × Sha256Digest)
  standardError : Option (UInt64 × Sha256Digest)
  establishedGuarantees : List ExecutionGuarantee
  cleanup : CleanupOutcome
  failure : Option ExecutionFailureKind

namespace ExecutionResult

def evidence (r : ExecutionResult) : Evidence where
  status := r.status
  startState := r.startState
  request := r.request.identity
  backend := r.backend.backend
  advertised := {g | g ∈ r.backend.guarantees}
  observedInterpreter := r.observedInterpreter
  termination := r.termination
  standardOutput := r.standardOutput.map StreamCapture.summary
  standardError := r.standardError.map StreamCapture.summary
  establishedGuarantees := r.establishedGuarantees
  cleanup := r.cleanup
  failure := r.failure

/-- Evidence names the profile. -/
theorem backend_of_evidence {r₁ r₂ : ExecutionResult} (h : r₁.evidence = r₂.evidence) :
    r₁.backend = r₂.backend :=
  BackendCapabilityProfile.eq_of_fields (congrArg Evidence.backend h)
    (eq_of_mem_iff r₁.backend.guarantees_strict r₂.backend.guarantees_strict
      (Set.ext_iff.mp (congrArg Evidence.advertised h)))

/-- The identity of a built result is the hash of its preimage. -/
theorem identified {r : ExecutionResult} (h : Built r) :
    r.identity = (resultPreimage r.status r.startState r.request r.backend r.observedInterpreter
      r.termination r.standardOutput r.standardError r.establishedGuarantees r.cleanup
      r.failure).finish :=
  h.evidence.identified

/-- **Equal evidence has equal preimages**, and so equal identities. -/
theorem identity_eq_of_evidence {r₁ r₂ : ExecutionResult} (h₁ : Built r₁) (h₂ : Built r₂)
    (h : r₁.evidence = r₂.evidence) : r₁.identity = r₂.identity := by
  have hbackend := backend_of_evidence h
  have hpreimage : r₁.preimage = r₂.preimage := by
    rw [preimage_eq r₁ h₁.evidence.established_strict, preimage_eq r₂ h₂.evidence.established_strict,
      hbackend]
    simp only [evidence, Evidence.mk.injEq] at h
    obtain ⟨hstatus, hstart, hrequest, -, -, hinterpreter, htermination, hout, herr,
      hestablished, hcleanup, hfailure⟩ := h
    simp only [hstatus, hstart, hrequest, hinterpreter, htermination, hout, herr, hestablished,
      hcleanup, hfailure]
  rw [identified h₁, identified h₂]
  exact congrArg (fun bytes => Identity.ofDigest (External.sha256 bytes)) hpreimage

/-- **Equal preimages have equal evidence.** -/
theorem evidence_eq_of_identity {r₁ r₂ : ExecutionResult} (h₁ : Built r₁) (h₂ : Built r₂)
    (hsha : Set.InjOn External.sha256 (r₁.hashed ∪ r₂.hashed))
    (h : r₁.identity = r₂.identity) : r₁.evidence = r₂.evidence := by
  rw [identified h₁, identified h₂] at h
  have hpreimage : r₁.preimage = r₂.preimage :=
    finish_inj hsha (by simp [hashed, preimage]) (by simp [hashed, preimage]) h
  rw [preimage_eq r₁ h₁.evidence.established_strict, preimage_eq r₂ h₂.evidence.established_strict]
    at hpreimage
  obtain ⟨hstatus, h⟩ := prefixCode_enumByte (List.append_cancel_left hpreimage)
  obtain ⟨hstart, h⟩ := prefixCode_enumByte h
  obtain ⟨hrequest, h⟩ := prefixCode_identity h
  obtain ⟨hbackend, h⟩ := prefixCode_identity h
  obtain ⟨hinterpreter, h⟩ := prefixCode_option prefixCode_identity h
  obtain ⟨htermination, h⟩ := prefixCode_option prefixCode_termination h
  obtain ⟨hout, h⟩ := prefixCode_option prefixCode_summary h
  obtain ⟨herr, h⟩ := prefixCode_option prefixCode_summary h
  obtain ⟨hestablished, h⟩ := prefixCode_vec prefixCode_enumByte h
  obtain ⟨hcleanup, h⟩ := prefixCode_enumByte h
  have hfailure := (prefixCode_option prefixCode_enumByte).injective h
  rw [r₁.backend.identified, r₂.backend.identified] at hbackend
  have hprofile : r₁.backend = r₂.backend :=
    BackendCapabilityProfile.eq_of_preimage (finish_inj hsha
      (by simp [hashed, BackendCapabilityProfile.preimage])
      (by simp [hashed, BackendCapabilityProfile.preimage]) hbackend)
  exact Evidence.ext hstatus hstart hrequest
    (congrArg BackendCapabilityProfile.backend hprofile)
    (by simp only [evidence, hprofile]) hinterpreter htermination hout herr
    (guaranteeVec_inj hestablished) hcleanup hfailure

end ExecutionResult

/-! ## 5. Calls with one evidence

The factories read nothing of a diagnostic, and of a stream, a list of guarantees or a token only
what `Alike` keeps.  So alike calls are accepted together and store the same evidence. -/

/-- **Calls of one factory that differ in nothing an identity depends on**: the diagnostic, the
material of the streams, the order and repetition of the guarantees, the token. -/
inductive FactoryCall.Alike : FactoryCall → FactoryCall → Prop
  | failedBeforeStart {q : ExecutionRequest} {p : BackendCapabilityProfile}
      {f : Raw ExecutionFailureKind} {gs gs' : List (Raw ExecutionGuarantee)} {d d' : Str}
      (guarantees : ∀ v, v ∈ gs ↔ v ∈ gs') :
      Alike (.failedBeforeStart q p f gs d) (.failedBeforeStart q p f gs' d')
  | cancelledBeforeStart {q : ExecutionRequest} {p : BackendCapabilityProfile}
      {token token' : CancellationToken} {gs gs' : List (Raw ExecutionGuarantee)} {d d' : Str}
      (guarantees : ∀ v, v ∈ gs ↔ v ∈ gs') :
      Alike (.cancelledBeforeStart q p token gs d) (.cancelledBeforeStart q p token' gs' d')
  | succeeded {q : ExecutionRequest} {p : BackendCapabilityProfile} {i : InterpreterIdentity}
      {o o' e e' : Option StreamCapture} {gs gs' : List (Raw ExecutionGuarantee)} {d d' : Str}
      (output : o.map StreamCapture.summary = o'.map StreamCapture.summary)
      (error : e.map StreamCapture.summary = e'.map StreamCapture.summary)
      (guarantees : ∀ v, v ∈ gs ↔ v ∈ gs') :
      Alike (.succeeded q p i o e gs d) (.succeeded q p i o' e' gs' d')
  | failedAfterStart {q : ExecutionRequest} {p : BackendCapabilityProfile}
      {i : InterpreterIdentity} {t : ProcessTermination} {o o' e e' : Option StreamCapture}
      {gs gs' : List (Raw ExecutionGuarantee)} {c : Raw CleanupOutcome}
      {f : Raw ExecutionFailureKind} {d d' : Str}
      (output : o.map StreamCapture.summary = o'.map StreamCapture.summary)
      (error : e.map StreamCapture.summary = e'.map StreamCapture.summary)
      (guarantees : ∀ v, v ∈ gs ↔ v ∈ gs') :
      Alike (.failedAfterStart q p i t o e gs c f d) (.failedAfterStart q p i t o' e' gs' c f d')
  | cancelledAfterStart {q : ExecutionRequest} {p : BackendCapabilityProfile}
      {token token' : CancellationToken} {i : InterpreterIdentity}
      {o o' e e' : Option StreamCapture} {gs gs' : List (Raw ExecutionGuarantee)}
      {c : Raw CleanupOutcome} {d d' : Str}
      (output : o.map StreamCapture.summary = o'.map StreamCapture.summary)
      (error : e.map StreamCapture.summary = e'.map StreamCapture.summary)
      (guarantees : ∀ v, v ∈ gs ↔ v ∈ gs') :
      Alike (.cancelledAfterStart q p token i o e gs c d)
        (.cancelledAfterStart q p token' i o' e' gs' c d')

section Alike

variable {q : ExecutionRequest} {p : BackendCapabilityProfile} {o o' e e' : Option StreamCapture}
  {c : CleanupOutcome} {gs gs' : List ExecutionGuarantee}
  {established established' : List (Raw ExecutionGuarantee)}

theorem isSome_of_summary (h : o.map StreamCapture.summary = o'.map StreamCapture.summary) :
    o.isSome = o'.isSome := by
  have hmap := congrArg Option.isSome h
  rwa [Option.isSome_map, Option.isSome_map] at hmap

theorem remaining_of_summary (ho : o.map StreamCapture.summary = o'.map StreamCapture.summary)
    (he : e.map StreamCapture.summary = e'.map StreamCapture.summary) :
    remainingGuarantees q o e c = remainingGuarantees q o' e' c := by
  rw [remainingGuarantees, remainingGuarantees, isSome_of_summary ho, isSome_of_summary he]

/-- What is stored depends on the set of guarantees claimed. -/
theorem PreStartEvidence.guarantees_eq (h : PreStartEvidence q p established gs)
    (h' : PreStartEvidence q p established' gs')
    (hset : ∀ v, v ∈ established ↔ v ∈ established') : gs = gs' := by
  refine eq_of_mem_iff h.strict h'.strict (fun g => ?_)
  have hmap := (h.established (.of g)).symm.trans ((hset (.of g)).trans (h'.established (.of g)))
  rwa [List.mem_map_of_injective Raw.of_injective, List.mem_map_of_injective Raw.of_injective]
    at hmap

end Alike

/-- **Alike calls seal one evidence.** -/
theorem FactoryCall.Alike.evidence_eq {call call' : FactoryCall} (h : call.Alike call')
    {r r' : ExecutionResult} (hr : call.run = .ok r) (hr' : call'.run = .ok r') :
    r.evidence = r'.evidence := by
  cases h with
  | failedBeforeStart guarantees =>
    obtain ⟨f, gs, hf, -, hev, -, rfl⟩ := failedBeforeStart_eq_ok.mp hr
    obtain ⟨f', gs', hf', -, hev', -, rfl⟩ := failedBeforeStart_eq_ok.mp hr'
    obtain rfl := Raw.of_injective (hf.symm.trans hf')
    obtain rfl := hev.guarantees_eq hev' guarantees
    rfl
  | cancelledBeforeStart guarantees =>
    obtain ⟨gs, -, hev, -, -, rfl⟩ := cancelledBeforeStart_eq_ok.mp hr
    obtain ⟨gs', -, hev', -, -, rfl⟩ := cancelledBeforeStart_eq_ok.mp hr'
    obtain rfl := hev.guarantees_eq hev' guarantees
    rfl
  | succeeded output error guarantees =>
    obtain ⟨-, -, rfl⟩ := succeeded_eq_ok.mp hr
    obtain ⟨-, -, rfl⟩ := succeeded_eq_ok.mp hr'
    simp only [ExecutionResult.evidence, ExecutionResult.sealed, output, error]
  | failedAfterStart output error guarantees =>
    obtain ⟨f, c, hf, hc, -, rfl⟩ := failedAfterStart_eq_ok.mp hr
    obtain ⟨f', c', hf', hc', -, rfl⟩ := failedAfterStart_eq_ok.mp hr'
    obtain rfl := Raw.of_injective (hf.symm.trans hf')
    obtain rfl := Raw.of_injective (hc.symm.trans hc')
    simp only [ExecutionResult.evidence, ExecutionResult.sealed, output, error,
      remaining_of_summary output error]
  | cancelledAfterStart output error guarantees =>
    obtain ⟨c, hc, -, -, rfl⟩ := cancelledAfterStart_eq_ok.mp hr
    obtain ⟨c', hc', -, -, rfl⟩ := cancelledAfterStart_eq_ok.mp hr'
    obtain rfl := Raw.of_injective (hc.symm.trans hc')
    simp only [ExecutionResult.evidence, ExecutionResult.sealed, output, error,
      remaining_of_summary output error]

/-- **The identity of a result is exactly its evidence**, so it does not depend on what alike
calls differ in. -/
theorem evidence_identity_exact :
    (∀ r₁ r₂ : ExecutionResult, Built r₁ → Built r₂ →
      Set.InjOn External.sha256 (r₁.hashed ∪ r₂.hashed) →
      (r₁.identity = r₂.identity ↔ r₁.evidence = r₂.evidence)) ∧
    ∀ call call' : FactoryCall, call.Alike call' → ∀ r r' : ExecutionResult,
      call.run = .ok r → call'.run = .ok r' → r.identity = r'.identity := by
  constructor
  · intro r₁ r₂ h₁ h₂ hsha
    exact ⟨ExecutionResult.evidence_eq_of_identity h₁ h₂ hsha,
      ExecutionResult.identity_eq_of_evidence h₁ h₂⟩
  · intro call call' halike r r' hr hr'
    exact ExecutionResult.identity_eq_of_evidence ⟨call, hr⟩ ⟨call', hr'⟩
      (halike.evidence_eq hr hr')

end EvidenceIdentity

namespace Sample

/-- SHA-256 tells the preimages of the result and of its profile apart. -/
theorem sha256_injOn_result (d d' : Str) : Set.InjOn External.sha256
    ((cleanupFailedResult .exitedZero d).hashed ∪ (cleanupFailedResult .exitedZero d').hashed) := by
  have hnodup : ([(cleanupFailedResult .exitedZero diagnostic).preimage,
      (profile (request .discard)).preimage].map External.sha256).Nodup := by
    decide +kernel
  have hsame : ∀ d, (cleanupFailedResult .exitedZero d).hashed =
      {(cleanupFailedResult .exitedZero diagnostic).preimage, (profile (request .discard)).preimage} :=
    fun _ => rfl
  rw [hsame d, hsame d', Set.union_self]
  intro x hx y hy h
  exact List.inj_on_of_nodup_map hnodup (by simpa using hx) (by simpa using hy) h

end Sample

open Sample in
/-- Two diagnostics. -/
theorem evidence_identity_exact_diagnostic :
    ((cleanupFailedResult .exitedZero diagnostic).identity =
        (cleanupFailedResult .exitedZero ⟨text "late", by decide⟩).identity ↔
      (cleanupFailedResult .exitedZero diagnostic).evidence =
        (cleanupFailedResult .exitedZero ⟨text "late", by decide⟩).evidence) ∧
    (cleanupFailedResult .exitedZero diagnostic).identity =
      (cleanupFailedResult .exitedZero ⟨text "late", by decide⟩).identity :=
  ⟨evidence_identity_exact.1 _ _ ⟨_, run_cleanupFailedCall _ _⟩ ⟨_, run_cleanupFailedCall _ _⟩
      (sha256_injOn_result _ _),
    evidence_identity_exact.2 (cleanupFailedCall .exitedZero diagnostic)
      (cleanupFailedCall .exitedZero ⟨text "late", by decide⟩) (.failedAfterStart rfl rfl (fun _ => Iff.rfl))
      _ _ (run_cleanupFailedCall _ _) (run_cleanupFailedCall _ _)⟩

end Pkgexec
