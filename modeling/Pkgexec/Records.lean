/-
# Records side by side

`ResultCodec` and `ProfileCodec` take one record at a time.  Here are two records, of either
format.  A record names its parties by their identities alone, so what it says of a result is its
`Image`: the identities of the request and of the profile, and the fields that were written.

* Section 1: no record of a result is a proper prefix of another, and equal records have equal
  images (`records_prefix_free`).
* Section 2: the two formats do not overlap (`one_format`).
* Section 3: what is left of an execution when the process ends, and what a later process makes of
  it (`restored_exact`): the declaration of the request, the record of the profile and the record of
  the result give back the result, and no other declaration and no other profile does.
-/
import Pkgexec.EvidenceIdentity
import Pkgexec.ProfileCodec
import Pkgexec.RequestIdentity

namespace Pkgexec

open Bytes Ranges Wire

section Records

variable [External]

/-! ## 1. Records of results

Of two records, one the front of the other, the parties are read first and are the same; then one
reader reads both, and it reads in one way. -/

/-- The part of a result that its record tells. -/
structure Image where
  request : ExecutionRequestIdentity
  backend : BackendCapabilityProfileIdentity
  fields : ResultRecord

def ExecutionResult.image (r : ExecutionResult) : Image :=
  ⟨r.request.identity, r.backend.identity, .of r⟩

/-- The reader looks at the identities of the parties alone. -/
theorem readRecord_congr {q q' : ExecutionRequest} {p p' : BackendCapabilityProfile}
    (hq : q.identity = q'.identity) (hp : p.identity = p'.identity) :
    readRecord q p = readRecord q' p' := by
  unfold readRecord
  rw [hq, hp]

section Payloads

variable {r r' : ExecutionResult} {x y : Bytes}

/-- The parties stand at the same place in every payload. -/
theorem parties_of_payload (h : payload r ++ x = payload r' ++ y) :
    r.request.identity = r'.request.identity ∧ r.backend.identity = r'.backend.identity := by
  simp only [payload, evidenceBytes, List.append_assoc, List.append_cancel_left_eq] at h
  have hlength : ∀ {k : IdentityKind} (i j : Identity k),
      (hexDecode i.hex.val).length = (hexDecode j.hex.val).length := by
    intro k i j
    rw [i.length_hexDecode_hex, j.length_hexDecode_hex]
  have hidentity : ∀ {k : IdentityKind} {i j : Identity k},
      hexDecode i.hex.val = hexDecode j.hex.val → i = j := by
    intro k i j hij
    have hhex : i.hex.val = j.hex.val := by
      rw [← i.hexEncode_hexDecode_hex, hij, j.hexEncode_hexDecode_hex]
    exact Identity.ext (Subtype.ext hhex)
  obtain ⟨hrequest, h⟩ := List.append_inj h (hlength _ _)
  obtain ⟨hbackend, -⟩ := List.append_inj h (hlength _ _)
  exact ⟨hidentity hrequest, hidentity hbackend⟩

/-- **Payloads are read in one way.** -/
theorem payload_unique (hr : Encodable r) (hr' : Encodable r') (hb : ResultEvidence r)
    (hb' : ResultEvidence r') (hlt : (payload r ++ x).length < 2 ^ 64)
    (h : payload r ++ x = payload r' ++ y) : payload r = payload r' ∧ r.image = r'.image := by
  obtain ⟨hrequest, hbackend⟩ := parties_of_payload h
  have hread := reads_record hr hb.established_strict
  have hread' := reads_record hr' hb'.established_strict
  rw [← readRecord_congr hrequest hbackend] at hread'
  obtain ⟨hpayload, hfields⟩ := hread.unique hread' hlt h
  refine ⟨hpayload, ?_⟩
  rw [ExecutionResult.image, ExecutionResult.image, hrequest, hbackend, hfields]

/-- A record is written from the image. -/
theorem encode_of_image (h : r.image = r'.image) :
    encodeExecutionResult r = encodeExecutionResult r' := by
  simp only [ExecutionResult.image, ResultRecord.of, Image.mk.injEq, ResultRecord.mk.injEq] at h
  obtain ⟨hrequest, hbackend, hidentity, hstatus, hstart, hinterpreter, htermination, hout, herr,
    hestablished, hcleanup, hfailure, hdiagnostic⟩ := h
  unfold encodeExecutionResult writeEvidence writeOutcome
  rw [hrequest, hbackend, hidentity, hstatus, hstart, hinterpreter, htermination, hout, herr,
    hestablished, hcleanup, hfailure, hdiagnostic]

/-- What starts with a record is a record of the same image. -/
theorem image_of_prefix {b b' : Bytes} (hr : Built r) (hr' : Built r')
    (hb : encodeExecutionResult r = .ok b) (hb' : encodeExecutionResult r' = .ok b')
    (h : b <+: b') : r.image = r'.image := by
  obtain ⟨henc, rfl⟩ := encode_eq_ok.mp hb
  obtain ⟨henc', rfl⟩ := encode_eq_ok.mp hb'
  obtain ⟨rest, h⟩ := h
  rw [List.append_assoc] at h
  have hmaximum := resultFormat.maximum_lt
  have hlength : (payload r ++ ((External.sha256 (payload r)).val ++ rest)).length < 2 ^ 64 := by
    rw [h, List.length_append, (External.sha256 (payload r')).property]
    have hsize := henc'.size
    rw [checksumSize] at hsize
    omega
  exact (payload_unique henc henc' hr.evidence hr'.evidence hlength h).2

end Payloads

/-- **The records of results are a prefix code for their images.**  The record of one result is
the front of the record of another only if the records are equal, and then the results have the
same parties, by their identities, and agree in every field, diagnostic and retained streams
included. -/
theorem records_prefix_free {r r' : ExecutionResult} {b b' : Bytes} (hr : Built r)
    (hr' : Built r') (hb : encodeExecutionResult r = .ok b)
    (hb' : encodeExecutionResult r' = .ok b') :
    (b <+: b' ↔ b = b') ∧ (b = b' ↔ r.image = r'.image) := by
  have himage : b <+: b' → r.image = r'.image := image_of_prefix hr hr' hb hb'
  have hsame : r.image = r'.image → b = b' := by
    intro h
    rw [encode_of_image h, hb'] at hb
    exact (Except.ok.inj hb).symm
  refine ⟨⟨fun h => hsame (himage h), fun h => h ▸ List.prefix_rfl⟩, ⟨fun h => ?_, hsame⟩⟩
  exact himage (h ▸ List.prefix_rfl)

end Records

open Sample in
/-- Two reports of one failed cleanup, which differ in their diagnostics. -/
theorem records_prefix_free_diagnostics :
    ∃ b b', encodeExecutionResult (cleanupFailedResult .exitedZero diagnostic) = .ok b ∧
      encodeExecutionResult (cleanupFailedResult .exitedZero ⟨text "late", by decide⟩) = .ok b' ∧
      ¬ b <+: b' := by
  have henc : Encodable (cleanupFailedResult .exitedZero diagnostic) :=
    ⟨by decide +kernel, by decide, by decide +kernel⟩
  have henc' : Encodable (cleanupFailedResult .exitedZero ⟨text "late", by decide⟩) :=
    ⟨by decide +kernel, by decide, by decide +kernel⟩
  refine ⟨_, _, encode_of_encodable henc, encode_of_encodable henc', ?_⟩
  have hexact := records_prefix_free ⟨_, run_cleanupFailedCall _ _⟩ ⟨_, run_cleanupFailedCall _ _⟩
    (encode_of_encodable henc) (encode_of_encodable henc')
  intro hprefix
  have himage := hexact.2.mp (hexact.1.mp hprefix)
  exact absurd (congrArg (fun i => i.fields.diagnostic) himage) (by decide)

section Restored

variable [External]

/-! ## 2. Two formats

The magics differ in one letter, and both are compared before anything else is read. -/

/-- Every record of a profile starts with the magic of its format. -/
theorem profile_magic {p : BackendCapabilityProfile} {b : Bytes}
    (h : ProfileCodec.encodeBackendCapabilityProfile p = .ok b) :
    b.take 8 = ProfileCodec.encodingMagic := by
  rw [ProfileCodec.encode_eq] at h
  obtain rfl := Except.ok.inj h
  rw [ProfileCodec.payload, List.append_assoc]
  exact List.take_left' ProfileCodec.length_encodingMagic

omit [External] in
theorem magic_ne : encodingMagic ≠ ProfileCodec.encodingMagic := by decide

/-- **A record has one format.**  What is the record of a profile is corrupt as the record of a
result, whatever parties it is decoded with, and the record of a result is corrupt as the record
of a profile. -/
theorem one_format (b : Bytes) :
    (∀ p, ProfileCodec.encodeBackendCapabilityProfile p = .ok b →
        ∀ q p', Raises (decodeExecutionResult b q p') .corruptEncoding) ∧
      (∀ r, encodeExecutionResult r = .ok b →
        Raises (ProfileCodec.decodeBackendCapabilityProfile b) .corruptEncoding) := by
  constructor
  · intro p hp q p'
    have hmagic := profile_magic hp
    rcases @decode_outcomes _ b q p' with ⟨r, hr⟩ | hcorrupt | hauthority
    · obtain ⟨hsound, -⟩ := soundHeader_of_encode (decode_built hr).2.2.2
      exact absurd (hsound.magic.symm.trans hmagic) magic_ne
    · exact hcorrupt
    · have hforeign := raises_decode_authority.mp hauthority
      exact absurd (hforeign.magic.symm.trans hmagic) magic_ne
  · intro r hr
    obtain ⟨hsound, -⟩ := soundHeader_of_encode hr
    rcases ProfileCodec.decode_outcomes b with ⟨p, hp⟩ | hcorrupt
    · obtain ⟨-, hencode⟩ := ProfileCodec.decode_sealed hp
      exact absurd (hsound.magic.symm.trans (profile_magic hencode)) magic_ne
    · exact hcorrupt

/-! ## 3. After the process has ended

A request is declared again, a profile is decoded from its record, and the result from its own.
The record names the first two by identity, so what has to be shown is that other content has
another identity. -/

/-- What SHA-256 is applied to for a profile. -/
theorem BackendCapabilityProfile.eq_of_identity {p p' : BackendCapabilityProfile}
    (hsha : Set.InjOn External.sha256 {p.preimage, p'.preimage}) (h : p.identity = p'.identity) :
    p = p' := by
  rw [p.identified, p'.identified] at h
  exact eq_of_preimage (IdentityBuilder.finish_inj hsha (by simp [preimage]) (by simp [preimage]) h)

/-- **A result is restored from its record, its declaration and the record of its profile, and
from nothing else.**  Let a result be built for the request of a declaration, and its record and
that of its profile be kept.  A process that declares a request of the same content, in any order,
gets the profile and the result back.  With the request of a declaration of other content, or with
another profile, the record is refused as that of a foreign authority, unless SHA-256 collides. -/
theorem restored_exact {a : Declaration} {r : ExecutionResult} {rb pb : Bytes}
    (ha : a.seal = .ok r.request) (hr : Built r) (hrb : encodeExecutionResult r = .ok rb)
    (hpb : ProfileCodec.encodeBackendCapabilityProfile r.backend = .ok pb)
    (hlanguage : Function.Injective External.programLanguageToString)
    (haction : Function.Injective External.lifecycleActionToString) :
    (∀ (a' : Declaration) (q : ExecutionRequest), a'.seal = .ok q → a'.content = a.content →
        ∃ p, ProfileCodec.decodeBackendCapabilityProfile pb = .ok p ∧
          decodeExecutionResult rb q p = .ok r) ∧
      (∀ (a' : Declaration) (q : ExecutionRequest) p, a'.seal = .ok q → a'.content ≠ a.content →
        Set.InjOn External.sha256 (q.hashed ∪ r.request.hashed) →
        Raises (decodeExecutionResult rb q p) .authorityMismatch) ∧
      (∀ q p, p ≠ r.backend → Set.InjOn External.sha256 {p.preimage, r.backend.preimage} →
        Raises (decodeExecutionResult rb q p) .authorityMismatch) := by
  refine ⟨?_, ?_, ?_⟩
  · intro a' q ha' hcontent
    have hq : q = r.request := by
      apply ExecutionRequest.content_injective
      rw [Declaration.content_seal ha', Declaration.content_seal ha, hcontent]
    subst hq
    exact ⟨r.backend, ProfileCodec.decode_of_encode hpb, decode_of_encode hr.evidence hrb⟩
  · intro a' q p ha' hcontent hsha
    refine raises_of_parties hrb (.inl ?_)
    intro hidentity
    have hq : q = r.request := ExecutionRequest.eq_of_identity hlanguage haction hsha hidentity
    apply hcontent
    rw [← Declaration.content_seal ha', ← Declaration.content_seal ha, hq]
  · intro q p hp hsha
    refine raises_of_parties hrb (.inr ?_)
    intro hidentity
    exact hp (BackendCapabilityProfile.eq_of_identity hsha hidentity)

end Restored

open Sample in
/-- The report of a failed cleanup, restored with groups declared in another order. -/
theorem restored_exact_reordered :
    ∃ rb pb q p, (declaration ⟨[44, 27], by decide⟩ []).seal = .ok q ∧
      ProfileCodec.decodeBackendCapabilityProfile pb = .ok p ∧
      decodeExecutionResult rb q p = .ok (cleanupFailedResult .exitedZero diagnostic) := by
  have henc : Encodable (cleanupFailedResult .exitedZero diagnostic) :=
    ⟨by decide +kernel, by decide, by decide +kernel⟩
  have hseal : (declaration ⟨[27, 44], by decide⟩ []).seal = .ok (request .discard) :=
    seal_declaration rfl (by simp)
  have hseal' : (declaration ⟨[44, 27], by decide⟩ []).seal = .ok (request .discard) :=
    seal_declaration rfl (by simp)
  have hcontent : (declaration ⟨[44, 27], by decide⟩ []).content =
      (declaration ⟨[27, 44], by decide⟩ []).content :=
    (Declaration.content_seal hseal').symm.trans (Declaration.content_seal hseal)
  obtain ⟨p, hp, hr⟩ := (restored_exact hseal ⟨_, run_cleanupFailedCall .exitedZero diagnostic⟩
    (encode_of_encodable henc) (ProfileCodec.encode_eq _) (fun _ _ _ => rfl)
    lifecycleActionToString_injective).1 _ _ hseal' hcontent
  exact ⟨_, _, _, p, hseal', hp, hr⟩

end Pkgexec
