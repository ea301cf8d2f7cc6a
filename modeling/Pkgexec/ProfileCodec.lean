/-
# The durable encoding of backend profiles

`src/profile_codec.cpp`: a record holds the backend's identity, the identity of the profile, its
guarantees, and the SHA-256 checksum of what stands before it.

The decoder takes the guarantees of a record in any order and with repetitions, and seals them;
sealing sorts them, so a record that is not canonical is only refused because the profile it
gives is encoded to other bytes.

Sections 2 and 3 follow the two directions, section 4 the refusals, and section 5 puts them
together: the decoder is the inverse of the encoder (`profile_codec_exact`).
-/
import Pkgexec.Refusals

namespace Pkgexec

namespace ProfileCodec

open Bytes Ranges Wire Failures

/-! ## 1. The record

The constants, the loops and the two functions of `src/profile_codec.cpp`.  The reader of this
codec compares its offset with its limit before it subtracts, so its format is guarded. -/

/-- What the codec of backend profiles puts into a `Format`. -/
def profileFormat : Format where
  subject := "backend-capability-profile"
  maximum := 4096
  code := .invalidCapabilityProfile
  guarded := true
  maximum_lt := by decide

def backendCapabilityProfileEncodingVersion : UInt16 := 1

def encodingMagic : Bytes := text "PKGEXP1" ++ [0]

def checksumSize : Nat := 32

def maximumGuaranteeCount : Nat := 32

theorem length_encodingMagic : encodingMagic.length = 8 := by decide

def decodeGuarantee : UInt8 → Except Error ExecutionGuarantee :=
  decodeEnum profileFormat " encoding contains an unknown guarantee"

/-- The loop over the magic bytes. -/
def readMagic : Bytes → ReaderM Unit := Reader.magic profileFormat

/-- The loop over the guarantees. -/
def readGuarantees : Nat → ReaderM (List ExecutionGuarantee) :=
  many (Reader.enum profileFormat decodeGuarantee)

section ProfileCodec

variable [External]

/-- What `encode_backend_capability_profile` writes before the checksum. -/
def writeProfile (profile : BackendCapabilityProfile) : Writer := do
  Writer.raw profileFormat encodingMagic
  Writer.u16 profileFormat backendCapabilityProfileEncodingVersion
  Writer.identity profileFormat profile.backend.hex.val
  Writer.identity profileFormat profile.identity.hex.val
  if profile.guarantees.length > maximumGuaranteeCount then
    Writer.fail .invalidCapabilityProfile
      (profileFormat.message " guarantee count exceeds its limit")
  else
    Writer.u16 profileFormat (.ofNat profile.guarantees.length)
    profile.guarantees.forM (fun guarantee => Writer.byte profileFormat (enumByte guarantee))

/-- `encode_backend_capability_profile`. -/
def encodeBackendCapabilityProfile (profile : BackendCapabilityProfile) : Except Error Bytes := do
  let (_, payload) ← writeProfile profile []
  let checksum := sha256Hex payload
  let (_, output) ← Writer.identity profileFormat checksum payload
  return output

/-- The fields of a record. -/
structure ProfileRecord where
  backend : BackendIdentity
  retainedIdentity : Bytes
  guarantees : List ExecutionGuarantee

/-- The reading part of `decode_backend_capability_profile`, up to `input.finish()`. -/
def readRecord : ReaderM ProfileRecord := do
  readMagic encodingMagic
  let version ← Reader.u16 profileFormat
  Reader.liftExcept (refuseIf (version ≠ backendCapabilityProfileEncodingVersion) .corruptEncoding
    (profileFormat.message " encoding version is unsupported"))
  let hex ← Reader.identity profileFormat
  let backend ← Reader.liftExcept (Identity.fromSha256 hex)
  let retainedIdentity ← Reader.identity profileFormat
  let guaranteeCount ← Reader.u16 profileFormat
  Reader.liftExcept (refuseIf (guaranteeCount.toNat > maximumGuaranteeCount) .corruptEncoding
    (profileFormat.message " guarantee count exceeds its limit"))
  let guarantees ← readGuarantees guaranteeCount.toNat
  return ⟨backend, retainedIdentity, guarantees⟩

/-- The body of the `try` block. -/
def decodeChecked (encoding : Bytes) : Except Error BackendCapabilityProfile := do
  refuseIf (encoding.length > profileFormat.maximum) .corruptEncoding
    (profileFormat.message " encoding exceeds maximum size")
  refuseIf (encoding.length < encodingMagic.length + 2 + checksumSize) .corruptEncoding
    (profileFormat.message " encoding is truncated")
  let payloadSize := encoding.length - checksumSize
  let actualChecksum := sha256Hex (encoding.take payloadSize)
  let retainedChecksum := hexEncode ((encoding.drop payloadSize).take checksumSize)
  refuseIf (retainedChecksum ≠ actualChecksum) .corruptEncoding
    (profileFormat.message " encoding checksum mismatch")
  let (record, input) ← readRecord ⟨encoding, payloadSize, 0⟩
  let _ ← Reader.finish profileFormat input
  let decoded ← BackendCapabilityProfile.seal record.backend (record.guarantees.map Raw.of)
  refuseIf (decoded.identity.hex.val ≠ record.retainedIdentity) .corruptEncoding
    (profileFormat.message " identity mismatch")
  let canonical ← encodeBackendCapabilityProfile decoded
  refuseIf (canonical ≠ encoding) .corruptEncoding
    (profileFormat.message " encoding is not canonical")
  return decoded

/-- `decode_backend_capability_profile`: the `catch` clause lets two codes through. -/
def decodeBackendCapabilityProfile (encoding : Bytes) : Except Error BackendCapabilityProfile :=
  match decodeChecked encoding with
  | .ok decoded => .ok decoded
  | .error failure =>
    if failure.code = .corruptEncoding ∨ failure.code = .identityFailed then .error failure
    else
      corrupt (profileFormat.message " encoding violates the profile contract: " ++ failure.what)

/-! ## 2. Encoding

A sealed profile has at most as many guarantees as there are, so neither limit of the encoder is
ever reached and every profile is encoded. -/

/-- The record before the checksum. -/
def payload (p : BackendCapabilityProfile) : Bytes :=
  encodingMagic ++ (bigEndian 2 backendCapabilityProfileEncodingVersion.toNat ++
  (hexDecode p.backend.hex.val ++ (hexDecode p.identity.hex.val ++
  (bigEndian 2 p.guarantees.length ++ p.guarantees.flatMap (fun g => [enumByte g])))))

/-- A sealed list is far below the bound on the count, -/
theorem count_le (p : BackendCapabilityProfile) : p.guarantees.length ≤ maximumGuaranteeCount := by
  have hlen := length_le_of_strict p.guarantees_strict
  exact le_trans hlen (by decide)

/-- and survives the cast to 16 bits; -/
theorem toNat_count (p : BackendCapabilityProfile) :
    (UInt16.ofNat p.guarantees.length).toNat = p.guarantees.length := by
  rw [UInt16.toNat_ofNat', Nat.mod_eq_of_lt]
  exact lt_of_le_of_lt (count_le p) (by decide)

/-- and so the record is far below the bound on its size. -/
theorem payload_length (p : BackendCapabilityProfile) :
    (payload p).length = 76 + p.guarantees.length := by
  have hflat : (p.guarantees.flatMap (fun g => [enumByte g])).length = p.guarantees.length := by
    simp [List.length_flatMap]
  simp only [payload, List.length_append, length_encodingMagic, length_bigEndian,
    Identity.length_hexDecode_hex, hflat]
  omega

theorem payload_bound (p : BackendCapabilityProfile) :
    (payload p).length + checksumSize ≤ profileFormat.maximum := by
  have hcount := count_le p
  rw [payload_length]
  rw [maximumGuaranteeCount] at hcount
  change 76 + p.guarantees.length + 32 ≤ 4096
  omega

/-- What is written is the payload. -/
theorem emits_profile (p : BackendCapabilityProfile) :
    Writer.Emits profileFormat (writeProfile p) (payload p) := by
  have hsize := @Writer.emits_u16 profileFormat (.ofNat p.guarantees.length)
  rw [toNat_count] at hsize
  rw [writeProfile, if_neg (not_lt.mpr (count_le p))]
  exact (Writer.emits_raw _).bind ((Writer.emits_u16 _).bind ((Writer.emits_identity _).bind
    ((Writer.emits_identity _).bind
    (hsize.bind (Wire.Emits.forM (fun _ _ => Writer.emits_byte _))))))

/-- **Every profile is encoded**, as its payload and checksum. -/
theorem encode_eq (p : BackendCapabilityProfile) :
    encodeBackendCapabilityProfile p = .ok (payload p ++ (External.sha256 (payload p)).val) := by
  have hlen := (External.sha256 (payload p)).property
  have hbound := payload_bound p
  rw [checksumSize] at hbound
  have hpayload := (emits_profile p).fits [] (by rw [List.length_nil, Nat.zero_add]; omega)
  have hchecksum := (@Writer.emits_checksum profileFormat _ (payload p)).fits (payload p) (by omega)
  rw [encodeBackendCapabilityProfile, hpayload]
  change (do
    let (_, output) ← Writer.identity profileFormat (sha256Hex (payload p)) (payload p)
    return output) = _
  rw [hchecksum]
  rfl

/-- Its size is that of the payload and the checksum. -/
theorem encode_length {p : BackendCapabilityProfile} {b : Bytes}
    (h : encodeBackendCapabilityProfile p = .ok b) :
    b.length = (payload p).length + checksumSize := by
  rw [encode_eq] at h
  obtain rfl := Except.ok.inj h
  rw [List.length_append, (External.sha256 (payload p)).property, checksumSize]

/-! ## 3. Decoding

The record of a profile is read back to its fields, and sealing them gives the profile.  The other
direction needs no reader: the last check compares the encoding of what was decoded with what was
given. -/

/-- **A record is read back as the fields it was written from.** -/
theorem reads_record (p : BackendCapabilityProfile) :
    Reads readRecord (payload p) ⟨p.backend, p.identity.hex.val, p.guarantees⟩ := by
  have hcount := toNat_count p
  have hsize := @Reader.reads_u16 profileFormat (.ofNat p.guarantees.length)
  rw [hcount] at hsize
  have hguarantees : Reads (readGuarantees (UInt16.ofNat p.guarantees.length).toNat)
      (p.guarantees.flatMap (fun g => [enumByte g])) p.guarantees := by
    rw [hcount]
    exact Reads.many (fun g => Reader.reads_enum (decodeEnum_enumByte _ _ g)) _
  unfold readRecord payload
  refine (Reader.reads_magic encodingMagic).bind ?_
  refine (Reader.reads_u16 backendCapabilityProfileEncodingVersion).bind ?_
  refine Reads.lift_bind (a := ()) (refuseIf_eq_ok.mpr (by simp)) ?_
  refine (Reader.reads_identity p.backend).bind ?_
  refine Reads.lift_bind (Identity.fromSha256_hex p.backend) ?_
  refine (Reader.reads_identity p.identity).bind ?_
  refine hsize.bind ?_
  refine Reads.lift_bind (a := ()) (refuseIf_eq_ok.mpr ?_) ?_
  · rw [hcount]
    exact not_lt.mpr (count_le p)
  exact hguarantees.map _

/-- The `catch` clause does not touch what succeeds. -/
theorem decode_eq_ok_of_checked {b : Bytes} {p : BackendCapabilityProfile} :
    decodeBackendCapabilityProfile b = .ok p ↔ decodeChecked b = .ok p := by
  unfold decodeBackendCapabilityProfile
  split
  · rename_i h
    rw [h]
  · rename_i h
    rw [h]
    refine iff_of_false ?_ (by simp)
    split
    · simp
    · exact raise_ne_ok

/-- **The encoding of a profile is decoded to it.** -/
theorem decode_of_encode {p : BackendCapabilityProfile} {b : Bytes}
    (hb : encodeBackendCapabilityProfile p = .ok b) :
    decodeBackendCapabilityProfile b = .ok p := by
  have hbytes := Except.ok.inj (hb.symm.trans (encode_eq p))
  have hdigest := (External.sha256 (payload p)).property
  have hmax := payload_bound p
  have hsize := encode_length hb
  have hmin := payload_length p
  have hmagic := length_encodingMagic
  have hlimit := profileFormat.maximum_lt
  obtain ⟨hpayload, htake, hdrop⟩ := cut_trailer (n := checksumSize) hbytes hdigest
  rw [← take_trailer] at hdrop
  have hread := (reads_record p).run [] (External.sha256 (payload p)).val
    (by rw [List.length_nil, Nat.zero_add, hpayload])
    (show b.length - checksumSize < 2 ^ 64 by omega)
  simp only [List.nil_append, List.length_nil, Nat.zero_add, ← hbytes] at hread
  have hseal : BackendCapabilityProfile.seal p.backend (p.guarantees.map Raw.of) = .ok p :=
    BackendCapabilityProfile.seal_eq_ok.mpr ⟨rfl, fun _ => Iff.rfl⟩
  refine decode_eq_ok_of_checked.mpr ?_
  refine bind_eq_ok.mpr ⟨(), refuseIf_eq_ok.mpr (by omega), ?_⟩
  refine bind_eq_ok.mpr ⟨(), refuseIf_eq_ok.mpr (by omega), ?_⟩
  refine bind_eq_ok.mpr ⟨(), refuseIf_eq_ok.mpr ?_, ?_⟩
  · rw [htake, hdrop, sha256Hex, not_not]
  refine bind_eq_ok.mpr ⟨_, hread, ?_⟩
  refine bind_eq_ok.mpr ⟨((), _), if_neg (not_not.mpr hpayload.symm), ?_⟩
  refine bind_eq_ok.mpr ⟨p, hseal, ?_⟩
  refine bind_eq_ok.mpr ⟨(), refuseIf_eq_ok.mpr (not_not.mpr rfl), ?_⟩
  refine bind_eq_ok.mpr ⟨b, hb, ?_⟩
  exact bind_eq_ok.mpr ⟨(), refuseIf_eq_ok.mpr (not_not.mpr rfl), rfl⟩

/-- **A decoded profile was sealed and encodes to what was decoded.** -/
theorem decode_sealed {b : Bytes} {p : BackendCapabilityProfile}
    (h : decodeBackendCapabilityProfile b = .ok p) :
    (∃ backend guarantees, BackendCapabilityProfile.seal backend guarantees = .ok p) ∧
      encodeBackendCapabilityProfile p = .ok b := by
  rw [decode_eq_ok_of_checked] at h
  unfold decodeChecked at h
  obtain ⟨_, -, h⟩ := bind_ok h
  obtain ⟨_, -, h⟩ := bind_ok h
  obtain ⟨_, -, h⟩ := bind_ok h
  obtain ⟨⟨record, input⟩, -, h⟩ := bind_ok h
  obtain ⟨_, -, h⟩ := bind_ok h
  obtain ⟨decoded, hseal, h⟩ := bind_ok h
  obtain ⟨_, -, h⟩ := bind_ok h
  obtain ⟨canonical, hencode, h⟩ := bind_ok h
  obtain ⟨_, hcanonical, h⟩ := bind_ok h
  obtain rfl := Except.ok.inj h
  obtain rfl := not_not.mp (refuseIf_eq_ok.mp hcanonical)
  exact ⟨⟨_, _, hseal⟩, hencode⟩

/-! ## 4. Refusals

Every code raised in the `try` block is ordinary, so what comes out of the `catch` clause is
`corrupt_encoding`. -/

omit [External] in
/-- Reading a record, -/
theorem fails_readRecord : FailsT Ordinary readRecord := by
  refine (Reader.fails_magic _).bind ?_
  intro _
  refine (Reader.fails_accumulate 2 0).bind ?_
  intro version
  refine (FailsT.lift (fails_refuseIf (by decide))).bind ?_
  intro _
  refine Reader.fails_identity.bind ?_
  intro hex
  refine (FailsT.lift fails_fromSha256).bind ?_
  intro backend
  refine Reader.fails_identity.bind ?_
  intro retainedIdentity
  refine (Reader.fails_accumulate 2 0).bind ?_
  intro guaranteeCount
  refine (FailsT.lift (fails_refuseIf (by decide))).bind ?_
  intro _
  refine (fails_many (Reader.fails_enum (fun _ => fails_decodeEnum)) _).bind ?_
  intro guarantees
  exact FailsT.pure

/-- Sealing fails with a code of its own. -/
theorem fails_seal {backend : BackendIdentity} {values : List (Raw ExecutionGuarantee)} :
    Fails Ordinary (BackendCapabilityProfile.seal backend values) := by
  unfold BackendCapabilityProfile.seal
  split
  · rename_i e hnorm
    exact Fails.error (fails_normalizeGuarantees (by decide) e hnorm)
  · split
    · rename_i e hshape
      exact Fails.error (fails_requireLimitGuaranteeShape (by decide) e hshape)
    · exact Fails.ok

/-- and all the checks around it. -/
theorem fails_decodeChecked (b : Bytes) : Fails Ordinary (decodeChecked b) := by
  refine (fails_refuseIf (by decide)).bind ?_
  intro _
  refine (fails_refuseIf (by decide)).bind ?_
  intro _
  refine (fails_refuseIf (by decide)).bind ?_
  intro _
  refine (fails_readRecord _).bind ?_
  rintro ⟨record, input⟩
  refine (Reader.fails_finish input).bind ?_
  intro _
  refine fails_seal.bind ?_
  intro decoded
  refine (fails_refuseIf (by decide)).bind ?_
  intro _
  rw [encode_eq]
  refine Fails.ok.bind ?_
  intro canonical
  refine (fails_refuseIf (by decide)).bind ?_
  intro _
  exact Fails.ok

/-- **A record that is not decoded is corrupt.** -/
theorem decode_outcomes (b : Bytes) :
    (∃ p, decodeBackendCapabilityProfile b = .ok p) ∨
      Raises (decodeBackendCapabilityProfile b) .corruptEncoding := by
  cases hchecked : decodeChecked b with
  | ok p => exact .inl ⟨p, decode_eq_ok_of_checked.mpr hchecked⟩
  | error e =>
    right
    rw [decodeBackendCapabilityProfile, hchecked]
    by_cases hcorrupt : e.code = .corruptEncoding
    · exact ⟨e, if_pos (.inl hcorrupt), hcorrupt⟩
    · have hordinary := fails_decodeChecked b e hchecked
      exact ⟨_, if_neg (not_or_intro hcorrupt hordinary.2), rfl⟩

/-! ## 5. The decoder is the inverse of the encoder

Both directions and the refusals, in one statement. -/

/-- **The decoder is exactly the inverse of the encoder.**  Every profile has an encoding, a
record is decoded exactly to the sealed profile it is the encoding of, and a record that is the
encoding of none is refused as corrupt. -/
theorem profile_codec_exact :
    (∀ p : BackendCapabilityProfile, ∃ b, encodeBackendCapabilityProfile p = .ok b ∧
      b.length ≤ profileFormat.maximum) ∧
    (∀ b p, decodeBackendCapabilityProfile b = .ok p ↔
      (∃ backend guarantees, BackendCapabilityProfile.seal backend guarantees = .ok p) ∧
        encodeBackendCapabilityProfile p = .ok b) ∧
    (∀ b, (∀ p, ¬ ((∃ backend guarantees,
        BackendCapabilityProfile.seal backend guarantees = .ok p) ∧
        encodeBackendCapabilityProfile p = .ok b)) →
      Raises (decodeBackendCapabilityProfile b) .corruptEncoding) := by
  refine ⟨?_, ?_, ?_⟩
  · intro p
    refine ⟨_, encode_eq p, ?_⟩
    rw [encode_length (encode_eq p)]
    exact payload_bound p
  · intro b p
    constructor
    · exact decode_sealed
    · rintro ⟨-, hb⟩
      exact decode_of_encode hb
  · intro b hnone
    rcases decode_outcomes b with ⟨p, hp⟩ | hraises
    · exact absurd (decode_sealed hp) (hnone p)
    · exact hraises

end ProfileCodec

end ProfileCodec

end Pkgexec
