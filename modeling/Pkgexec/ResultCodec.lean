/-
# The durable encoding of execution results

`src/result_codec.cpp`: a record holds the identities of the request and of the profile, the
evidence, and the SHA-256 checksum of what stands before it.  The decoder is given the request
and the profile again, rebuilds the result through the public factories, and compares identity
and encoding with the record.

So a result is decoded from its own encoding and from nothing else
(`decode_eq_ok_iff`), every decoded result is one that a factory returned, and the invariant of
those holds of it (`obtainable_wellFormed`).
-/
import Pkgexec.Acceptance
import Pkgexec.Codec

namespace Pkgexec

open Bytes Ranges Wire

/-! ## 1. The record

The constants of `src/result_codec.cpp`.  The limit on captured material leaves room for a checksum
and nothing else, so material of that size never fits a record. -/

/-- What the codec of execution results puts into a `Format`. -/
def resultFormat : Format where
  subject := "execution-result"
  maximum := 64 * 1024 * 1024
  code := .inconsistentResult
  guarded := false
  maximum_lt := by decide

def executionResultEncodingVersion : UInt16 := 1

def encodingMagic : Bytes := text "PKGEXR1" ++ [0]

def checksumSize : Nat := 32

def maximumDiagnosticSize : Nat := 1024 * 1024

def maximumCaptureMaterialSize : Nat := resultFormat.maximum - checksumSize

def maximumGuaranteeCount : Nat := 32

/-! ## 2. The encoding of a termination

Behind a flag stand the kind, the value and the limit, the last two optional. -/

def encodeTermination (value : Option ProcessTermination) : Writer :=
  Writer.optional resultFormat value (fun value => do
    Writer.byte resultFormat (enumByte value.kind)
    Writer.optional resultFormat value.value (Writer.u32 resultFormat)
    Writer.optional resultFormat value.limit
      (fun limit => Writer.byte resultFormat (enumByte limit)))

def terminationBytes (value : Option ProcessTermination) : Bytes :=
  IdentityBuilder.optionField (fun t => [enumByte t.kind] ++
    (IdentityBuilder.optionField (fun v : UInt32 => bigEndian 4 v.toNat) t.value ++
      IdentityBuilder.optionField (fun l => [enumByte l]) t.limit)) value

theorem emits_termination (value : Option ProcessTermination) :
    Writer.Emits resultFormat (encodeTermination value) (terminationBytes value) :=
  Writer.emits_optional (fun _ => (Writer.emits_byte _).bind
    ((Writer.emits_optional Writer.emits_u32).bind
      (Writer.emits_optional (fun l => Writer.emits_byte (enumByte l)))))

/-- The number of guarantees survives the cast to 16 bits. -/
theorem toNat_count {n : Nat} (h : n ≤ maximumGuaranteeCount) : (UInt16.ofNat n).toNat = n := by
  rw [UInt16.toNat_ofNat', Nat.mod_eq_of_lt]
  exact lt_of_le_of_lt h (by decide)

/-! ## 3. Decoding the fields

Every enumerator is one byte, and a byte that is none is corrupt.  A termination is read field by
field and then handed to the factory of its kind, which is where fields that do not fit the kind
are refused. -/

/-- `corrupt("execution-result" ...)`. -/
def corruptResult {α : Type} (message : String) : Except Error α :=
  corrupt (resultFormat.message message)

def decodeStatus : UInt8 → Except Error ExecutionStatus :=
  decodeEnum resultFormat " encoding contains an unknown status"

def decodeStartState : UInt8 → Except Error ExecutionStartState :=
  decodeEnum resultFormat " encoding contains an unknown start state"

def decodeGuarantee : UInt8 → Except Error ExecutionGuarantee :=
  decodeEnum resultFormat " encoding contains an unknown guarantee"

def decodeCleanup : UInt8 → Except Error CleanupOutcome :=
  decodeEnum resultFormat " encoding contains an unknown cleanup outcome"

def decodeFailure : UInt8 → Except Error ExecutionFailureKind :=
  decodeEnum resultFormat " encoding contains an unknown failure kind"

def decodeLimit : UInt8 → Except Error ResourceLimitKind :=
  decodeEnum resultFormat " encoding contains an unknown resource limit"

/-- The switch at the end of `decode_termination`. -/
def makeTermination (kind : UInt8) (value : Option UInt32) (limit : Option ResourceLimitKind) :
    Except Error ProcessTermination :=
  if kind = 0 then
    match value, limit with
    | some status, none => ProcessTermination.exited status
    | _, _ => corruptResult " exit termination has invalid fields"
  else if kind = 1 then
    match value, limit with
    | some signal, none => ProcessTermination.signaled signal
    | _, _ => corruptResult " signal termination has invalid fields"
  else if kind = 2 then
    match value, limit with
    | none, none => .ok .cancelled
    | _, _ => corruptResult " cancellation termination has invalid fields"
  else if kind = 3 then
    match value, limit with
    | none, some limit => ProcessTermination.resourceLimited (.of limit)
    | _, _ => corruptResult " limit termination has invalid fields"
  else corruptResult " encoding contains an unknown termination kind"

def readEnum {E : Type} (decode : UInt8 → Except Error E) : ReaderM E :=
  Reader.enum resultFormat decode

def decodeTermination : ReaderM ProcessTermination := do
  let kind ← Reader.byte resultFormat
  let value ← Reader.optional resultFormat (Reader.u32 resultFormat)
  let limit ← Reader.optional resultFormat (readEnum decodeLimit)
  Reader.liftExcept (makeTermination kind value limit)

/-- The loop over the guarantees. -/
def readGuarantees : Nat → ReaderM (List ExecutionGuarantee) := many (readEnum decodeGuarantee)

/-- The loop over the magic bytes. -/
def readMagic : Bytes → ReaderM Unit := Reader.magic resultFormat

/-- The fields of a termination make that termination again. -/
theorem makeTermination_eq (t : ProcessTermination) :
    makeTermination (enumByte t.kind) t.value t.limit = .ok t := by
  have hexited : enumByte ProcessTerminationKind.exited = 0 := by decide
  have hsignaled : enumByte ProcessTerminationKind.signaled = 1 := by decide
  have hcancelled : enumByte ProcessTerminationKind.cancelled = 2 := by decide
  have hlimited : enumByte ProcessTerminationKind.resourceLimited = 3 := by decide
  obtain ⟨kind, value, limit, shape⟩ := t
  cases shape with
  | exited h =>
    rw [makeTermination, if_pos hexited]
    exact dif_neg (UInt32.not_lt.mpr h)
  | signaled h =>
    rw [makeTermination, if_neg (by rw [hsignaled]; decide), if_pos hsignaled]
    exact dif_neg h
  | cancelled =>
    rw [makeTermination, if_neg (by rw [hcancelled]; decide), if_neg (by rw [hcancelled]; decide),
      if_pos hcancelled]
    rfl
  | resourceLimited limit =>
    rw [makeTermination, if_neg (by rw [hlimited]; decide), if_neg (by rw [hlimited]; decide),
      if_neg (by rw [hlimited]; decide), if_pos hlimited]
    simp only [ProcessTermination.resourceLimited, Raw.require_of]
    rfl

/-- A termination is read back. -/
theorem reads_termination (t : ProcessTermination) : Reads decodeTermination
    ([enumByte t.kind] ++
      (IdentityBuilder.optionField (fun v : UInt32 => bigEndian 4 v.toNat) t.value ++
        IdentityBuilder.optionField (fun l => [enumByte l]) t.limit)) t :=
  (Reader.reads_byte _).bind ((Reader.reads_optional (fun v _ => Reader.reads_u32 v)).bind
    ((Reader.reads_optional (fun l _ => Reader.reads_enum (decodeEnum_enumByte _ _ l))).bind_lift
      (makeTermination_eq t)))

section ResultCodec

variable [External]

/-! ## 4. Encoding

The encoder writes field after field; two fields are compared with a limit of their own before they
are written. -/

/-- What `encode_execution_result` writes before the guarantees, -/
def writeEvidence (result : ExecutionResult) : Writer := do
  Writer.raw resultFormat encodingMagic
  Writer.u16 resultFormat executionResultEncodingVersion
  Writer.identity resultFormat result.request.identity.hex.val
  Writer.identity resultFormat result.backend.identity.hex.val
  Writer.identity resultFormat result.identity.hex.val
  Writer.byte resultFormat (enumByte result.status)
  Writer.byte resultFormat (enumByte result.startState)
  Writer.optional resultFormat result.observedInterpreter
    (fun interpreter => Writer.identity resultFormat interpreter.hex.val)
  encodeTermination result.termination
  Writer.capture resultFormat result.standardOutput
  Writer.capture resultFormat result.standardError

/-- and from there to the checksum. -/
def writeOutcome (result : ExecutionResult) : Writer := do
  if result.establishedGuarantees.length > maximumGuaranteeCount then
    Writer.fail .inconsistentResult
      (resultFormat.message " guarantee count exceeds its limit")
  else
    Writer.u16 resultFormat (.ofNat result.establishedGuarantees.length)
    result.establishedGuarantees.forM
      (fun guarantee => Writer.byte resultFormat (enumByte guarantee))
    Writer.byte resultFormat (enumByte result.cleanup)
    Writer.optional resultFormat result.failure
      (fun failure => Writer.byte resultFormat (enumByte failure))
    if result.diagnostic.val.length > maximumDiagnosticSize then
      Writer.fail .inconsistentResult (resultFormat.message " diagnostic exceeds its limit")
    else Writer.text resultFormat result.diagnostic.val

/-- `encode_execution_result`. -/
def encodeExecutionResult (result : ExecutionResult) : Except Error Bytes := do
  let (_, payload) ← (do writeEvidence result; writeOutcome result : Writer) []
  let checksum := sha256Hex payload
  let (_, output) ← Writer.identity resultFormat checksum payload
  return output

/-! ### The bytes

What is written is a list of bytes that can be given without the writer (`payload`).  The encoder
succeeds exactly when the two limits and the bound are respected (`Encodable`), and fails with one
code otherwise. -/

/-- The fields before the guarantees. -/
def evidenceBytes (r : ExecutionResult) : Bytes :=
  encodingMagic ++ (bigEndian 2 executionResultEncodingVersion.toNat ++
  (hexDecode r.request.identity.hex.val ++ (hexDecode r.backend.identity.hex.val ++
  (hexDecode r.identity.hex.val ++ ([enumByte r.status] ++ ([enumByte r.startState] ++
  (IdentityBuilder.optionField (fun i => hexDecode i.hex.val) r.observedInterpreter ++
  (terminationBytes r.termination ++ (Writer.captureBytes r.standardOutput ++
  Writer.captureBytes r.standardError)))))))))

/-- The guarantees and the fields after them. -/
def outcomeBytes (r : ExecutionResult) : Bytes :=
  bigEndian 2 r.establishedGuarantees.length ++
  (r.establishedGuarantees.flatMap (fun g => [enumByte g]) ++ ([enumByte r.cleanup] ++
  (IdentityBuilder.optionField (fun f => [enumByte f]) r.failure ++
  (bigEndian 4 r.diagnostic.val.length ++ r.diagnostic.val))))

/-- The record before the checksum. -/
def payload (r : ExecutionResult) : Bytes := evidenceBytes r ++ outcomeBytes r

/-- **What `encode_execution_result` asks of a result**: its list and its text are within their
own limits, and the record is within the bound. -/
structure Encodable (r : ExecutionResult) : Prop where
  count : r.establishedGuarantees.length ≤ maximumGuaranteeCount
  diagnostic : r.diagnostic.val.length ≤ maximumDiagnosticSize
  size : (payload r).length + checksumSize ≤ resultFormat.maximum

/-- The fields up to the streams are always written, as far as there is room, -/
theorem emits_evidence (r : ExecutionResult) :
    Writer.Emits resultFormat (writeEvidence r) (evidenceBytes r) :=
  (Writer.emits_raw _).bind ((Writer.emits_u16 _).bind ((Writer.emits_identity _).bind
    ((Writer.emits_identity _).bind ((Writer.emits_identity _).bind ((Writer.emits_byte _).bind
    ((Writer.emits_byte _).bind ((Writer.emits_optional (fun i => Writer.emits_identity i)).bind
    ((emits_termination _).bind ((Writer.emits_capture _).bind (Writer.emits_capture _))))))))))

/-- those after them when the two limits are respected, -/
theorem emits_outcome {r : ExecutionResult}
    (hcount : r.establishedGuarantees.length ≤ maximumGuaranteeCount)
    (hdiag : r.diagnostic.val.length ≤ maximumDiagnosticSize) :
    Writer.Emits resultFormat (writeOutcome r) (outcomeBytes r) := by
  have hsize := @Writer.emits_u16 resultFormat (.ofNat r.establishedGuarantees.length)
  rw [toNat_count hcount] at hsize
  rw [writeOutcome, if_neg (not_lt.mpr hcount), if_neg (not_lt.mpr hdiag)]
  exact hsize.bind ((Wire.Emits.forM (fun _ _ => Writer.emits_byte _)).bind
    ((Writer.emits_byte _).bind ((Writer.emits_optional (fun _ => Writer.emits_byte _)).bind
    (Writer.emits_text _))))

/-- and otherwise the writer stops there. -/
theorem halts_outcome {r : ExecutionResult}
    (h : ¬ (r.establishedGuarantees.length ≤ maximumGuaranteeCount ∧
      r.diagnostic.val.length ≤ maximumDiagnosticSize)) :
    Wire.Halts resultFormat.maximum (fun e : Error => e.code = resultFormat.code)
      (writeOutcome r) := by
  rw [writeOutcome]
  split
  · exact Writer.halts_fail _ _ rfl
  · rename_i hcount
    have hlong : r.diagnostic.val.length > maximumDiagnosticSize :=
      not_le.mp (fun hle => h ⟨not_lt.mp hcount, hle⟩)
    refine (Writer.emits_u16 _).bind_halts
      ((Wire.Emits.forM (fun _ _ => Writer.emits_byte _)).bind_halts
      ((Writer.emits_byte _).bind_halts
      ((Writer.emits_optional (fun _ => Writer.emits_byte _)).bind_halts ?_)))
    rw [if_pos hlong]
    exact Writer.halts_fail _ _ rfl

/-- When the payload can be written, what is left is the checksum. -/
theorem encode_of_payload {r : ExecutionResult}
    (hcount : r.establishedGuarantees.length ≤ maximumGuaranteeCount)
    (hdiag : r.diagnostic.val.length ≤ maximumDiagnosticSize)
    (hfit : (payload r).length ≤ resultFormat.maximum) :
    encodeExecutionResult r = (do
      let (_, output) ← Writer.identity resultFormat (sha256Hex (payload r)) (payload r)
      return output) := by
  have hpayload := ((emits_evidence r).bind (emits_outcome hcount hdiag)).fits []
    (by rw [List.length_nil, Nat.zero_add]; exact hfit)
  rw [encodeExecutionResult, hpayload]
  rfl

/-- Within the limits the encoder returns the payload and its checksum, -/
theorem encode_of_encodable {r : ExecutionResult} (h : Encodable r) :
    encodeExecutionResult r = .ok (payload r ++ (External.sha256 (payload r)).val) := by
  have hlen := (External.sha256 (payload r)).property
  have hsize := h.size
  rw [checksumSize] at hsize
  have hchecksum := (@Writer.emits_checksum resultFormat _ (payload r)).fits (payload r) (by omega)
  rw [encode_of_payload h.count h.diagnostic (by omega), hchecksum]
  rfl

/-- and outside of them it is an inconsistent result. -/
theorem encode_raises {r : ExecutionResult} (h : ¬ Encodable r) :
    Raises (encodeExecutionResult r) .inconsistentResult := by
  by_cases hfields : r.establishedGuarantees.length ≤ maximumGuaranteeCount ∧
      r.diagnostic.val.length ≤ maximumDiagnosticSize
  · have hbig : resultFormat.maximum < (payload r).length + 32 :=
      not_le.mp (fun hsize => h ⟨hfields.1, hfields.2, hsize⟩)
    by_cases hfit : (payload r).length ≤ resultFormat.maximum
    · have hlen := (External.sha256 (payload r)).property
      have hchecksum := @Writer.emits_checksum resultFormat _ (payload r)
      obtain ⟨e, he, hcode⟩ := hchecksum.exceeds _ hfit (by omega)
      refine ⟨e, ?_, hcode⟩
      rw [encode_of_payload hfields.1 hfields.2 hfit, he]
      rfl
    · obtain ⟨e, he, hcode⟩ := ((emits_evidence r).bind
        (emits_outcome hfields.1 hfields.2)).exceeds [] (Nat.zero_le _)
        (by rw [List.length_nil, Nat.zero_add]; exact not_le.mp hfit)
      exact ⟨e, by rw [encodeExecutionResult, he]; rfl, hcode⟩
  · obtain ⟨e, he, hcode⟩ := (emits_evidence r).bind_halts (halts_outcome hfields) [] (Nat.zero_le _)
    exact ⟨e, by rw [encodeExecutionResult, he]; rfl, hcode⟩

/-- **A result is encoded as its payload and checksum, exactly when it is within the limits.** -/
theorem encode_eq_ok {r : ExecutionResult} {b : Bytes} :
    encodeExecutionResult r = .ok b ↔
      Encodable r ∧ b = payload r ++ (External.sha256 (payload r)).val := by
  by_cases h : Encodable r
  · rw [encode_of_encodable h]
    exact ⟨fun hb => ⟨h, (Except.ok.inj hb).symm⟩, fun hb => congrArg _ hb.2.symm⟩
  · obtain ⟨e, he, -⟩ := encode_raises h
    rw [he]
    exact iff_of_false (by simp) (fun hb => h hb.1)

/-! ## 5. Rebuilding a result

`rebuild_result` looks at the status, the start state and the failure and calls the public factory
for them, so nothing can be decoded that no factory would return.  For a cancellation it makes a
source for the request, requests the cancellation itself, and passes the token. -/

/-- `rebuild_result`: the factory that the evidence calls for. -/
def rebuildResult (status : ExecutionStatus) (startState : ExecutionStartState)
    (request : ExecutionRequest) (backend : BackendCapabilityProfile)
    (observedInterpreter : Option InterpreterIdentity) (termination : Option ProcessTermination)
    (standardOutput : Option StreamCapture) (standardError : Option StreamCapture)
    (establishedGuarantees : List (Raw ExecutionGuarantee)) (cleanup : CleanupOutcome)
    (failure : Option ExecutionFailureKind) (diagnostic : Str) : Except Error ExecutionResult :=
  if status = .succeeded then
    match observedInterpreter with
    | none => corruptResult " success has an invalid evidence shape"
    | some interpreter => do
      refuseIf (startState ≠ .started ∨ termination = none ∨ failure.isSome = true ∨
          cleanup ≠ .verified) .corruptEncoding
        (resultFormat.message " success has an invalid evidence shape")
      ExecutionResult.succeeded request backend interpreter standardOutput standardError
        establishedGuarantees diagnostic
  else
    match failure with
    | none => corruptResult " failure lacks a failure kind"
    | some failure =>
      if startState = .notStarted then do
        refuseIf (observedInterpreter.isSome = true ∨ termination.isSome = true ∨
            standardOutput.isSome = true ∨ standardError.isSome = true ∨
            cleanup ≠ .notRequired) .corruptEncoding
          (text "not-started execution result has started evidence")
        if failure = .cancelled then do
          let source ← CancellationSource.forRequest request
          refuseIf (source.requestCancellation.1 = false) .corruptEncoding
            (text "cannot reconstruct execution cancellation evidence")
          ExecutionResult.cancelledBeforeStart request backend source.requestCancellation.2.token
            establishedGuarantees diagnostic
        else
          ExecutionResult.failedBeforeStart request backend (.of failure) establishedGuarantees
            diagnostic
      else
        match observedInterpreter, termination with
        | some interpreter, some termination =>
          if failure = .cancelled then do
            let source ← CancellationSource.forRequest request
            refuseIf (source.requestCancellation.1 = false) .corruptEncoding
              (text "cannot reconstruct execution cancellation evidence")
            ExecutionResult.cancelledAfterStart request backend
              source.requestCancellation.2.token interpreter standardOutput standardError
              establishedGuarantees (.of cleanup) diagnostic
          else
            ExecutionResult.failedAfterStart request backend interpreter termination
              standardOutput standardError establishedGuarantees (.of cleanup) (.of failure)
              diagnostic
        | _, _ => corrupt (text "started execution result lacks process evidence")

/-- The evidence a record holds. -/
structure ResultRecord where
  evidenceIdentity : Bytes
  status : ExecutionStatus
  startState : ExecutionStartState
  observedInterpreter : Option InterpreterIdentity
  termination : Option ProcessTermination
  standardOutput : Option StreamCapture
  standardError : Option StreamCapture
  guarantees : List ExecutionGuarantee
  cleanup : CleanupOutcome
  failure : Option ExecutionFailureKind
  diagnostic : Str

/-! ## 6. Decoding

The checks before the reader are on the size and the checksum.  After it come the comparisons of
what was rebuilt with the record: the identity, and the whole encoding. -/

/-- The reading part of `decode_execution_result`, up to `input.finish()`. -/
def readRecord (request : ExecutionRequest) (backend : BackendCapabilityProfile) :
    ReaderM ResultRecord := do
  readMagic encodingMagic
  let version ← Reader.u16 resultFormat
  Reader.liftExcept (refuseIf (version ≠ executionResultEncodingVersion) .corruptEncoding
    (resultFormat.message " encoding version is unsupported"))
  let requestIdentity ← Reader.identity resultFormat
  let backendIdentity ← Reader.identity resultFormat
  let evidenceIdentity ← Reader.identity resultFormat
  Reader.liftExcept (refuseIf (request.identity.hex.val ≠ requestIdentity) .authorityMismatch
    (resultFormat.message " record belongs to another execution request"))
  Reader.liftExcept (refuseIf (backend.identity.hex.val ≠ backendIdentity) .authorityMismatch
    (resultFormat.message " record belongs to another backend profile"))
  let status ← readEnum decodeStatus
  let startState ← readEnum decodeStartState
  let observedInterpreter ← Reader.optional resultFormat (do
    let hex ← Reader.identity resultFormat
    Reader.liftExcept (Identity.fromSha256 hex))
  let termination ← Reader.optional resultFormat decodeTermination
  let standardOutput ← Reader.capture resultFormat maximumCaptureMaterialSize
  let standardError ← Reader.capture resultFormat maximumCaptureMaterialSize
  let guaranteeCount ← Reader.u16 resultFormat
  Reader.liftExcept (refuseIf (guaranteeCount.toNat > maximumGuaranteeCount) .corruptEncoding
    (resultFormat.message " guarantee count exceeds its limit"))
  let guarantees ← readGuarantees guaranteeCount.toNat
  Reader.liftExcept (refuseIf (isSorted guarantees = false ∨
      (adjacentFind (· == ·) guarantees).isSome = true) .corruptEncoding
    (resultFormat.message " guarantees are not canonical"))
  let cleanup ← readEnum decodeCleanup
  let failure ← Reader.optional resultFormat (readEnum decodeFailure)
  let diagnostic ← Reader.text resultFormat maximumDiagnosticSize
  return ⟨evidenceIdentity, status, startState, observedInterpreter, termination,
    standardOutput, standardError, guarantees, cleanup, failure, diagnostic⟩

/-- The body of the `try` block. -/
def decodeChecked (encoding : Bytes) (request : ExecutionRequest)
    (backend : BackendCapabilityProfile) : Except Error ExecutionResult := do
  refuseIf (encoding.length > resultFormat.maximum) .corruptEncoding
    (resultFormat.message " encoding exceeds maximum size")
  refuseIf (encoding.length < encodingMagic.length + 2 + checksumSize) .corruptEncoding
    (resultFormat.message " encoding is truncated")
  let payloadSize := encoding.length - checksumSize
  let actualChecksum := sha256Hex (encoding.take payloadSize)
  let retainedChecksum := hexEncode ((encoding.drop payloadSize).take checksumSize)
  refuseIf (retainedChecksum ≠ actualChecksum) .corruptEncoding
    (resultFormat.message " encoding checksum mismatch")
  let (record, input) ← readRecord request backend ⟨encoding, payloadSize, 0⟩
  let _ ← Reader.finish resultFormat input
  let decoded ← rebuildResult record.status record.startState request backend
    record.observedInterpreter record.termination record.standardOutput record.standardError
    (record.guarantees.map Raw.of) record.cleanup record.failure record.diagnostic
  refuseIf (decoded.identity.hex.val ≠ record.evidenceIdentity) .corruptEncoding
    (resultFormat.message " evidence identity mismatch")
  let canonical ← encodeExecutionResult decoded
  refuseIf (canonical ≠ encoding) .corruptEncoding
    (resultFormat.message " encoding is not canonical")
  return decoded

/-- `decode_execution_result`: the `catch` clause lets three codes through. -/
def decodeExecutionResult (encoding : Bytes) (request : ExecutionRequest)
    (backend : BackendCapabilityProfile) : Except Error ExecutionResult :=
  match decodeChecked encoding request backend with
  | .ok decoded => .ok decoded
  | .error failure =>
    if failure.code = .corruptEncoding ∨ failure.code = .authorityMismatch ∨
        failure.code = .identityFailed then .error failure
    else
      corrupt (resultFormat.message " encoding violates the result contract: " ++ failure.what)

/-! ### What is read back

The fields of an encodable result are read as they were written, whatever follows them. -/

/-- The record a result is written as. -/
def ResultRecord.of (r : ExecutionResult) : ResultRecord :=
  ⟨r.identity.hex.val, r.status, r.startState, r.observedInterpreter, r.termination,
    r.standardOutput, r.standardError, r.establishedGuarantees, r.cleanup, r.failure, r.diagnostic⟩

/-- Retained material is part of the capture. -/
theorem material_le {c : StreamCapture} {m : Str} (hm : c.material = some m) :
    m.val.length ≤ (Writer.captureBytes (some c)).length := by
  simp only [Writer.captureBytes, IdentityBuilder.optionField, hm, Option.elim_some,
    List.length_append]
  omega

/-- The material of a stream that is encoded within the bound can be read back. -/
theorem material_bound {r : ExecutionResult} (h : Encodable r) {o : Option StreamCapture}
    (ho : o = r.standardOutput ∨ o = r.standardError) :
    ∀ c ∈ o, ∀ m ∈ c.material,
      m.val.length ≤ maximumCaptureMaterialSize ∧ m.val.length < 2 ^ 32 := by
  rintro c rfl m hm
  have hcapture := material_le hm
  have hpayload : (Writer.captureBytes (some c)).length ≤ (payload r).length := by
    rcases ho with ho | ho <;>
      (rw [payload, evidenceBytes, ho]; simp only [List.length_append]; omega)
  have hsize := h.size
  have hmax : maximumCaptureMaterialSize = resultFormat.maximum - checksumSize := rfl
  have hlt := resultFormat.maximum_lt
  omega

/-- **A record is read back as the fields it was written from.** -/
theorem reads_record {r : ExecutionResult} (henc : Encodable r)
    (hstrict : r.establishedGuarantees.Pairwise (· < ·)) :
    Reads (readRecord r.request r.backend) (payload r) (ResultRecord.of r) := by
  have hcount := toNat_count henc.count
  have hsize := @Reader.reads_u16 resultFormat (.ofNat r.establishedGuarantees.length)
  rw [hcount] at hsize
  have hguarantees : Reads (readGuarantees (UInt16.ofNat r.establishedGuarantees.length).toNat)
      (r.establishedGuarantees.flatMap (fun g => [enumByte g])) r.establishedGuarantees := by
    rw [hcount]
    exact Reads.many (fun g => Reader.reads_enum (decodeEnum_enumByte _ _ g)) _
  have hcanonical := canonical_of_strict (r := (· == ·)) (fun _ _ => beq_iff_eq) hstrict
  have hinterpreter : ∀ i ∈ r.observedInterpreter, Reads (do
      let hex ← Reader.identity resultFormat
      Reader.liftExcept (Identity.fromSha256 hex)) (hexDecode i.hex.val) i := fun i _ =>
    (Reader.reads_identity i).bind_lift (Identity.fromSha256_hex i)
  have hdiag : r.diagnostic.val.length < 2 ^ 32 := lt_of_le_of_lt henc.diagnostic (by decide)
  simp only [payload, evidenceBytes, outcomeBytes, List.append_assoc]
  unfold readRecord
  -- the header, and the identities of the request and the profile
  refine (Reader.reads_magic encodingMagic).bind ?_
  refine (Reader.reads_u16 executionResultEncodingVersion).bind ?_
  refine Reads.lift_bind (a := ()) (refuseIf_eq_ok.mpr (by simp)) ?_
  refine (Reader.reads_identity r.request.identity).bind ?_
  refine (Reader.reads_identity r.backend.identity).bind ?_
  refine (Reader.reads_identity r.identity).bind ?_
  refine Reads.lift_bind (a := ()) (refuseIf_eq_ok.mpr (by simp)) ?_
  refine Reads.lift_bind (a := ()) (refuseIf_eq_ok.mpr (by simp)) ?_
  -- the process evidence
  refine (Reader.reads_enum (decodeEnum_enumByte _ _ r.status)).bind ?_
  refine (Reader.reads_enum (decodeEnum_enumByte _ _ r.startState)).bind ?_
  refine (Reader.reads_optional hinterpreter).bind ?_
  refine (Reader.reads_optional (fun t _ => reads_termination t)).bind ?_
  refine (Reader.reads_capture (material_bound henc (Or.inl rfl))).bind ?_
  refine (Reader.reads_capture (material_bound henc (Or.inr rfl))).bind ?_
  -- the guarantees
  refine hsize.bind ?_
  refine Reads.lift_bind (a := ()) (refuseIf_eq_ok.mpr ?_) ?_
  · rw [hcount]
    exact not_lt.mpr henc.count
  refine hguarantees.bind ?_
  refine Reads.lift_bind (a := ()) (refuseIf_eq_ok.mpr ?_) ?_
  · rw [hcanonical.1, hcanonical.2]
    exact not_or_intro (by decide) (by decide)
  -- the outcome
  refine (Reader.reads_enum (decodeEnum_enumByte _ _ r.cleanup)).bind ?_
  refine (Reader.reads_optional (fun f _ => Reader.reads_enum (decodeEnum_enumByte _ _ f))).bind ?_
  exact (Reader.reads_text henc.diagnostic hdiag).map _

/-! ## 7. The decoder inverts the encoder

In one direction the record of a built result is read back, its fields are evidence, and the
factory returns the same result.  In the other the last comparison alone is enough: what was
rebuilt encodes to what was given. -/

/-- What a rebuilt result is: a factory returned it, for the given request and profile. -/
theorem rebuild_built {status : ExecutionStatus} {startState : ExecutionStartState}
    {q : ExecutionRequest} {p : BackendCapabilityProfile}
    {interpreter : Option InterpreterIdentity} {termination : Option ProcessTermination}
    {output error : Option StreamCapture} {established : List (Raw ExecutionGuarantee)}
    {cleanup : CleanupOutcome} {failure : Option ExecutionFailureKind} {d : Str}
    {r : ExecutionResult}
    (h : rebuildResult status startState q p interpreter termination output error established
      cleanup failure d = .ok r) :
    ∃ call : FactoryCall, call.run = .ok r ∧ call.request = q ∧ call.backend = p := by
  unfold rebuildResult at h
  split at h
  · split at h
    · exact absurd h raise_ne_ok
    · obtain ⟨_, -, h⟩ := bind_ok h
      exact ⟨.succeeded .., h, rfl, rfl⟩
  split at h
  · exact absurd h raise_ne_ok
  split at h
  · obtain ⟨_, -, h⟩ := bind_ok h
    split at h
    · obtain ⟨_, -, h⟩ := bind_ok h
      obtain ⟨_, -, h⟩ := bind_ok h
      exact ⟨.cancelledBeforeStart .., h, rfl, rfl⟩
    · exact ⟨.failedBeforeStart .., h, rfl, rfl⟩
  split at h
  · split at h
    · obtain ⟨_, -, h⟩ := bind_ok h
      obtain ⟨_, -, h⟩ := bind_ok h
      exact ⟨.cancelledAfterStart .., h, rfl, rfl⟩
    · exact ⟨.failedAfterStart .., h, rfl, rfl⟩
  · exact absurd h raise_ne_ok

section Rebuild

variable {q : ExecutionRequest} {p : BackendCapabilityProfile} {i : InterpreterIdentity}
  {t : ProcessTermination} {o e : Option StreamCapture} {es : List (Raw ExecutionGuarantee)}
  {c : CleanupOutcome} {f : ExecutionFailureKind} {d : Str}

/-! Which factory is called for which shape of evidence. -/

theorem rebuild_succeeded :
    rebuildResult .succeeded .started q p (some i) (some t) o e es .verified none d =
      ExecutionResult.succeeded q p i o e es d := rfl

theorem rebuild_failedBeforeStart (h : f ≠ .cancelled) :
    rebuildResult .failed .notStarted q p none none none none es .notRequired (some f) d =
      ExecutionResult.failedBeforeStart q p (.of f) es d :=
  if_neg h

theorem rebuild_failedAfterStart (h : f ≠ .cancelled) :
    rebuildResult .failed .started q p (some i) (some t) o e es c (some f) d =
      ExecutionResult.failedAfterStart q p i t o e es (.of c) (.of f) d :=
  if_neg h

/-- A cancellation is rebuilt with a token made for the request. -/
theorem rebuild_token (h : q.cancellation.mode ≠ .disabled)
    (factory : CancellationToken → Except Error ExecutionResult) :
    (do
      let source ← CancellationSource.forRequest q
      refuseIf (source.requestCancellation.1 = false) .corruptEncoding
        (text "cannot reconstruct execution cancellation evidence")
      factory source.requestCancellation.2.token) = factory ⟨q.identity, true⟩ := by
  rw [CancellationSource.forRequest_eq_ok.mpr ⟨h, rfl⟩]
  rfl

theorem rebuild_cancelledBeforeStart (h : q.cancellation.mode ≠ .disabled) :
    rebuildResult .failed .notStarted q p none none none none es .notRequired (some .cancelled) d =
      ExecutionResult.cancelledBeforeStart q p ⟨q.identity, true⟩ es d :=
  rebuild_token h (fun token => ExecutionResult.cancelledBeforeStart q p token es d)

theorem rebuild_cancelledAfterStart (h : q.cancellation.mode ≠ .disabled) :
    rebuildResult .failed .started q p (some i) (some t) o e es c (some .cancelled) d =
      ExecutionResult.cancelledAfterStart q p ⟨q.identity, true⟩ i o e es (.of c) d :=
  rebuild_token h (fun token => ExecutionResult.cancelledAfterStart q p token i o e es (.of c) d)

end Rebuild

/-- **A result is rebuilt from its own fields.** -/
theorem rebuild_of_evidence {r : ExecutionResult} (h : ResultEvidence r) :
    rebuildResult r.status r.startState r.request r.backend r.observedInterpreter r.termination
      r.standardOutput r.standardError (r.establishedGuarantees.map Raw.of) r.cleanup r.failure
      r.diagnostic = .ok r := by
  cases h with
  | failedBeforeStart kind evidence supported =>
    have hcancelled := preStartFailure_ne_cancelled kind
    exact (rebuild_failedBeforeStart hcancelled).trans
      (failedBeforeStart_eq_ok.mpr ⟨_, _, rfl, kind, evidence, supported, rfl⟩)
  | cancelledBeforeStart enabled evidence supported established =>
    exact (rebuild_cancelledBeforeStart enabled).trans
      (cancelledBeforeStart_eq_ok.mpr
        ⟨_, ⟨enabled, rfl, rfl⟩, evidence, supported, established, rfl⟩)
  | succeeded evidence captured =>
    exact rebuild_succeeded.trans (succeeded_eq_ok.mpr ⟨evidence, captured, rfl⟩)
  | failedAfterStart evidence =>
    have hcancelled := evidence.shown.ne_cancelled
    exact (rebuild_failedAfterStart hcancelled).trans
      (failedAfterStart_eq_ok.mpr ⟨_, _, rfl, rfl, evidence, rfl⟩)
  | cancelledAfterStart enabled evidence =>
    exact (rebuild_cancelledAfterStart enabled).trans
      (cancelledAfterStart_eq_ok.mpr ⟨_, rfl, ⟨enabled, rfl, rfl⟩, evidence, rfl⟩)

/-- The `catch` clause does not touch what succeeds. -/
theorem decode_eq_ok_of_checked {b : Bytes} {q : ExecutionRequest} {p : BackendCapabilityProfile}
    {r : ExecutionResult} : decodeExecutionResult b q p = .ok r ↔ decodeChecked b q p = .ok r := by
  unfold decodeExecutionResult
  split
  · rename_i h
    rw [h]
  · rename_i h
    rw [h]
    refine iff_of_false ?_ (by simp)
    split
    · simp
    · exact raise_ne_ok

/-- The header is always there. -/
theorem header_le_payload (r : ExecutionResult) :
    encodingMagic.length + 2 ≤ (payload r).length := by
  simp only [payload, evidenceBytes, List.length_append, length_bigEndian]
  omega

/-- **The encoding of a result is decoded to it.** -/
theorem decode_of_encode {r : ExecutionResult} (h : ResultEvidence r) {b : Bytes}
    (hb : encodeExecutionResult r = .ok b) :
    decodeExecutionResult b r.request r.backend = .ok r := by
  obtain ⟨henc, hbytes⟩ := encode_eq_ok.mp hb
  have hdigest := (External.sha256 (payload r)).property
  have hheader := header_le_payload r
  have hmax := henc.size
  have hsize : b.length = (payload r).length + checksumSize := by
    rw [hbytes, List.length_append, hdigest, checksumSize]
  obtain ⟨hpayload, htake, hdrop⟩ := cut_trailer (n := checksumSize) hbytes hdigest
  rw [← take_trailer] at hdrop
  -- the payload stands at the front of the input
  have hlimit := resultFormat.maximum_lt
  have hread := (reads_record henc h.established_strict).run [] (External.sha256 (payload r)).val
    (by rw [List.length_nil, Nat.zero_add, hpayload])
    (show b.length - checksumSize < 2 ^ 64 by omega)
  simp only [List.nil_append, List.length_nil, Nat.zero_add, ← hbytes] at hread
  refine decode_eq_ok_of_checked.mpr ?_
  refine bind_eq_ok.mpr ⟨(), refuseIf_eq_ok.mpr (by omega), ?_⟩
  refine bind_eq_ok.mpr ⟨(), refuseIf_eq_ok.mpr (by omega), ?_⟩
  refine bind_eq_ok.mpr ⟨(), refuseIf_eq_ok.mpr ?_, ?_⟩
  · rw [htake, hdrop, sha256Hex, not_not]
  refine bind_eq_ok.mpr ⟨_, hread, ?_⟩
  refine bind_eq_ok.mpr ⟨((), _), if_neg (not_not.mpr hpayload.symm), ?_⟩
  refine bind_eq_ok.mpr ⟨r, rebuild_of_evidence h, ?_⟩
  refine bind_eq_ok.mpr ⟨(), refuseIf_eq_ok.mpr (not_not.mpr rfl), ?_⟩
  refine bind_eq_ok.mpr ⟨b, hb, ?_⟩
  exact bind_eq_ok.mpr ⟨(), refuseIf_eq_ok.mpr (not_not.mpr rfl), rfl⟩

/-- **A decoded result was built and encodes to what was decoded.** -/
theorem decode_built {b : Bytes} {q : ExecutionRequest} {p : BackendCapabilityProfile}
    {r : ExecutionResult} (h : decodeExecutionResult b q p = .ok r) :
    Built r ∧ r.request = q ∧ r.backend = p ∧ encodeExecutionResult r = .ok b := by
  rw [decode_eq_ok_of_checked] at h
  unfold decodeChecked at h
  obtain ⟨_, -, h⟩ := bind_ok h
  obtain ⟨_, -, h⟩ := bind_ok h
  obtain ⟨_, -, h⟩ := bind_ok h
  obtain ⟨⟨record, input⟩, -, h⟩ := bind_ok h
  obtain ⟨_, -, h⟩ := bind_ok h
  obtain ⟨decoded, hrebuild, h⟩ := bind_ok h
  obtain ⟨_, -, h⟩ := bind_ok h
  obtain ⟨canonical, hencode, h⟩ := bind_ok h
  obtain ⟨_, hcanonical, h⟩ := bind_ok h
  obtain rfl := Except.ok.inj h
  obtain rfl := not_not.mp (refuseIf_eq_ok.mp hcanonical)
  obtain ⟨call, hrun, rfl, rfl⟩ := rebuild_built hrebuild
  obtain ⟨hrequest, hbackend⟩ := FactoryCall.run_parties hrun
  exact ⟨⟨call, hrun⟩, hrequest, hbackend, hencode⟩

/-- **The decoder is the partial inverse of the encoder on built results.** -/
theorem decode_eq_ok_iff (b : Bytes) (q : ExecutionRequest) (p : BackendCapabilityProfile)
    (r : ExecutionResult) :
    decodeExecutionResult b q p = .ok r ↔
      Built r ∧ r.request = q ∧ r.backend = p ∧ encodeExecutionResult r = .ok b := by
  constructor
  · exact decode_built
  · rintro ⟨hbuilt, rfl, rfl, hb⟩
    exact decode_of_encode hbuilt.evidence hb

/-- **Every result that is built or decoded is well formed.** -/
theorem obtainable_wellFormed {r : ExecutionResult}
    (h : Built r ∨ ∃ b q p, decodeExecutionResult b q p = .ok r) : WellFormed r := by
  rcases h with hbuilt | ⟨b, q, p, hdecode⟩
  · exact hbuilt.evidence.wellFormed
  · exact (decode_built hdecode).1.evidence.wellFormed

end ResultCodec

open Sample in
/-- The report of a failed cleanup, read from its record. -/
theorem obtainable_wellFormed_decoded :
    ∃ b, decodeExecutionResult b (request .discard) (profile (request .discard))
        = .ok (cleanupFailedResult .exitedZero diagnostic) ∧
      WellFormed (cleanupFailedResult .exitedZero diagnostic) := by
  have hbuilt : Built (cleanupFailedResult .exitedZero diagnostic) :=
    ⟨_, run_cleanupFailedCall .exitedZero diagnostic⟩
  have henc : Encodable (cleanupFailedResult .exitedZero diagnostic) :=
    ⟨by decide +kernel, by decide, by decide +kernel⟩
  have hdecode := decode_of_encode hbuilt.evidence (encode_of_encodable henc)
  exact ⟨_, hdecode, obtainable_wellFormed (Or.inr ⟨_, _, _, hdecode⟩)⟩

end Pkgexec
