/-
# Which error a record is refused with

`decode_execution_result` (`src/result_codec.cpp`) has two ways to refuse a record:
`authority_mismatch` for a sound record of another request or profile, and `corrupt_encoding`
for everything else.  Its `catch` clause turns every code but three into the second, and the
two checks that raise the first stand behind the header.

So the question is which codes can reach the `catch` clause.  Sections 1 to 4 go through the
reader, the factories and the encoder: their errors are all `Ordinary`, neither of the codes that
pass.  Section 5 reads the header off the bytes of the record, and section 6 puts the two
together (`refusals_exact`).
-/
import Pkgexec.Lib.Failures
import Pkgexec.ResultCodec

namespace Pkgexec

open Bytes Ranges Wire Failures

/-! ## 1. Ordinary errors

A check raises the code that it is given.  So its lemma asks for an ordinary code, and where the
check is used the question is decided by looking at the code. -/

/-- A code that a decoder's `catch` clause turns into `corrupt_encoding`. -/
def OrdinaryCode (code : ErrorCode) : Prop := code ≠ .authorityMismatch ∧ code ≠ .identityFailed

instance (code : ErrorCode) : Decidable (OrdinaryCode code) := inferInstanceAs (Decidable (_ ∧ _))

/-- An error with such a code. -/
def Ordinary (e : Error) : Prop := OrdinaryCode e.code

section Checks

variable {α : Type} {code : ErrorCode} {message : Bytes}

theorem fails_raise (h : OrdinaryCode code) :
    Fails Ordinary (raise code message : Except Error α) :=
  Fails.error h

theorem fails_corrupt : Fails Ordinary (corrupt message : Except Error α) :=
  fails_raise (by decide)

/-- Here and in the checks below, `decide` settles the hypothesis for a code of the source. -/
theorem fails_refuseIf {c : Prop} [Decidable c] (h : OrdinaryCode code) :
    Fails Ordinary (refuseIf c code message) := by
  unfold refuseIf
  split
  · exact fails_raise h
  · exact Fails.ok

theorem fails_require {E : Type} [DecidableEq E] [Enumeration E] {r : Raw E}
    (h : OrdinaryCode code) : Fails Ordinary (r.require code message) := by
  unfold Raw.require
  split
  · exact Fails.ok
  · exact fails_raise h

theorem fails_requireAll {E : Type} [DecidableEq E] [Enumeration E] {rs : List (Raw E)}
    (h : OrdinaryCode code) : Fails Ordinary (Raw.requireAll rs code message) :=
  Fails.mapM (fun _ _ => fails_require h)

/-- A text that is no digest is an invalid identity, which is ordinary. -/
theorem fails_fromSha256 {kind : IdentityKind} {hex : Bytes} :
    Fails Ordinary (Identity.fromSha256 hex : Except Error (Identity kind)) := by
  have hdigits : Fails Ordinary (requireSha256Hex hex) := by
    unfold requireSha256Hex
    split
    · exact fails_raise (by decide)
    · split
      · exact Fails.ok
      · exact fails_raise (by decide)
  unfold Identity.fromSha256
  refine hdigits.bind ?_
  intro isHex
  exact Fails.ok

end Checks

/-! ## 2. The reader

The reader raises `corrupt_encoding`, and whatever the constructors raise that it hands its fields
to, which is ordinary as well.  The lemmas follow the operations of `Codec` one by one, and then the
loops and the fields of the two decoders. -/

namespace Reader

variable {fmt : Format} {α : Type}

theorem fails_require {size : Nat} : FailsT Ordinary (require fmt size) := by
  intro r
  unfold require
  split
  · exact fails_corrupt
  · exact Fails.ok

theorem fails_slice {n : Nat} : FailsT Ordinary (slice fmt n) := by
  refine fails_require.bind ?_
  intro _ r
  exact Fails.ok

theorem fails_byte : FailsT Ordinary (byte fmt) := by
  refine fails_slice.bind ?_
  intro value
  exact FailsT.pure

/-- A number is read byte by byte, so there is one lemma for all widths. -/
theorem fails_accumulate {step : α → UInt8 → α} (n : Nat) (value : α) :
    FailsT Ordinary (accumulate fmt step n value) := by
  induction n generalizing value with
  | zero => exact FailsT.pure
  | succ n ih =>
    refine fails_byte.bind ?_
    intro current
    exact ih _

theorem fails_boolean : FailsT Ordinary (boolean fmt) := by
  refine fails_byte.bind ?_
  intro value
  split
  · exact FailsT.lift fails_corrupt
  · exact FailsT.pure

theorem fails_text {maximum : Nat} : FailsT Ordinary (text fmt maximum) := by
  refine (fails_accumulate 4 0).bind ?_
  intro size
  split
  · exact FailsT.lift fails_corrupt
  · refine fails_slice.bind ?_
    intro value
    exact FailsT.pure

theorem fails_identity : FailsT Ordinary (identity fmt) := by
  refine fails_slice.bind ?_
  intro value
  exact FailsT.pure

/-- The flag, and then what it announces. -/
theorem fails_optional {body : ReaderM α} (h : FailsT Ordinary body) :
    FailsT Ordinary (optional fmt body) := by
  refine fails_boolean.bind ?_
  intro present
  split
  · refine h.bind ?_
    intro value
    exact FailsT.pure
  · exact FailsT.pure

/-- The digest of a capture is made by `from_sha256`, which has a code of its own. -/
theorem fails_capture [External] {maximum : Nat} : FailsT Ordinary (capture fmt maximum) := by
  refine fails_optional ?_
  refine (fails_accumulate 8 0).bind ?_
  intro count
  refine fails_identity.bind ?_
  intro hex
  refine (FailsT.lift fails_fromSha256).bind ?_
  intro digest
  refine (fails_optional fails_text).bind ?_
  intro material
  split
  · exact FailsT.pure
  · dsimp only
    split
    · exact FailsT.lift fails_corrupt
    · exact FailsT.pure

theorem fails_finish : FailsT Ordinary (finish fmt) := by
  intro r
  unfold finish
  split
  · exact fails_corrupt
  · exact Fails.ok

theorem fails_enum {E : Type} {decode : UInt8 → Except Error E}
    (h : ∀ value, Fails Ordinary (decode value)) : FailsT Ordinary (enum fmt decode) := by
  refine fails_byte.bind ?_
  intro value
  exact FailsT.lift (h value)

/-- The loop over the magic bytes, of either decoder. -/
theorem fails_magic (bytes : Bytes) : FailsT Ordinary (magic fmt bytes) := by
  induction bytes with
  | nil => exact FailsT.pure
  | cons expected rest ih =>
    refine fails_byte.bind ?_
    intro value
    refine (FailsT.lift (fails_refuseIf (by decide))).bind ?_
    intro _
    exact ih

end Reader

/-- A loop fails as its body does. -/
theorem fails_many {α : Type} {m : ReaderM α} (h : FailsT Ordinary m) (count : Nat) :
    FailsT Ordinary (many m count) := by
  induction count with
  | zero => exact FailsT.pure
  | succ count ih =>
    refine h.bind ?_
    intro a
    refine ih.bind ?_
    intro rest
    exact FailsT.pure

/-- An unknown enumerator is corrupt. -/
theorem fails_decodeEnum {E : Type} [DecidableEq E] [Enumeration E] {fmt : Format}
    {message : String} {value : UInt8} :
    Fails Ordinary (decodeEnum fmt message value : Except Error E) := by
  unfold decodeEnum
  split
  · exact Fails.ok
  · exact fails_corrupt

/-- A kind of termination with the wrong fields is corrupt, and with the right ones it is up to the
factory of that kind. -/
theorem fails_makeTermination {kind : UInt8} {value : Option UInt32}
    {limit : Option ResourceLimitKind} : Fails Ordinary (makeTermination kind value limit) := by
  have hexited : ∀ status, Fails Ordinary (ProcessTermination.exited status) := by
    intro status
    unfold ProcessTermination.exited
    split
    · exact fails_raise (by decide)
    · exact Fails.ok
  have hsignaled : ∀ signal, Fails Ordinary (ProcessTermination.signaled signal) := by
    intro signal
    unfold ProcessTermination.signaled
    split
    · exact fails_raise (by decide)
    · exact Fails.ok
  have hlimited : ∀ limit, Fails Ordinary (ProcessTermination.resourceLimited limit) := by
    intro limit
    refine (fails_require (by decide)).bind ?_
    intro kind
    exact Fails.ok
  unfold makeTermination
  split
  · split
    · exact hexited _
    · exact fails_corrupt
  split
  · split
    · exact hsignaled _
    · exact fails_corrupt
  split
  · split
    · exact Fails.ok
    · exact fails_corrupt
  split
  · split
    · exact hlimited _
    · exact fails_corrupt
  · exact fails_corrupt

theorem fails_decodeTermination : FailsT Ordinary decodeTermination := by
  refine Reader.fails_byte.bind ?_
  intro kind
  refine (Reader.fails_optional (Reader.fails_accumulate 4 0)).bind ?_
  intro value
  refine (Reader.fails_optional (Reader.fails_enum (fun _ => fails_decodeEnum))).bind ?_
  intro limit
  exact FailsT.lift fails_makeTermination

section ResultCodec

variable [External]

/-! ## 3. The factories

`rebuild_result` hands the fields of a record to one of the factories, and for a cancellation it
first makes a source of its own.  The lemmas go through their checks in the order of the source;
all there is to see is the code of each. -/

section Factories

variable {q : ExecutionRequest} {p : BackendCapabilityProfile} {t : ProcessTermination}
  {i : InterpreterIdentity} {o e : Option StreamCapture} {es : List (Raw ExecutionGuarantee)}
  {gs : List ExecutionGuarantee} {c : CleanupOutcome} {f : ExecutionFailureKind} {d : Str}
  {token : CancellationToken} {admitted : Bool}

omit [External] in
/-- An unknown guarantee is refused with the code of the caller. -/
theorem fails_normalizeGuarantees {code : ErrorCode} {subject : String} (h : OrdinaryCode code) :
    Fails Ordinary (normalizeGuarantees es code subject) := by
  refine (fails_requireAll h).bind ?_
  intro values
  exact Fails.ok

omit [External] in
theorem fails_requireLimitGuaranteeShape {code : ErrorCode} {subject : String}
    (h : OrdinaryCode code) : Fails Ordinary (requireLimitGuaranteeShape gs code subject) :=
  fails_refuseIf h

theorem fails_requireRequestedGuarantees : Fails Ordinary (requireRequestedGuarantees gs q) :=
  fails_refuseIf (by decide)

theorem fails_requireSubset : Fails Ordinary (requireSubset gs p) :=
  fails_refuseIf (by decide)

theorem fails_requireCaptureShape {lenient : Bool} :
    Fails Ordinary (requireCaptureShape q o e lenient) :=
  fails_refuseIf (by decide)

/-- The codes of a control that does not fit are `invalid_control` and `control_mismatch`. -/
theorem fails_requireRequestedControl : Fails Ordinary (requireRequestedControl q token) := by
  have hcontrol : Fails Ordinary (requireCancellationControl q token) := by
    refine (fails_refuseIf (by decide)).bind ?_
    intro _
    exact fails_refuseIf (by decide)
  refine hcontrol.bind ?_
  intro _
  exact fails_refuseIf (by decide)

/-- The checks that three factories make of the guarantees they are given. -/
theorem fails_guaranteeChecks {k : List ExecutionGuarantee → Except Error ExecutionResult}
    (hk : ∀ gs, Fails Ordinary (k gs)) : Fails Ordinary (do
      let established ← normalizeGuarantees es .inconsistentResult "execution result"
      requireLimitGuaranteeShape established .inconsistentResult "execution result"
      requireRequestedGuarantees established q
      requireSubset established p
      k established) := by
  refine (fails_normalizeGuarantees (by decide)).bind (fun established => ?_)
  refine (fails_requireLimitGuaranteeShape (by decide)).bind (fun _ => ?_)
  refine fails_requireRequestedGuarantees.bind (fun _ => ?_)
  refine fails_requireSubset.bind (fun _ => ?_)
  exact hk established

theorem fails_failedBeforeStart {failure : Raw ExecutionFailureKind} :
    Fails Ordinary (ExecutionResult.failedBeforeStart q p failure es d) := by
  unfold ExecutionResult.failedBeforeStart
  refine (fails_require (by decide)).bind (fun failure => ?_)
  refine (fails_refuseIf (by decide)).bind (fun _ => ?_)
  refine (fails_refuseIf (by decide)).bind (fun _ => ?_)
  refine fails_guaranteeChecks (fun established => ?_)
  refine (fails_refuseIf (by decide)).bind (fun _ => ?_)
  refine (fails_refuseIf (by decide)).bind (fun _ => ?_)
  exact Fails.ok

theorem fails_cancelledBeforeStart :
    Fails Ordinary (ExecutionResult.cancelledBeforeStart q p token es d) := by
  unfold ExecutionResult.cancelledBeforeStart
  refine fails_requireRequestedControl.bind (fun _ => ?_)
  refine fails_guaranteeChecks (fun established => ?_)
  refine (fails_refuseIf (by decide)).bind (fun _ => ?_)
  refine (fails_refuseIf (by decide)).bind (fun _ => ?_)
  refine (fails_refuseIf (by decide)).bind (fun _ => ?_)
  exact Fails.ok

theorem fails_succeeded : Fails Ordinary (ExecutionResult.succeeded q p i o e es d) := by
  unfold ExecutionResult.succeeded
  refine (fails_normalizeGuarantees (by decide)).bind (fun established => ?_)
  refine (fails_requireLimitGuaranteeShape (by decide)).bind (fun _ => ?_)
  refine fails_requireRequestedGuarantees.bind (fun _ => ?_)
  refine (fails_refuseIf (by decide)).bind (fun _ => ?_)
  refine fails_requireSubset.bind (fun _ => ?_)
  refine (fails_refuseIf (by decide)).bind (fun _ => ?_)
  refine fails_requireCaptureShape.bind (fun _ => ?_)
  rw [ProcessTermination.exited_zero]
  exact Fails.ok

/-- Whichever arm of the switch is taken. -/
theorem fails_requireFailureEvidence :
    Fails Ordinary
      (ExecutionResult.requireFailureEvidence q t o e gs c admitted f) := by
  unfold ExecutionResult.requireFailureEvidence
  split
  · exact fails_refuseIf (by decide)
  · exact fails_refuseIf (by decide)
  · split
    · refine (fails_refuseIf (by decide)).bind (fun _ => ?_)
      exact fails_refuseIf (by decide)
    · exact fails_raise (by decide)
  · refine (fails_refuseIf (by decide)).bind (fun _ => ?_)
    exact fails_refuseIf (by decide)
  · refine fails_requireCaptureShape.bind (fun _ => ?_)
    exact fails_refuseIf (by decide)
  · exact fails_refuseIf (by decide)
  all_goals exact Fails.ok

theorem fails_failedAfterStartImpl {cleanup : Raw CleanupOutcome}
    {failure : Raw ExecutionFailureKind} : Fails Ordinary
      (ExecutionResult.failedAfterStartImpl q p i t o e es cleanup failure admitted d) := by
  unfold ExecutionResult.failedAfterStartImpl
  refine (fails_require (by decide)).bind (fun failure => ?_)
  refine (fails_require (by decide)).bind (fun cleanup => ?_)
  refine (fails_refuseIf (by decide)).bind (fun _ => ?_)
  refine (fails_refuseIf (by decide)).bind (fun _ => ?_)
  refine (fails_refuseIf (by decide)).bind (fun _ => ?_)
  refine fails_guaranteeChecks (fun established => ?_)
  refine (fails_refuseIf (by decide)).bind (fun _ => ?_)
  refine (fails_refuseIf (by decide)).bind (fun _ => ?_)
  refine (fails_refuseIf (by decide)).bind (fun _ => ?_)
  refine (fails_refuseIf (by decide)).bind (fun _ => ?_)
  refine fails_requireFailureEvidence.bind (fun _ => ?_)
  have hcaptures : Fails Ordinary
      (if failure ≠ .logCaptureFailed then requireCaptureShape q o e false else .ok ()) := by
    split
    · exact fails_requireCaptureShape
    · exact Fails.ok
  refine hcaptures.bind (fun _ => ?_)
  refine (fails_refuseIf (by decide)).bind (fun _ => ?_)
  exact Fails.ok

/-- After the control, the factory is that of the other results. -/
theorem fails_cancelledAfterStart {cleanup : Raw CleanupOutcome} :
    Fails Ordinary (ExecutionResult.cancelledAfterStart q p token i o e es cleanup d) := by
  refine fails_requireRequestedControl.bind (fun _ => ?_)
  exact fails_failedAfterStartImpl

theorem fails_forRequest : Fails Ordinary (CancellationSource.forRequest q) := by
  refine (fails_refuseIf (by decide)).bind (fun _ => ?_)
  exact Fails.ok

/-- **No factory raises a code of the decoder's own.** -/
theorem fails_rebuildResult {status : ExecutionStatus} {startState : ExecutionStartState}
    {interpreter : Option InterpreterIdentity} {termination : Option ProcessTermination}
    {failure : Option ExecutionFailureKind} : Fails Ordinary
      (rebuildResult status startState q p interpreter termination o e es c failure d) := by
  unfold rebuildResult
  split
  -- A success, which needs an interpreter.
  · split
    · exact fails_corrupt
    · refine (fails_refuseIf (by decide)).bind (fun _ => ?_)
      exact fails_succeeded
  split
  · exact fails_corrupt
  split
  -- A failure before the start, then one after it; a cancelled one makes a source for its token.
  · refine (fails_refuseIf (by decide)).bind (fun _ => ?_)
    split
    · refine fails_forRequest.bind (fun source => ?_)
      refine (fails_refuseIf (by decide)).bind (fun _ => ?_)
      exact fails_cancelledBeforeStart
    · exact fails_failedBeforeStart
  split
  · split
    · refine fails_forRequest.bind (fun source => ?_)
      refine (fails_refuseIf (by decide)).bind (fun _ => ?_)
      exact fails_cancelledAfterStart
    · exact fails_failedAfterStartImpl
  · exact fails_corrupt

end Factories

/-! ## 4. The encoder

The decoder encodes what it has rebuilt and compares.  An encoder that refuses does so with
`inconsistent_result`. -/

theorem fails_encode {r : ExecutionResult} : Fails Ordinary (encodeExecutionResult r) := by
  intro e he
  by_cases h : Encodable r
  · rw [encode_of_encodable h] at he
    exact absurd he (by simp)
  -- The error at hand is the one that `encode_raises` knows, as there is only one.
  · obtain ⟨e', he', hcode⟩ := encode_raises h
    obtain rfl := Except.error.inj (he'.symm.trans he)
    rw [Ordinary, hcode]
    decide

/-! ## 5. The header

The comparisons of the identities stand between the header and the fields, so the reading of a
record is cut there (`readRecord_eq`).  What remains is to say on the bytes when a header is read:
`takes_readHeader` and `reads_readHeader` are the two directions, and `SoundHeader` puts them into
one condition. -/

/-- What `decode_execution_result` reads before it compares an identity, -/
def readHeader : ReaderM (Bytes × Bytes × Bytes) := do
  readMagic encodingMagic
  let version ← Reader.u16 resultFormat
  Reader.liftExcept (refuseIf (version ≠ executionResultEncodingVersion) .corruptEncoding
    (resultFormat.message " encoding version is unsupported"))
  let requestIdentity ← Reader.identity resultFormat
  let backendIdentity ← Reader.identity resultFormat
  let evidenceIdentity ← Reader.identity resultFormat
  return (requestIdentity, backendIdentity, evidenceIdentity)

/-- and what it reads afterwards. -/
def readFields (evidenceIdentity : Bytes) : ReaderM ResultRecord := do
  let status ← readEnum decodeStatus
  let startState ← readEnum decodeStartState
  let observedInterpreter ← Reader.optional resultFormat (do
    let hex ← Reader.identity resultFormat
    Reader.liftExcept (Identity.fromSha256 hex))
  let termination ← Reader.optional resultFormat decodeTermination
  let standardOutput ← Reader.capture resultFormat maximumCaptureMaterialSize
  let standardError ← Reader.capture resultFormat maximumCaptureMaterialSize
  let guaranteeCount ← Reader.u16 resultFormat
  Reader.liftExcept (refuseIf (guaranteeCount.toNat > maximumGuaranteeCount) .corruptEncoding
    (resultFormat.message " guarantee count exceeds its limit"))
  let guarantees ← readGuarantees guaranteeCount.toNat
  Reader.liftExcept (refuseIf (isSorted guarantees = false ∨
      (adjacentFind (· == ·) guarantees).isSome = true) .corruptEncoding
    (resultFormat.message " guarantees are not canonical"))
  let cleanup ← readEnum decodeCleanup
  let failure ← Reader.optional resultFormat (readEnum decodeFailure)
  let diagnostic ← Reader.text resultFormat maximumDiagnosticSize
  return ⟨evidenceIdentity, status, startState, observedInterpreter, termination,
    standardOutput, standardError, guarantees, cleanup, failure, diagnostic⟩

/-- The two comparisons. -/
def requireAuthority (request : ExecutionRequest) (backend : BackendCapabilityProfile)
    (requestIdentity backendIdentity : Bytes) : Except Error Unit := do
  refuseIf (request.identity.hex.val ≠ requestIdentity) .authorityMismatch
    (resultFormat.message " record belongs to another execution request")
  refuseIf (backend.identity.hex.val ≠ backendIdentity) .authorityMismatch
    (resultFormat.message " record belongs to another backend profile")

omit [External] in
theorem Reader.liftExcept_bind {α β : Type} (x : Except Error α) (f : α → Except Error β) :
    Reader.liftExcept (x >>= f) =
      (do let a ← Reader.liftExcept x; Reader.liftExcept (f a) : ReaderM β) := by
  funext r
  cases x with
  | error e => rfl
  | ok a => rfl

/-- The reading of a record: the header, the comparisons, the fields. -/
theorem readRecord_eq (q : ExecutionRequest) (p : BackendCapabilityProfile) :
    readRecord q p = (do
      let ids ← readHeader
      Reader.liftExcept (requireAuthority q p ids.1 ids.2.1)
      readFields ids.2.2) := by
  simp only [readRecord, readHeader, readFields, requireAuthority, Reader.liftExcept_bind,
    bind_assoc, pure_bind]

omit [External] in
/-- Before the comparisons every error is ordinary, -/
theorem fails_readHeader : FailsT Ordinary readHeader := by
  unfold readHeader
  refine (Reader.fails_magic _).bind (fun _ => ?_)
  refine (Reader.fails_accumulate 2 0).bind (fun version => ?_)
  refine (FailsT.lift (fails_refuseIf (by decide))).bind (fun _ => ?_)
  refine Reader.fails_identity.bind (fun requestIdentity => ?_)
  refine Reader.fails_identity.bind (fun backendIdentity => ?_)
  refine Reader.fails_identity.bind (fun evidenceIdentity => ?_)
  exact FailsT.pure

/-- and after them as well. -/
theorem fails_readFields (evidenceIdentity : Bytes) :
    FailsT Ordinary (readFields evidenceIdentity) := by
  have hinterpreter : FailsT Ordinary (do
      let hex ← Reader.identity resultFormat
      Reader.liftExcept (Identity.fromSha256 hex) : ReaderM InterpreterIdentity) :=
    Reader.fails_identity.bind (fun _ => FailsT.lift fails_fromSha256)
  unfold readFields
  refine (Reader.fails_enum (fun _ => fails_decodeEnum)).bind (fun status => ?_)
  refine (Reader.fails_enum (fun _ => fails_decodeEnum)).bind (fun startState => ?_)
  refine (Reader.fails_optional hinterpreter).bind (fun interpreter => ?_)
  refine (Reader.fails_optional fails_decodeTermination).bind (fun termination => ?_)
  refine Reader.fails_capture.bind (fun standardOutput => ?_)
  refine Reader.fails_capture.bind (fun standardError => ?_)
  refine (Reader.fails_accumulate 2 0).bind (fun count => ?_)
  refine (FailsT.lift (fails_refuseIf (by decide))).bind (fun _ => ?_)
  refine (fails_many (Reader.fails_enum (fun _ => fails_decodeEnum)) _).bind
    (fun guarantees => ?_)
  refine (FailsT.lift (fails_refuseIf (by decide))).bind (fun _ => ?_)
  refine (Reader.fails_enum (fun _ => fails_decodeEnum)).bind (fun cleanup => ?_)
  refine (Reader.fails_optional (Reader.fails_enum (fun _ => fails_decodeEnum))).bind
    (fun failure => ?_)
  refine Reader.fails_text.bind (fun diagnostic => ?_)
  exact FailsT.pure

/-- A header with these identities. -/
def headerBytes (x y z : Bytes) : Bytes :=
  encodingMagic ++ (bigEndian 2 executionResultEncodingVersion.toNat ++ (x ++ (y ++ z)))

omit [External] in
theorem length_encodingMagic : encodingMagic.length = 8 := rfl

omit [External] in
/-- Where the fields begin. -/
theorem length_headerBytes {x y z : Bytes} (hx : x.length = 32) (hy : y.length = 32)
    (hz : z.length = 32) : (headerBytes x y z).length = 106 := by
  simp only [headerBytes, List.length_append, length_bigEndian, length_encodingMagic, hx, hy, hz]

omit [External] in
/-- Whatever header is read stands at the front of the input. -/
theorem takes_readHeader : Takes readHeader (fun bs ids => ∃ x y z : Bytes,
    (x.length = 32 ∧ y.length = 32 ∧ z.length = 32) ∧ bs = headerBytes x y z ∧
      ids = (hexEncode x, hexEncode y, hexEncode z)) := by
  have hversion : ∀ (value : UInt16) u, refuseIf (value ≠ executionResultEncodingVersion)
      .corruptEncoding (resultFormat.message " encoding version is unsupported") = .ok u →
      value = executionResultEncodingVersion :=
    fun value u h => not_not.mp (refuseIf_eq_ok.mp h)
  refine ((Reader.takes_magic encodingMagic).bind (fun _ => Reader.takes_u16.bind (fun version =>
    (Takes.lift (hversion version)).bind (fun _ => Reader.takes_identity.bind (fun _ =>
    Reader.takes_identity.bind (fun _ => Reader.takes_identity.bind (fun _ =>
    Takes.pure))))))).mono ?_
  rintro bs ids ⟨_, _, _, rfl, rfl, _, _, version, rfl, rfl, _, _, _, rfl, ⟨rfl, rfl⟩,
    x, _, _, rfl, ⟨hx, rfl⟩, y, _, _, rfl, ⟨hy, rfl⟩, z, _, _, rfl, ⟨hz, rfl⟩, rfl, rfl⟩
  exact ⟨x, y, z, ⟨hx, hy, hz⟩, by simp [headerBytes], rfl⟩

omit [External] in
/-- A header that stands there is read. -/
theorem reads_readHeader {x y z : Bytes} (hx : x.length = 32) (hy : y.length = 32)
    (hz : z.length = 32) :
    Reads readHeader (headerBytes x y z) (hexEncode x, hexEncode y, hexEncode z) := by
  have hidentity : ∀ {bs : Bytes}, bs.length = 32 →
      Reads (Reader.identity resultFormat) bs (hexEncode bs) :=
    fun hlen => (Reader.reads_slice hlen).map hexEncode
  refine (Reader.reads_magic encodingMagic).bind ?_
  refine (Reader.reads_u16 executionResultEncodingVersion).bind ?_
  refine Reads.lift_bind (a := ()) (refuseIf_eq_ok.mpr (by simp)) ?_
  refine (hidentity hx).bind ?_
  refine (hidentity hy).bind ?_
  exact (hidentity hz).map (fun id => (hexEncode x, hexEncode y, id))

/-- **A sound header on the bytes of a record**: an admissible size, the checksum, the magic, the
version, and room for three identities. -/
structure SoundHeader (b : Bytes) : Prop where
  long : encodingMagic.length + 2 + checksumSize ≤ b.length
  short : b.length ≤ resultFormat.maximum
  checksum : b.drop (b.length - checksumSize) =
    (External.sha256 (b.take (b.length - checksumSize))).val
  magic : b.take 8 = encodingMagic
  version : (b.drop 8).take 2 = bigEndian 2 executionResultEncodingVersion.toNat
  identities : 8 + 2 + 96 ≤ b.length - checksumSize

/-- The identity of the request a record names, -/
def requestIdentityOf (b : Bytes) : Bytes := hexEncode ((b.drop 10).take 32)

/-- and that of the profile. -/
def backendIdentityOf (b : Bytes) : Bytes := hexEncode ((b.drop 42).take 32)

omit [External] in
theorem cut (b : Bytes) (i n : Nat) : b.drop i = (b.drop i).take n ++ b.drop (i + n) := by
  rw [← List.drop_drop, List.take_append_drop]

/-- A sound header leaves a valid position to read from. -/
theorem SoundHeader.valid {b : Bytes} (h : SoundHeader b) :
    Wire.Reader.Valid ⟨b, b.length - checksumSize, 0⟩ where
  offset_le := Nat.zero_le _
  limit_le := Nat.sub_le _ _
  limit_lt := by
    have hshort := h.short
    have hmax := resultFormat.maximum_lt
    show b.length - checksumSize < 2 ^ 64
    omega

/-- A sound header is read, -/
theorem SoundHeader.read {b : Bytes} (h : SoundHeader b) :
    ∃ z r', readHeader ⟨b, b.length - checksumSize, 0⟩ =
      .ok ((requestIdentityOf b, backendIdentityOf b, z), r') := by
  have hroom := h.identities
  have hcut : b = headerBytes ((b.drop 10).take 32) ((b.drop 42).take 32) ((b.drop 74).take 32) ++
      b.drop 106 := by
    have hmagic := cut b 0 8
    have hversion := cut b 8 2
    have hrequest := cut b 10 32
    have hbackend := cut b 42 32
    have hevidence := cut b 74 32
    rw [List.drop_zero, h.magic, hversion, h.version, hrequest, hbackend, hevidence] at hmagic
    simpa [headerBytes] using hmagic
  have hlength : ∀ i, i + 32 ≤ 106 → ((b.drop i).take 32).length = 32 := by
    intro i hi
    rw [List.length_take, List.length_drop]
    omega
  have hfits : ([] : Bytes).length + (headerBytes ((b.drop 10).take 32) ((b.drop 42).take 32)
      ((b.drop 74).take 32)).length ≤ b.length - checksumSize := by
    rw [length_headerBytes (hlength 10 (by omega)) (hlength 42 (by omega))
      (hlength 74 (by omega)), List.length_nil]
    omega
  have hread := (reads_readHeader (hlength 10 (by omega)) (hlength 42 (by omega))
    (hlength 74 (by omega))).run [] (b.drop 106) hfits h.valid.limit_lt
  rw [List.nil_append, ← hcut] at hread
  exact ⟨_, _, hread⟩

omit [External] in
/-- Where the fields of a header stand. -/
theorem header_fields {b x y rest : Bytes} (hx : x.length = 32) (hy : y.length = 32)
    (hb : b = encodingMagic ++
      (bigEndian 2 executionResultEncodingVersion.toNat ++ (x ++ (y ++ rest)))) :
    b.take 8 = encodingMagic ∧
      (b.drop 8).take 2 = bigEndian 2 executionResultEncodingVersion.toNat ∧
      requestIdentityOf b = hexEncode x ∧ backendIdentityOf b = hexEncode y := by
  have hdrop8 : b.drop 8 =
      bigEndian 2 executionResultEncodingVersion.toNat ++ (x ++ (y ++ rest)) := by
    rw [hb]
    exact List.drop_left' length_encodingMagic
  have hdrop10 : b.drop 10 = x ++ (y ++ rest) := by
    rw [← List.drop_drop (i := 2) (j := 8), hdrop8]
    exact List.drop_left' (length_bigEndian _ _)
  have hdrop42 : b.drop 42 = y ++ rest := by
    rw [← List.drop_drop (i := 32) (j := 10), hdrop10]
    exact List.drop_left' hx
  refine ⟨?_, ?_, ?_, ?_⟩
  · rw [hb]
    exact List.take_left' length_encodingMagic
  · rw [hdrop8]
    exact List.take_left' (length_bigEndian _ _)
  · rw [requestIdentityOf, hdrop10, List.take_left' hx]
  · rw [backendIdentityOf, hdrop42, List.take_left' hy]

/-- and what is read is a sound header. -/
theorem soundHeader_of_read {b : Bytes} {ids : Bytes × Bytes × Bytes} {r' : Wire.Reader}
    (hlong : encodingMagic.length + 2 + checksumSize ≤ b.length)
    (hshort : b.length ≤ resultFormat.maximum)
    (hchecksum : b.drop (b.length - checksumSize) =
      (External.sha256 (b.take (b.length - checksumSize))).val)
    (h : readHeader ⟨b, b.length - checksumSize, 0⟩ = .ok (ids, r')) :
    SoundHeader b ∧ ids.1 = requestIdentityOf b ∧ ids.2.1 = backendIdentityOf b := by
  have hmax := resultFormat.maximum_lt
  have hvalid : Wire.Reader.Valid ⟨b, b.length - checksumSize, 0⟩ :=
    ⟨Nat.zero_le _, Nat.sub_le _ _, by show b.length - checksumSize < 2 ^ 64; omega⟩
  obtain ⟨bs, hconsumed, x, y, z, ⟨hx, hy, hz⟩, rfl, rfl⟩ := takes_readHeader hvalid h
  have hroom : 106 ≤ b.length - checksumSize := by
    have hoffset := hconsumed.valid.offset_le
    rw [hconsumed.after, length_headerBytes hx hy hz, Nat.zero_add] at hoffset
    exact hoffset
  obtain ⟨rest, hb⟩ : ∃ rest, b = encodingMagic ++
      (bigEndian 2 executionResultEncodingVersion.toNat ++ (x ++ (y ++ (z ++ rest)))) := by
    have hstands := hconsumed.stands
    rw [List.drop_zero] at hstands
    refine ⟨b.drop (0 + (headerBytes x y z).length), hstands.trans ?_⟩
    simp only [headerBytes, List.append_assoc]
  obtain ⟨hmagic, hversion, hrequest, hbackend⟩ := header_fields hx hy hb
  exact ⟨⟨hlong, hshort, hchecksum, hmagic, hversion, hroom⟩, hrequest.symm, hbackend.symm⟩

/-! ## 6. Authority

Put together: an error before or after the comparisons is ordinary, and the comparisons raise
`authority_mismatch` exactly on a foreign identity.  A foreign record reaches them, as its header
is sound. -/

/-- **A sound record of another request or another profile.** -/
structure ForeignRecord (b : Bytes) (request : ExecutionRequest)
    (backend : BackendCapabilityProfile) : Prop extends SoundHeader b where
  foreign : requestIdentityOf b ≠ request.identity.hex.val ∨
    backendIdentityOf b ≠ backend.identity.hex.val

section Authority

variable {b : Bytes} {q : ExecutionRequest} {p : BackendCapabilityProfile}

omit [External] in
/-- A check that fails has found its condition, and raises its code. -/
theorem error_of_refuseIf {c : Prop} [Decidable c] {code : ErrorCode} {message : Bytes} {e : Error}
    (h : refuseIf c code message = .error e) : c ∧ e.code = code := by
  unfold refuseIf at h
  split at h
  · rename_i hc
    obtain rfl := Except.error.inj h
    exact ⟨hc, rfl⟩
  · exact absurd h (by simp)

/-- The comparisons fail on a foreign identity, with their own code. -/
theorem error_of_requireAuthority {x y : Bytes} {e : Error}
    (h : requireAuthority q p x y = .error e) :
    (x ≠ q.identity.hex.val ∨ y ≠ p.identity.hex.val) ∧ e.code = .authorityMismatch := by
  rcases error_of_bind h with hrequest | ⟨_, -, hbackend⟩
  · obtain ⟨hne, hcode⟩ := error_of_refuseIf hrequest
    exact ⟨.inl (Ne.symm hne), hcode⟩
  · obtain ⟨hne, hcode⟩ := error_of_refuseIf hbackend
    exact ⟨.inr (Ne.symm hne), hcode⟩

/-- On a foreign identity they do fail. -/
theorem requireAuthority_foreign {x y : Bytes}
    (h : x ≠ q.identity.hex.val ∨ y ≠ p.identity.hex.val) :
    ∃ e, requireAuthority q p x y = .error e ∧ e.code = .authorityMismatch := by
  cases hcall : requireAuthority q p x y with
  | error e => exact ⟨e, rfl, (error_of_requireAuthority hcall).2⟩
  | ok u =>
    obtain ⟨_, hrequest, hbackend⟩ := bind_ok hcall
    rcases h with hne | hne
    · exact absurd (not_not.mp (refuseIf_eq_ok.mp hrequest)).symm hne
    · exact absurd (not_not.mp (refuseIf_eq_ok.mp hbackend)).symm hne

/-- What the reading of a record fails with. -/
theorem error_of_readRecord {r : Wire.Reader} {e : Error} (h : readRecord q p r = .error e) :
    Ordinary e ∨ ∃ ids r', readHeader r = .ok (ids, r') ∧
      (ids.1 ≠ q.identity.hex.val ∨ ids.2.1 ≠ p.identity.hex.val) ∧
      e.code = .authorityMismatch := by
  rw [readRecord_eq] at h
  rcases error_of_bind h with hheader | ⟨⟨ids, r'⟩, hheader, hrest⟩
  · exact .inl (fails_readHeader r e hheader)
  rcases error_of_bind hrest with hauthority | ⟨⟨_, r''⟩, -, hfields⟩
  · right
    rcases error_of_bind hauthority with hcompare | ⟨_, -, hpure⟩
    · exact ⟨ids, r', hheader, error_of_requireAuthority hcompare⟩
    · exact absurd hpure (by simp [pure, Except.pure])
  · exact .inl (fails_readFields _ r'' e hfields)

/-- What the checks of `decode_execution_result` fail with. -/
theorem error_of_decodeChecked {e : Error} (h : decodeChecked b q p = .error e) :
    Ordinary e ∨ (e.code = .authorityMismatch ∧ ForeignRecord b q p) := by
  -- Five of the checks are the decoder's own, and raise its own code.
  have hcorrupt : e.code = .corruptEncoding → Ordinary e := by
    intro hcode
    rw [Ordinary, hcode]
    decide
  rcases error_of_bind h with hsize | ⟨_, hshort, h⟩
  · exact .inl (hcorrupt (error_of_refuseIf hsize).2)
  rcases error_of_bind h with hsize | ⟨_, hlong, h⟩
  · exact .inl (hcorrupt (error_of_refuseIf hsize).2)
  rcases error_of_bind h with hsum | ⟨_, hchecksum, h⟩
  · exact .inl (hcorrupt (error_of_refuseIf hsum).2)
  rcases error_of_bind h with hread | ⟨⟨record, input⟩, -, h⟩
  · rcases error_of_readRecord hread with hordinary | ⟨ids, r', hheader, hforeign, hcode⟩
    · exact .inl hordinary
    -- The comparisons: what was checked before them makes the header that was read a sound one.
    right
    have hlong' : encodingMagic.length + 2 + checksumSize ≤ b.length :=
      not_lt.mp (refuseIf_eq_ok.mp hlong)
    have hsum : b.drop (b.length - checksumSize) =
        (External.sha256 (b.take (b.length - checksumSize))).val := by
      have hhex := hexEncode_injective (not_not.mp (refuseIf_eq_ok.mp hchecksum))
      rwa [take_trailer] at hhex
    obtain ⟨hsound, hrequest, hbackend⟩ :=
      soundHeader_of_read hlong' (not_lt.mp (refuseIf_eq_ok.mp hshort)) hsum hheader
    rw [hrequest, hbackend] at hforeign
    exact ⟨hcode, hsound, hforeign⟩
  -- Behind the reading of the record nothing compares an identity of a party.
  left
  rcases error_of_bind h with hfinish | ⟨_, -, h⟩
  · exact Reader.fails_finish input e hfinish
  rcases error_of_bind h with hrebuild | ⟨decoded, -, h⟩
  · exact fails_rebuildResult e hrebuild
  rcases error_of_bind h with hidentity | ⟨_, -, h⟩
  · exact hcorrupt (error_of_refuseIf hidentity).2
  rcases error_of_bind h with hencode | ⟨canonical, -, h⟩
  · exact fails_encode e hencode
  rcases error_of_bind h with hcanonical | ⟨_, -, h⟩
  · exact hcorrupt (error_of_refuseIf hcanonical).2
  · exact absurd h (by simp [pure, Except.pure])

/-- A foreign record passes every check before the comparison. -/
theorem decodeChecked_of_foreign (h : ForeignRecord b q p) :
    ∃ e, decodeChecked b q p = .error e ∧ e.code = .authorityMismatch := by
  obtain ⟨z, r', hheader⟩ := h.toSoundHeader.read
  obtain ⟨e, hcompare, hcode⟩ := requireAuthority_foreign h.foreign
  have hread : readRecord q p ⟨b, b.length - checksumSize, 0⟩ = .error e := by
    have hlift : Reader.liftExcept (requireAuthority q p (requestIdentityOf b)
        (backendIdentityOf b)) r' = .error e := by
      rw [Reader.liftExcept, StateT.lift, hcompare]
      rfl
    rw [readRecord_eq]
    exact bindT_error_of_ok hheader (bindT_error hlift)
  have hshort : refuseIf (b.length > resultFormat.maximum) .corruptEncoding
      (resultFormat.message " encoding exceeds maximum size") = .ok () :=
    refuseIf_eq_ok.mpr (not_lt.mpr h.short)
  have hlong : refuseIf (b.length < encodingMagic.length + 2 + checksumSize) .corruptEncoding
      (resultFormat.message " encoding is truncated") = .ok () :=
    refuseIf_eq_ok.mpr (not_lt.mpr h.long)
  have hchecksum : refuseIf (hexEncode ((b.drop (b.length - checksumSize)).take checksumSize) ≠
      sha256Hex (b.take (b.length - checksumSize))) .corruptEncoding
      (resultFormat.message " encoding checksum mismatch") = .ok () := by
    rw [refuseIf_eq_ok, not_not, take_trailer, h.checksum, sha256Hex]
  refine ⟨e, ?_, hcode⟩
  exact bind_error_of_ok hshort (bind_error_of_ok hlong (bind_error_of_ok hchecksum
    (bind_eq_error.mpr (.inl hread))))

/-- **`authority_mismatch` is for foreign records alone.** -/
theorem raises_decode_authority :
    Raises (decodeExecutionResult b q p) .authorityMismatch ↔ ForeignRecord b q p := by
  constructor
  · rintro ⟨e, he, hcode⟩
    unfold decodeExecutionResult at he
    split at he
    · exact absurd he (by simp)
    rename_i failure hfailure
    split at he
    · obtain rfl := Except.error.inj he
      rcases error_of_decodeChecked hfailure with hordinary | ⟨-, hforeign⟩
      · exact absurd hcode hordinary.1
      · exact hforeign
    · obtain rfl := Except.error.inj he
      exact absurd hcode (show ErrorCode.corruptEncoding ≠ .authorityMismatch by decide)
  · intro h
    obtain ⟨e, he, hcode⟩ := decodeChecked_of_foreign h
    refine ⟨e, ?_, hcode⟩
    rw [decodeExecutionResult, he]
    exact if_pos (.inr (.inl hcode))

/-- Whatever else reaches the `catch` clause leaves it as `corrupt_encoding`. -/
theorem decode_outcomes : (∃ r, decodeExecutionResult b q p = .ok r) ∨
    Raises (decodeExecutionResult b q p) .corruptEncoding ∨
    Raises (decodeExecutionResult b q p) .authorityMismatch := by
  cases hchecked : decodeChecked b q p with
  | ok r => exact .inl ⟨r, decode_eq_ok_of_checked.mpr hchecked⟩
  | error e =>
    right
    have hdecode : decodeExecutionResult b q p =
        if e.code = .corruptEncoding ∨ e.code = .authorityMismatch ∨ e.code = .identityFailed then
          .error e
        else corrupt (resultFormat.message " encoding violates the result contract: " ++ e.what) := by
      rw [decodeExecutionResult, hchecked]
    rcases error_of_decodeChecked hchecked with hordinary | ⟨hcode, -⟩
    · left
      by_cases hcorrupt : e.code = .corruptEncoding
      · exact ⟨e, hdecode.trans (if_pos (.inl hcorrupt)), hcorrupt⟩
      · have hpass : ¬ (e.code = .corruptEncoding ∨ e.code = .authorityMismatch ∨
            e.code = .identityFailed) := by
          rintro (h | h | h)
          · exact hcorrupt h
          · exact hordinary.1 h
          · exact hordinary.2 h
        exact ⟨_, hdecode.trans (if_neg hpass), rfl⟩
    · right
      exact ⟨e, hdecode.trans (if_pos (.inr (.inl hcode))), hcode⟩

/-- The record of any result has a sound header with the identities of its parties. -/
theorem soundHeader_of_encode {r : ExecutionResult} (h : encodeExecutionResult r = .ok b) :
    SoundHeader b ∧ requestIdentityOf b = r.request.identity.hex.val ∧
      backendIdentityOf b = r.backend.identity.hex.val := by
  obtain ⟨henc, hb⟩ := encode_eq_ok.mp h
  have hdigest := (External.sha256 (payload r)).property
  have hlength : b.length = (payload r).length + checksumSize := by
    rw [hb, List.length_append, hdigest, checksumSize]
  obtain ⟨hpayload, htake, hdrop⟩ := cut_trailer (n := checksumSize) hb hdigest
  obtain ⟨rest, hfields⟩ : ∃ rest, payload r = encodingMagic ++
      (bigEndian 2 executionResultEncodingVersion.toNat ++
        (hexDecode r.request.identity.hex.val ++ (hexDecode r.backend.identity.hex.val ++
          (hexDecode r.identity.hex.val ++ rest)))) := by
    simp only [payload, evidenceBytes, List.append_assoc]
    exact ⟨_, rfl⟩
  have hroom : 8 + 2 + 96 ≤ (payload r).length := by
    have hlen := congrArg List.length hfields
    simp only [List.length_append, length_bigEndian, length_encodingMagic,
      Identity.length_hexDecode_hex] at hlen
    omega
  have hstands := hb
  rw [hfields] at hstands
  simp only [List.append_assoc] at hstands
  obtain ⟨hmagic, hversion, hrequest, hbackend⟩ := header_fields
    r.request.identity.length_hexDecode_hex r.backend.identity.length_hexDecode_hex hstands
  rw [Identity.hexEncode_hexDecode_hex] at hrequest hbackend
  refine ⟨⟨?_, ?_, ?_, hmagic, hversion, ?_⟩, hrequest, hbackend⟩
  · rw [hlength, length_encodingMagic]
    omega
  · rw [hlength]
    exact henc.size
  · rw [hdrop, htake]
  · rw [hpayload]
    exact hroom

/-- So it is a foreign record for other parties than its own. -/
theorem raises_of_parties {r : ExecutionResult} (hr : encodeExecutionResult r = .ok b)
    (h : q.identity ≠ r.request.identity ∨ p.identity ≠ r.backend.identity) :
    Raises (decodeExecutionResult b q p) .authorityMismatch := by
  obtain ⟨hsound, hrequest, hbackend⟩ := soundHeader_of_encode hr
  refine raises_decode_authority.mpr ⟨hsound, ?_⟩
  rw [hrequest, hbackend]
  rcases h with hne | hne
  · exact .inl (fun heq => hne (Identity.ext (Subtype.ext heq.symm)))
  · exact .inr (fun heq => hne (Identity.ext (Subtype.ext heq.symm)))

end Authority

/-- **Refusals are exact.**  A decoder returns a result or raises one of two codes; it raises
`authority_mismatch` exactly on the sound records of another request or another profile, and so
on the record of every result that is decoded with other parties than its own. -/
theorem refusals_exact (b : Bytes) (q : ExecutionRequest) (p : BackendCapabilityProfile) :
    ((∃ r, decodeExecutionResult b q p = .ok r) ∨
        Raises (decodeExecutionResult b q p) .corruptEncoding ∨
        Raises (decodeExecutionResult b q p) .authorityMismatch) ∧
      (Raises (decodeExecutionResult b q p) .authorityMismatch ↔ ForeignRecord b q p) ∧
      (∀ r, encodeExecutionResult r = .ok b →
        (q.identity ≠ r.request.identity ∨ p.identity ≠ r.backend.identity) →
        Raises (decodeExecutionResult b q p) .authorityMismatch) := by
  refine ⟨decode_outcomes, raises_decode_authority, ?_⟩
  intro r hr hparties
  exact raises_of_parties hr hparties

end ResultCodec

end Pkgexec
