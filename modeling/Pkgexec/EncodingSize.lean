/-
# The size of an encoding

The bound of 64 MiB is enforced piecemeal by the writer (`src/result_codec.cpp`): after every
byte, before every block, and by the limits of the list and of the diagnostic.  Taken together
these checks decide one inequality about `encodingSize`, the sum of the sizes of the fields as
numbers without a bound.

* Section 1: `encodingSize`, and that the payload and the checksum have that many bytes.
* Section 2: the writer under audit.  It logs the difference that `writer::raw` computes and the
  sizes that are cast to 16 and 32 bits, and is the writer of `Codec` but for the log.
* Section 3: what every run logs.  `encodingSteps` lists the differences and the casts that the
  source makes for a result, with the size of the output at each of them.  The log is that list, or
  the front of it where the run stops with an error, and it holds no difference that wraps around
  and no cast that drops bits.
* Section 4: `encoding_size_exact`.
-/
import Pkgexec.Lib.Audit
import Pkgexec.ResultCodec

namespace Pkgexec

open Audit Bytes Wire

/-! ## 1. Sizes

The size of each field, with the flag in front of an optional one. -/

/-- A termination: absent, or its kind with a value and a limit where there is one. -/
def terminationSize (value : Option ProcessTermination) : Nat :=
  match value with
  | none => 1
  | some value => 4 + (if value.value.isSome then 4 else 0) + (if value.limit.isSome then 1 else 0)

/-- A stream: absent, observed, or retained with its material. -/
def captureSize [External] (value : Option StreamCapture) : Nat :=
  match value with
  | none => 1
  | some value =>
    match value.material with
    | none => 42
    | some material => 46 + material.val.length

/-- The bytes of a record: magic, version, three identities, status and start state, then the
fields, and the checksum. -/
def encodingSize [External] (r : ExecutionResult) : Nat :=
  (8 + 2 + 96 + 2) + (if r.observedInterpreter.isSome then 33 else 1) +
    terminationSize r.termination + captureSize r.standardOutput + captureSize r.standardError +
    (2 + r.establishedGuarantees.length) + 1 + (if r.failure.isSome then 2 else 1) +
    (4 + r.diagnostic.val.length) + 32

/-- A flag, and the field when it is there. -/
theorem length_optionField {α : Type} {f : α → Bytes} {size : Nat} (h : ∀ a, (f a).length = size)
    (value : Option α) :
    (IdentityBuilder.optionField f value).length = if value.isSome then 1 + size else 1 := by
  cases value with
  | none => rfl
  | some a => simp [IdentityBuilder.optionField, h, Nat.add_comm]

/-- The size of a termination, -/
theorem length_terminationBytes (value : Option ProcessTermination) :
    (terminationBytes value).length = terminationSize value := by
  cases value with
  | none => rfl
  | some value =>
    have hvalue := @length_optionField UInt32 (fun v => bigEndian 4 v.toNat) 4
      (fun v => length_bigEndian 4 v.toNat) value.value
    have hlimit := @length_optionField ResourceLimitKind (fun l => [enumByte l]) 1
      (fun _ => rfl) value.limit
    have hbytes : terminationBytes (some value) = [1] ++ ([enumByte value.kind] ++
        (IdentityBuilder.optionField (fun v : UInt32 => bigEndian 4 v.toNat) value.value ++
          IdentityBuilder.optionField (fun l => [enumByte l]) value.limit)) := rfl
    simp only [hbytes, List.length_append, List.length_singleton, hvalue, hlimit, terminationSize]
    split <;> split <;> rfl

section EncodingSize

variable [External]

/-- and of a stream. -/
theorem length_captureBytes (value : Option StreamCapture) :
    (Writer.captureBytes value).length = captureSize value := by
  cases value with
  | none => rfl
  | some value =>
    have hdigest := value.digest.length_hexDecode_hex
    cases hmaterial : value.material with
    | none => simp [Writer.captureBytes, captureSize, IdentityBuilder.optionField, hmaterial, hdigest]
    | some material =>
      simp only [Writer.captureBytes, captureSize, IdentityBuilder.optionField, hmaterial,
        Option.elim_some, List.length_append, List.length_singleton, length_bigEndian, hdigest]
      omega

/-- **The size of a record** is the sum of the sizes of its fields. -/
theorem length_payload (r : ExecutionResult) :
    (payload r).length + checksumSize = encodingSize r := by
  have hinterpreter := @length_optionField InterpreterIdentity (fun i => hexDecode i.hex.val) 32
    (fun i => i.length_hexDecode_hex) r.observedInterpreter
  have hfailure := @length_optionField ExecutionFailureKind (fun f => [enumByte f]) 1
    (fun _ => rfl) r.failure
  have hguarantees : (r.establishedGuarantees.flatMap (fun g => [enumByte g])).length =
      r.establishedGuarantees.length := by simp
  have hmagic : encodingMagic.length = 8 := by decide
  simp only [payload, evidenceBytes, outcomeBytes, List.length_append, length_bigEndian,
    Identity.length_hexDecode_hex, List.length_singleton, hinterpreter, hfailure, hguarantees,
    length_terminationBytes, length_captureBytes, hmagic, encodingSize, checksumSize]
  split <;> split <;> omega

end EncodingSize

/-! ## 2. The writer under audit

`raw`, `text` and the encoder are written once more over `AuditM`, with a `watch` at each
subtraction and cast of the source.  Forgetting the log gives the writer of `Codec` back, operation
by operation, so the two encoders return the same (`result_encodeExecutionResult`). -/

abbrev AuditedWriterM := AuditM Observation Bytes Error

namespace AuditedWriter

/-- `writer::raw` subtracts the size of the output from the bound, unless there is nothing to
write. -/
def raw (fmt : Format) (data : Bytes) : AuditedWriterM Unit := do
  AuditM.watch (fun output =>
    if data.length = 0 then [] else [.difference fmt.maximum output.length])
  AuditM.lift (Writer.raw fmt data)

/-- `writer::text` casts the size to 32 bits. -/
def text (fmt : Format) (value : Bytes) : AuditedWriterM Unit :=
  if value.length > 2 ^ 32 - 1 then
    AuditM.lift (Writer.fail fmt.code (fmt.message " text field is too large"))
  else do
    AuditM.watch (fun _ => [.narrow 32 value.length])
    AuditM.lift (Writer.u32 fmt (.ofNat value.length))
    raw fmt value

def optional {α : Type} (fmt : Format) (value : Option α) (body : α → AuditedWriterM Unit) :
    AuditedWriterM Unit := do
  AuditM.lift (Writer.boolean fmt value.isSome)
  match value with
  | none => return ()
  | some value => body value

@[simp] theorem erase_raw (fmt : Format) (data : Bytes) :
    (raw fmt data).erase = Writer.raw fmt data := by
  simp [raw]

@[simp] theorem erase_text (fmt : Format) (value : Bytes) :
    (text fmt value).erase = Writer.text fmt value := by
  unfold text Writer.text
  split <;> simp

@[simp] theorem erase_optional {α : Type} (fmt : Format) (value : Option α)
    (body : α → AuditedWriterM Unit) :
    (optional fmt value body).erase = Writer.optional fmt value (fun a => (body a).erase) := by
  cases value <;> simp [optional, Writer.optional]

/-! ### The encoder -/

section Encoder

variable [External]

def capture (fmt : Format) (value : Option StreamCapture) : AuditedWriterM Unit :=
  optional fmt value (fun value => do
    AuditM.lift (Writer.u64 fmt value.byteCount)
    AuditM.lift (Writer.identity fmt value.digest.hex.val)
    optional fmt value.material (fun material => text fmt material.val))

/-- `encode_execution_result` up to the guarantees, -/
def writeEvidence (result : ExecutionResult) : AuditedWriterM Unit := do
  raw resultFormat encodingMagic
  AuditM.lift (Writer.u16 resultFormat executionResultEncodingVersion)
  AuditM.lift (Writer.identity resultFormat result.request.identity.hex.val)
  AuditM.lift (Writer.identity resultFormat result.backend.identity.hex.val)
  AuditM.lift (Writer.identity resultFormat result.identity.hex.val)
  AuditM.lift (Writer.byte resultFormat (enumByte result.status))
  AuditM.lift (Writer.byte resultFormat (enumByte result.startState))
  AuditM.lift (Writer.optional resultFormat result.observedInterpreter
    (fun interpreter => Writer.identity resultFormat interpreter.hex.val))
  AuditM.lift (encodeTermination result.termination)
  capture resultFormat result.standardOutput
  capture resultFormat result.standardError

/-- from there to the diagnostic, where the count is cast to 16 bits, -/
def writeOutcome (result : ExecutionResult) : AuditedWriterM Unit :=
  if result.establishedGuarantees.length > maximumGuaranteeCount then
    AuditM.lift (Writer.fail .inconsistentResult
      (resultFormat.message " guarantee count exceeds its limit"))
  else do
    AuditM.watch (fun _ => [.narrow 16 result.establishedGuarantees.length])
    AuditM.lift (Writer.u16 resultFormat (.ofNat result.establishedGuarantees.length))
    AuditM.lift (result.establishedGuarantees.forM
      (fun guarantee => Writer.byte resultFormat (enumByte guarantee)))
    AuditM.lift (Writer.byte resultFormat (enumByte result.cleanup))
    AuditM.lift (Writer.optional resultFormat result.failure
      (fun failure => Writer.byte resultFormat (enumByte failure)))
    if result.diagnostic.val.length > maximumDiagnosticSize then
      AuditM.lift (Writer.fail .inconsistentResult
        (resultFormat.message " diagnostic exceeds its limit"))
    else text resultFormat result.diagnostic.val

/-- and with the checksum. -/
def encodeExecutionResult (result : ExecutionResult) : AuditedWriterM Bytes := do
  writeEvidence result
  writeOutcome result
  let payload ← AuditM.lift get
  AuditM.lift (Writer.identity resultFormat (sha256Hex payload))
  AuditM.lift get

@[simp] theorem erase_capture (fmt : Format) (value : Option StreamCapture) :
    (capture fmt value).erase = Writer.capture fmt value := by
  simp [capture, Writer.capture]

theorem erase_writeEvidence (r : ExecutionResult) :
    (writeEvidence r).erase = Pkgexec.writeEvidence r := by
  simp [writeEvidence, Pkgexec.writeEvidence]

theorem erase_writeOutcome (r : ExecutionResult) :
    (writeOutcome r).erase = Pkgexec.writeOutcome r := by
  unfold writeOutcome Pkgexec.writeOutcome
  split
  · simp
  · split <;> simp

/-- **The audited encoder returns what the encoder returns.** -/
theorem result_encodeExecutionResult (r : ExecutionResult) :
    (encodeExecutionResult r []).result = Pkgexec.encodeExecutionResult r := by
  have herase : (encodeExecutionResult r).erase =
      ((Pkgexec.writeEvidence r >>= fun _ => Pkgexec.writeOutcome r) >>= fun _ => (do
        let payload ← get
        Writer.identity resultFormat (sha256Hex payload)
        get)) := by
    simp [encodeExecutionResult, erase_writeEvidence, erase_writeOutcome]
  rw [AuditM.result_eq, herase, Pkgexec.encodeExecutionResult]
  generalize (Pkgexec.writeEvidence r >>= fun _ => Pkgexec.writeOutcome r : Writer) = w
  change ((w [] >>= fun x => Writer.identity resultFormat (sha256Hex x.2) x.2 >>= fun y =>
    .ok (y.2, y.2)) : Except Error (Bytes × Bytes)).map Prod.fst = _
  cases w [] with
  | error e => rfl
  | ok x =>
    change ((Writer.identity resultFormat (sha256Hex x.2) x.2 >>= fun y =>
      .ok (y.2, y.2)) : Except Error (Bytes × Bytes)).map Prod.fst =
        (Writer.identity resultFormat (sha256Hex x.2) x.2 >>= fun y => .ok y.2)
    cases Writer.identity resultFormat (sha256Hex x.2) x.2 with
    | error e => rfl
    | ok y => rfl

end Encoder

/-! ## 3. What every run logs

The sizes of what was written before are known, and so is the size of the output at each block.
A run that succeeds has logged every step.  A run that fails has logged the steps up to the point
where it stopped.  Each of them is checked where it is logged: the output is within the bound
before every block, and a size is compared with its limit before it is cast. -/

/-- The steps of `writer::raw`, with so many bytes written before. -/
def rawSteps (fmt : Format) (data : Bytes) (written : Nat) : List Observation :=
  if data.length = 0 then [] else [.difference fmt.maximum written]

/-- The steps of `writer::text`: its length takes four bytes. -/
def textSteps (fmt : Format) (value : Bytes) (written : Nat) : List Observation :=
  .narrow 32 value.length :: rawSteps fmt value (written + 4)

/-- The steps of `writer::capture`: the material comes after the two flags, the count and the
digest. -/
def captureSteps [External] (fmt : Format) (value : Option StreamCapture) (written : Nat) :
    List Observation :=
  match value with
  | none => []
  | some value =>
    match value.material with
    | none => []
    | some material => textSteps fmt material.val (written + 42)

/-- The output has grown by `size` when `m` succeeds, and `steps` are logged on the way, each of
them exact. -/
structure Logs {α : Type} (fmt : Format) (m : AuditedWriterM α) (size : Nat)
    (steps : Nat → List Observation) : Prop where
  begun : ∀ output, output.length ≤ fmt.maximum → (m output).log <+: steps output.length
  exact : ∀ output, output.length ≤ fmt.maximum → ∀ o ∈ (m output).log, o.Exact
  done : ∀ output a, output.length ≤ fmt.maximum → (m output).result = .ok a →
    (m output).log = steps output.length ∧ (m output).state.length = output.length + size ∧
      (m output).state.length ≤ fmt.maximum

section Logs

variable {α β : Type} {fmt : Format} {size size' : Nat} {steps steps' : Nat → List Observation}

theorem Logs.pure {a : α} : Logs fmt (Pure.pure a) 0 (fun _ => []) where
  begun _ _ := List.prefix_rfl
  exact _ _ _ ho := absurd ho List.not_mem_nil
  done _ _ hle _ := ⟨rfl, rfl, hle⟩

theorem Logs.congr {m : AuditedWriterM α} (h : Logs fmt m size steps) (hsize : size = size')
    (hsteps : ∀ written, steps written = steps' written) : Logs fmt m size' steps' := by
  obtain rfl := hsize
  obtain rfl : steps = steps' := funext hsteps
  exact h

/-- One after the other. -/
theorem Logs.bind {m : AuditedWriterM α} {f : α → AuditedWriterM β} (hm : Logs fmt m size steps)
    (hf : ∀ a, Logs fmt (f a) size' steps') :
    Logs fmt (m >>= f) (size + size') (fun written => steps written ++ steps' (written + size)) where
  begun output hle := by
    cases hresult : (m output).result with
    | error e =>
      rw [AuditM.bind_of_error hresult]
      exact (hm.begun output hle).trans (List.prefix_append _ _)
    | ok a =>
      obtain ⟨hlog, hgrown, hfits⟩ := hm.done output a hle hresult
      have hrest := (hf a).begun _ hfits
      rw [hgrown] at hrest
      rw [AuditM.bind_of_ok hresult, hlog]
      exact (List.prefix_append_right_inj _).mpr hrest
  exact output hle o ho := by
    cases hresult : (m output).result with
    | error e =>
      rw [AuditM.bind_of_error hresult] at ho
      exact hm.exact output hle o ho
    | ok a =>
      rw [AuditM.bind_of_ok hresult] at ho
      rcases List.mem_append.mp ho with ho | ho
      · exact hm.exact output hle o ho
      · exact (hf a).exact _ (hm.done output a hle hresult).2.2 o ho
  done output b hle hok := by
    cases hresult : (m output).result with
    | error e =>
      rw [AuditM.bind_of_error hresult] at hok
      exact absurd hok (by simp)
    | ok a =>
      obtain ⟨hlog, hgrown, hfits⟩ := hm.done output a hle hresult
      rw [AuditM.bind_of_ok hresult] at hok ⊢
      obtain ⟨hlog', hgrown', hfits'⟩ := (hf a).done _ b hfits hok
      refine ⟨?_, ?_, hfits'⟩
      · dsimp only
        rw [hlog, hlog', hgrown]
      · dsimp only
        rw [hgrown', hgrown, Nat.add_assoc]

theorem log_lift (w : Writer) (output : Bytes) :
    ((AuditM.lift w : AuditedWriterM Unit) output).log = [] := by
  cases hw : w output with
  | ok p => rw [AuditM.lift_of_ok (show w output = .ok (p.1, p.2) from hw)]
  | error e => rw [AuditM.lift_of_error hw]

/-- What is written without a step to log. -/
theorem logs_lift {w : Writer} {bs : Bytes} (h : Writer.Emits fmt w bs) (hsize : bs.length = size) :
    Logs fmt (AuditM.lift w) size (fun _ => []) where
  begun output _ := by rw [log_lift]
  exact output _ o ho := by
    rw [log_lift] at ho
    exact absurd ho List.not_mem_nil
  done output a hle hok := by
    subst hsize
    by_cases hfit : output.length + bs.length ≤ fmt.maximum
    · rw [AuditM.lift_of_ok (h.fits output hfit)]
      exact ⟨rfl, List.length_append, by rwa [List.length_append]⟩
    · obtain ⟨e, he, -⟩ := h.exceeds output hle (not_le.mp hfit)
      rw [AuditM.lift_of_error he] at hok
      exact absurd hok (by simp)

/-- A run that fails at once has logged nothing. -/
theorem logs_fail {code : ErrorCode} {message : Bytes} :
    Logs fmt (AuditM.lift (Writer.fail code message)) size steps where
  begun _ _ := List.nil_prefix
  exact _ _ _ ho := absurd ho List.not_mem_nil
  done _ _ _ hok := absurd hok (by simp [AuditM.lift, Writer.fail, raise])

theorem logs_get : Logs fmt (AuditM.lift get : AuditedWriterM Bytes) 0 (fun _ => []) where
  begun _ _ := List.prefix_rfl
  exact _ _ _ ho := absurd ho List.not_mem_nil
  done _ _ hle _ := ⟨rfl, rfl, hle⟩

/-- A step that is exact whenever the output is within the bound. -/
theorem logs_watch (h : ∀ written, written ≤ fmt.maximum → ∀ o ∈ steps written, o.Exact) :
    Logs fmt (AuditM.watch (fun output => steps output.length)) 0 steps where
  begun _ _ := List.prefix_rfl
  exact output hle := h output.length hle
  done _ _ hle _ := ⟨rfl, rfl, hle⟩

/-- A cast that drops nothing. -/
theorem logs_narrow {bits size : Nat} (h : size < 2 ^ bits) :
    Logs fmt (AuditM.watch (fun _ => [.narrow bits size])) 0 (fun _ => [.narrow bits size]) := by
  refine @logs_watch fmt (fun _ => [.narrow bits size]) ?_
  intro written _ o ho
  obtain rfl := List.mem_singleton.mp ho
  exact h

/-- The output never exceeds the bound, so the difference does not wrap around. -/
theorem logs_raw (data : Bytes) : Logs fmt (raw fmt data) data.length (rawSteps fmt data) := by
  have hexact : ∀ written, written ≤ fmt.maximum → ∀ o ∈ rawSteps fmt data written, o.Exact := by
    intro written hle o ho
    rw [rawSteps] at ho
    split at ho
    · exact absurd ho List.not_mem_nil
    · obtain rfl := List.mem_singleton.mp ho
      exact hle
  refine ((logs_watch hexact).bind (fun _ => logs_lift (Writer.emits_raw data) rfl)).congr
    (Nat.zero_add _) ?_
  intro written
  exact List.append_nil _

/-- The size was compared with the largest 32-bit number before it is cast. -/
theorem logs_text (value : Bytes) :
    Logs fmt (text fmt value) (4 + value.length) (textSteps fmt value) := by
  unfold text
  split
  · exact logs_fail
  · have hsize := @Writer.emits_u32 fmt (.ofNat value.length)
    refine ((logs_narrow (by omega)).bind (fun _ => (logs_lift hsize (length_bigEndian 4 _)).bind
      (fun _ => logs_raw value))).congr (by omega) ?_
    intro written
    rfl

theorem logs_optional (value : Option α) {body : α → AuditedWriterM Unit} {size : α → Nat}
    {steps : α → Nat → List Observation} (h : ∀ a, Logs fmt (body a) (size a) (steps a)) :
    Logs fmt (optional fmt value body) (1 + value.elim 0 size)
      (fun written => value.elim [] (fun a => steps a (written + 1))) := by
  have hflag := logs_lift (@Writer.emits_boolean fmt value.isSome) rfl
  cases value with
  | none => exact hflag.bind (fun _ => Logs.pure)
  | some a => exact hflag.bind (fun _ => h a)

variable [External]

theorem logs_capture (value : Option StreamCapture) :
    Logs fmt (capture fmt value) (captureSize value) (captureSteps fmt value) := by
  have hbody := fun c : StreamCapture =>
    (logs_lift (@Writer.emits_u64 fmt c.byteCount) (length_bigEndian 8 _)).bind (fun _ =>
      (logs_lift (@Writer.emits_identity fmt _ c.digest) c.digest.length_hexDecode_hex).bind
        (fun _ => logs_optional c.material (fun m => logs_text m.val)))
  refine (logs_optional value hbody).congr ?_ ?_
  · cases value with
    | none => rfl
    | some c =>
      cases hmaterial : c.material with
      | none => simp [captureSize, hmaterial]
      | some m =>
        simp only [captureSize, hmaterial, Option.elim_some]
        omega
  · intro written
    cases value with
    | none => rfl
    | some c => cases hmaterial : c.material <;> simp [captureSteps, hmaterial]

/-- The size of the output where the streams begin. -/
def headSize (r : ExecutionResult) : Nat :=
  (8 + 2 + 96 + 2) + (if r.observedInterpreter.isSome then 33 else 1) + terminationSize r.termination

theorem logs_writeEvidence (r : ExecutionResult) :
    Logs resultFormat (writeEvidence r)
      (headSize r + captureSize r.standardOutput + captureSize r.standardError)
      (fun written => rawSteps resultFormat encodingMagic written ++
        (captureSteps resultFormat r.standardOutput (written + headSize r) ++
        captureSteps resultFormat r.standardError
          (written + headSize r + captureSize r.standardOutput))) := by
  have hinterpreter := @length_optionField InterpreterIdentity (fun i => hexDecode i.hex.val) 32
    (fun i => i.length_hexDecode_hex) r.observedInterpreter
  have hmagic : encodingMagic.length = 8 := by decide
  unfold writeEvidence
  refine ((logs_raw encodingMagic).bind (fun _ =>
    (logs_lift (Writer.emits_u16 _) (length_bigEndian 2 _)).bind (fun _ =>
    (logs_lift (Writer.emits_identity _) r.request.identity.length_hexDecode_hex).bind (fun _ =>
    (logs_lift (Writer.emits_identity _) r.backend.identity.length_hexDecode_hex).bind (fun _ =>
    (logs_lift (Writer.emits_identity _) r.identity.length_hexDecode_hex).bind (fun _ =>
    (logs_lift (Writer.emits_byte _) rfl).bind (fun _ =>
    (logs_lift (Writer.emits_byte _) rfl).bind (fun _ =>
    (logs_lift (Writer.emits_optional (fun i => Writer.emits_identity i)) hinterpreter).bind (fun _ =>
    (logs_lift (emits_termination _) (length_terminationBytes _)).bind (fun _ =>
    (logs_capture r.standardOutput).bind (fun _ =>
      logs_capture r.standardError))))))))))).congr ?_ ?_
  · rw [hmagic, headSize]
    simp only [List.length_singleton]
    split <;> omega
  · intro written
    have hhead : written + 8 + 2 + 32 + 32 + 32 + 1 + 1 +
        (if r.observedInterpreter.isSome = true then 1 + 32 else 1) +
        terminationSize r.termination = written + headSize r := by
      rw [headSize]
      split <;> omega
    simp only [List.nil_append, hmagic, List.length_singleton, hhead]

/-- The count was compared with 32 before it is cast. -/
theorem logs_writeOutcome (r : ExecutionResult) :
    Logs resultFormat (writeOutcome r)
      (2 + r.establishedGuarantees.length + 1 + (if r.failure.isSome then 2 else 1) +
        (4 + r.diagnostic.val.length))
      (fun written => .narrow 16 r.establishedGuarantees.length ::
        textSteps resultFormat r.diagnostic.val (written +
          (2 + r.establishedGuarantees.length + 1 + (if r.failure.isSome then 2 else 1)))) := by
  have hguarantees : (r.establishedGuarantees.flatMap (fun g => [enumByte g])).length =
      r.establishedGuarantees.length := by simp
  have hfailure : (IdentityBuilder.optionField (fun f : ExecutionFailureKind => [enumByte f])
      r.failure).length = if r.failure.isSome then 2 else 1 :=
    @length_optionField ExecutionFailureKind (fun f => [enumByte f]) 1 (fun _ => rfl) r.failure
  have hmaximum : maximumGuaranteeCount < 2 ^ 16 := by decide
  unfold writeOutcome
  split
  · exact logs_fail
  · have hdiagnostic : Logs resultFormat
        (if r.diagnostic.val.length > maximumDiagnosticSize then
          AuditM.lift (Writer.fail .inconsistentResult
            (resultFormat.message " diagnostic exceeds its limit"))
        else text resultFormat r.diagnostic.val) (4 + r.diagnostic.val.length)
        (textSteps resultFormat r.diagnostic.val) := by
      split
      · exact logs_fail
      · exact logs_text _
    refine ((logs_narrow (by omega)).bind (fun _ =>
      (logs_lift (Writer.emits_u16 _) (length_bigEndian 2 _)).bind (fun _ =>
      (logs_lift (Wire.Emits.forM (fun _ _ => Writer.emits_byte _)) hguarantees).bind (fun _ =>
      (logs_lift (Writer.emits_byte _) rfl).bind (fun _ =>
      (logs_lift (Writer.emits_optional (fun _ => Writer.emits_byte _)) hfailure).bind (fun _ =>
        hdiagnostic)))))).congr ?_ ?_
    · simp only [List.length_singleton]
      omega
    · intro written
      have hwritten : written + 0 + 2 + r.establishedGuarantees.length + 1 +
          (if r.failure.isSome then 2 else 1) = written +
            (2 + r.establishedGuarantees.length + 1 + (if r.failure.isSome then 2 else 1)) := by
        omega
      simp only [List.nil_append, List.singleton_append, List.length_singleton, hwritten]

/-- **The differences and the casts of `encode_execution_result`**, in the order of the source. -/
def encodingSteps (r : ExecutionResult) : List Observation :=
  rawSteps resultFormat encodingMagic 0 ++
    captureSteps resultFormat r.standardOutput (headSize r) ++
    captureSteps resultFormat r.standardError (headSize r + captureSize r.standardOutput) ++
    [.narrow 16 r.establishedGuarantees.length] ++
    textSteps resultFormat r.diagnostic.val (headSize r + captureSize r.standardOutput +
      captureSize r.standardError +
      (2 + r.establishedGuarantees.length + 1 + (if r.failure.isSome then 2 else 1)))

theorem logs_encodeExecutionResult (r : ExecutionResult) :
    ∃ size steps, Logs resultFormat (encodeExecutionResult r) size steps ∧
      steps 0 = encodingSteps r := by
  refine ⟨_, _, (logs_writeEvidence r).bind (fun _ => (logs_writeOutcome r).bind (fun _ =>
    logs_get.bind (fun payload => (logs_lift (Writer.emits_checksum payload)
      (External.sha256 payload).property).bind (fun _ => logs_get)))), ?_⟩
  simp only [encodingSteps, Nat.zero_add, Nat.add_assoc, List.append_nil, List.append_assoc,
    List.singleton_append]

end Logs

end AuditedWriter

/-! ## 4. The size of an encoding

For a built result the number of guarantees is no question, and what is left of `Encodable` are two
inequalities. -/

section EncodingSize

variable [External]

/-- What the encoder asks of a built result is about two numbers. -/
theorem Built.encodable_iff {r : ExecutionResult} (h : Built r) :
    Encodable r ↔ ¬ (r.diagnostic.val.length > 1048576 ∨ encodingSize r > 67108864) := by
  have hcount : r.establishedGuarantees.length ≤ maximumGuaranteeCount := by
    have hle := length_le_of_strict h.evidence.established_strict
    have hmaximum : maximumGuaranteeCount = 32 := rfl
    omega
  have hdiagnostic : maximumDiagnosticSize = 1048576 := rfl
  have hmaximum : resultFormat.maximum = 67108864 := rfl
  constructor
  · rintro ⟨-, hdiag, hsize⟩
    rw [length_payload] at hsize
    omega
  · intro hnot
    refine ⟨hcount, by omega, ?_⟩
    rw [length_payload]
    omega

/-- **The size of an encoding is exact and bounded.**  A built result is refused for a diagnostic
above 1 MiB or a record above 64 MiB, and with no other error; otherwise it is written in exactly
`encodingSize` bytes.  On every path the differences and casts of the writer are exact, and none is
missing: they are those of `encodingSteps`, up to the point where a refused record stops. -/
theorem encoding_size_exact (r : ExecutionResult) (h : Built r) :
    (Raises (encodeExecutionResult r) .inconsistentResult ↔
      r.diagnostic.val.length > 1048576 ∨ encodingSize r > 67108864) ∧
    (∀ e, encodeExecutionResult r = .error e → e.code = .inconsistentResult) ∧
    (¬ (r.diagnostic.val.length > 1048576 ∨ encodingSize r > 67108864) →
      ∃ b, encodeExecutionResult r = .ok b ∧ b.length = encodingSize r) ∧
    (AuditedWriter.encodeExecutionResult r []).result = encodeExecutionResult r ∧
    (∀ o ∈ (AuditedWriter.encodeExecutionResult r []).log, o.Exact) ∧
    (AuditedWriter.encodeExecutionResult r []).log <+: AuditedWriter.encodingSteps r ∧
    ∀ b, encodeExecutionResult r = .ok b →
      (AuditedWriter.encodeExecutionResult r []).log = AuditedWriter.encodingSteps r := by
  have hiff := h.encodable_iff
  have hresult := AuditedWriter.result_encodeExecutionResult r
  obtain ⟨size, steps, hlogs, hsteps⟩ := AuditedWriter.logs_encodeExecutionResult r
  have hbegun : (AuditedWriter.encodeExecutionResult r []).log <+: steps 0 :=
    hlogs.begun [] (Nat.zero_le _)
  have hdone : ∀ b, encodeExecutionResult r = .ok b →
      (AuditedWriter.encodeExecutionResult r []).log = steps 0 :=
    fun b hb => (hlogs.done [] b (Nat.zero_le _) (hresult.trans hb)).1
  rw [hsteps] at hbegun hdone
  refine ⟨?_, ?_, ?_, hresult, hlogs.exact [] (Nat.zero_le _), hbegun, hdone⟩
  · constructor
    · rintro ⟨e, he, -⟩
      by_contra hfits
      rw [encode_of_encodable (hiff.mpr hfits)] at he
      exact absurd he (by simp)
    · intro hlarge
      exact encode_raises (fun henc => hiff.mp henc hlarge)
  · intro e he
    by_cases henc : Encodable r
    · rw [encode_of_encodable henc] at he
      exact absurd he (by simp)
    · obtain ⟨e', he', hcode⟩ := encode_raises henc
      obtain rfl := Except.error.inj (he.symm.trans he')
      exact hcode
  · intro hfits
    refine ⟨_, encode_of_encodable (hiff.mpr hfits), ?_⟩
    rw [List.length_append, (External.sha256 (payload r)).property]
    exact length_payload r

end EncodingSize

open Sample in
/-- The report of a failed cleanup takes 198 bytes: the writer subtracts for the magic alone, as
there is no stream and no diagnostic, and casts the two sizes. -/
theorem encoding_size_exact_cleanupFailed :
    ∃ b, encodeExecutionResult (cleanupFailedResult .exitedZero diagnostic) = .ok b ∧
      b.length = 198 ∧
      (AuditedWriter.encodeExecutionResult (cleanupFailedResult .exitedZero diagnostic) []).log =
        [.difference 67108864 0, .narrow 16 6, .narrow 32 0] := by
  have hsize : encodingSize (cleanupFailedResult .exitedZero diagnostic) = 198 := by decide +kernel
  have hfits : ¬ ((cleanupFailedResult .exitedZero diagnostic).diagnostic.val.length > 1048576 ∨
      encodingSize (cleanupFailedResult .exitedZero diagnostic) > 67108864) := by
    rw [hsize]
    decide
  have hexact := encoding_size_exact _ ⟨_, run_cleanupFailedCall .exitedZero diagnostic⟩
  have hsteps : AuditedWriter.encodingSteps (cleanupFailedResult .exitedZero diagnostic) =
      [.difference 67108864 0, .narrow 16 6, .narrow 32 0] := rfl
  obtain ⟨b, hb, hlen⟩ := hexact.2.2.1 hfits
  exact ⟨b, hb, hlen.trans hsize, (hexact.2.2.2.2.2.2 b hb).trans hsteps⟩

end Pkgexec
