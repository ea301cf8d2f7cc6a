/-
# Execution results

The five factories of `execution_result` (`src/result.cpp`), each with its checks in the order
of the source, and the hash of the evidence they seal.

A `FactoryCall` is a call of one of them with its arguments, and `Built r` says that some call
returned `r`.
-/
import Pkgexec.Control

namespace Pkgexec

open Bytes Ranges

/-! ## 1. Failure kinds and guarantees before the start

Two classifications that the factories share: which failures come before a process is started, and
which guarantees can be established without one. -/

/-- `pre_start_failure`. -/
def preStartFailure : ExecutionFailureKind → Bool
  | .requestRejected => true
  | .backendUnsupported => true
  | .resourceAdmissionFailed => true
  | .interpreterUnavailable => true
  | .isolationSetupFailed => true
  | .processStartFailed => true
  | .programExitedNonzero => false
  | .programTerminatedBySignal => false
  | .resourceLimitExceeded => false
  | .cancelled => false
  | .logCaptureFailed => false
  | .cleanupFailed => false

/-- `before_start_guarantee`. -/
def beforeStartGuarantee (guarantee : ExecutionGuarantee) : Bool :=
  guarantee != .completeStdoutCapture && guarantee != .completeStderrCapture &&
    guarantee != .cleanupVerified

section Result

variable [External]

/-- `before_start_requirements`. -/
def beforeStartRequirements (request : ExecutionRequest) : List ExecutionGuarantee :=
  request.requiredGuarantees.filter beforeStartGuarantee

/-! ## 2. Checks the factories share

The established guarantees must be required and advertised, and the captures must fit the policy of
the request. -/

def requireRequestedGuarantees (established : List ExecutionGuarantee)
    (request : ExecutionRequest) : Except Error Unit :=
  refuseIf (includes request.requiredGuarantees established = false) .inconsistentResult
    (text "execution result claims a guarantee absent from the sealed request")

def requireSubset (established : List ExecutionGuarantee) (backend : BackendCapabilityProfile) :
    Except Error Unit :=
  refuseIf (includes backend.guarantees established = false) .inconsistentResult
    (text "execution result claims a guarantee absent from the backend profile")

def requireCaptureShape (request : ExecutionRequest) (standardOutput : Option StreamCapture)
    (standardError : Option StreamCapture) (allowMissing : Bool) : Except Error Unit :=
  let wantStdout : Bool := request.environment.standardOutput = .captureComplete
  let wantStderr : Bool := request.environment.standardError = .captureComplete
  refuseIf
    ((!allowMissing && wantStdout != standardOutput.isSome) ||
      (!allowMissing && wantStderr != standardError.isSome) ||
      (!wantStdout && standardOutput.isSome) ||
      (!wantStderr && standardError.isSome)) .inconsistentResult
    (text "captured streams do not match the request I/O policy")

/-! ## 3. Evidence identity

A result is identified by what it is evidence of.  The diagnostic is left out of the preimage; of
the request, the profile and the guarantees their identities and values are in it. -/

/-- `append_capture`. -/
def appendCapture (hash : IdentityBuilder) (capture : Option StreamCapture) : IdentityBuilder :=
  hash.addOptional capture (fun hash capture => hash
    |>.addU64 capture.byteCount
    |>.addString capture.digest.hex.val)

/-- What `identify_result` hashes. -/
def resultPreimage (status : ExecutionStatus) (startState : ExecutionStartState)
    (request : ExecutionRequest) (backend : BackendCapabilityProfile)
    (observedInterpreter : Option InterpreterIdentity) (termination : Option ProcessTermination)
    (standardOutput : Option StreamCapture) (standardError : Option StreamCapture)
    (establishedGuarantees : List ExecutionGuarantee) (cleanup : CleanupOutcome)
    (failure : Option ExecutionFailureKind) : IdentityBuilder :=
  let hash := IdentityBuilder.new "pkgexec/execution-evidence/v1"
    |>.addU8 (enumByte status)
    |>.addU8 (enumByte startState)
    |>.addString request.identity.hex.val
    |>.addString backend.identity.hex.val
    |>.addOptional observedInterpreter (fun hash interpreter => hash.addString interpreter.hex.val)
    |>.addOptional termination (fun hash termination => hash
      |>.addU8 (enumByte termination.kind)
      |>.addOptional termination.value IdentityBuilder.addU32
      |>.addOptional termination.limit (fun hash limit => hash.addU8 (enumByte limit)))
  appendCapture (appendCapture hash standardOutput) standardError
    |>.addU64 (.ofNat establishedGuarantees.length)
    |>.addEach establishedGuarantees (fun hash guarantee => hash.addU8 (enumByte guarantee))
    |>.addU8 (enumByte cleanup)
    |>.addOptional failure (fun hash failure => hash.addU8 (enumByte failure))

/-- `execution_result`. -/
@[ext] structure ExecutionResult where
  status : ExecutionStatus
  startState : ExecutionStartState
  request : ExecutionRequest
  backend : BackendCapabilityProfile
  observedInterpreter : Option InterpreterIdentity
  termination : Option ProcessTermination
  standardOutput : Option StreamCapture
  standardError : Option StreamCapture
  establishedGuarantees : List ExecutionGuarantee
  cleanup : CleanupOutcome
  failure : Option ExecutionFailureKind
  diagnostic : Str
  identity : ExecutionEvidenceIdentity

namespace ExecutionResult

/-- The constructor, called with `identify_result` of the fields. -/
def sealed (status : ExecutionStatus) (startState : ExecutionStartState)
    (request : ExecutionRequest) (backend : BackendCapabilityProfile)
    (observedInterpreter : Option InterpreterIdentity) (termination : Option ProcessTermination)
    (standardOutput : Option StreamCapture) (standardError : Option StreamCapture)
    (establishedGuarantees : List ExecutionGuarantee) (cleanup : CleanupOutcome)
    (failure : Option ExecutionFailureKind) (diagnostic : Str) : ExecutionResult where
  status := status
  startState := startState
  request := request
  backend := backend
  observedInterpreter := observedInterpreter
  termination := termination
  standardOutput := standardOutput
  standardError := standardError
  establishedGuarantees := establishedGuarantees
  cleanup := cleanup
  failure := failure
  diagnostic := diagnostic
  identity := (resultPreimage status startState request backend observedInterpreter termination
    standardOutput standardError establishedGuarantees cleanup failure).finish

/-! ## 4. The factories

The checks stand in the order of the source, since that order decides which error a caller sees.
The private constructor is only reached at the end. -/

/-- `execution_result::failed_before_start`. -/
def failedBeforeStart (request : ExecutionRequest) (backend : BackendCapabilityProfile)
    (failure : Raw ExecutionFailureKind) (establishedGuarantees : List (Raw ExecutionGuarantee))
    (diagnostic : Str) : Except Error ExecutionResult := do
  let failure ← failure.require .invalidFailure
    (text "unsupported pre-start execution failure kind")
  refuseIf (failure = .cancelled) .invalidControl
    (text "pre-start cancellation requires call-scoped control evidence")
  refuseIf (preStartFailure failure = false) .invalidFailure
    (text "selected failure kind requires a started process")
  let established ← normalizeGuarantees establishedGuarantees .inconsistentResult
    "execution result"
  requireLimitGuaranteeShape established .inconsistentResult "execution result"
  requireRequestedGuarantees established request
  requireSubset established backend
  refuseIf (established.any (fun value => !beforeStartGuarantee value)) .inconsistentResult
    (text "not-started execution cannot establish capture or cleanup guarantees")
  refuseIf (failure ≠ .backendUnsupported ∧ backend.supports request = false) .unsupportedRequest
    (text "backend profile does not support the rejected request")
  return sealed .failed .notStarted request backend none none none none established .notRequired
    (some failure) diagnostic

/-- `execution_result::cancelled_before_start`. -/
def cancelledBeforeStart (request : ExecutionRequest) (backend : BackendCapabilityProfile)
    (cancellation : CancellationToken) (establishedGuarantees : List (Raw ExecutionGuarantee))
    (diagnostic : Str) : Except Error ExecutionResult := do
  requireRequestedControl request cancellation
  let established ← normalizeGuarantees establishedGuarantees .inconsistentResult
    "execution result"
  requireLimitGuaranteeShape established .inconsistentResult "execution result"
  requireRequestedGuarantees established request
  requireSubset established backend
  refuseIf (backend.supports request = false) .unsupportedRequest
    (text "backend profile does not support the cancelled request")
  refuseIf (hasGuarantee established .cancellation = false) .inconsistentResult
    (text "cancelled execution must establish cancellation control")
  refuseIf (established.any (fun value => !beforeStartGuarantee value)) .inconsistentResult
    (text "not-started cancellation cannot establish capture or cleanup guarantees")
  return sealed .failed .notStarted request backend none none none none established .notRequired
    (some .cancelled) diagnostic

/-- `execution_result::succeeded`. -/
def succeeded (request : ExecutionRequest) (backend : BackendCapabilityProfile)
    (observedInterpreter : InterpreterIdentity) (standardOutput : Option StreamCapture)
    (standardError : Option StreamCapture) (establishedGuarantees : List (Raw ExecutionGuarantee))
    (diagnostic : Str) : Except Error ExecutionResult := do
  let established ← normalizeGuarantees establishedGuarantees .inconsistentResult
    "execution result"
  requireLimitGuaranteeShape established .inconsistentResult "execution result"
  requireRequestedGuarantees established request
  refuseIf (backend.supports request = false ∨
      includes established request.requiredGuarantees = false) .unsupportedRequest
    (text "successful execution evidence lacks a required guarantee")
  requireSubset established backend
  refuseIf (observedInterpreter ≠ request.interpreter) .inconsistentResult
    (text "observed interpreter does not match the sealed request")
  requireCaptureShape request standardOutput standardError false
  let termination ← ProcessTermination.exited 0
  return sealed .succeeded .started request backend (some observedInterpreter) (some termination)
    standardOutput standardError established .verified none diagnostic

/-- The switch over the failure kind in `failed_after_start_impl`. -/
def requireFailureEvidence (request : ExecutionRequest) (termination : ProcessTermination)
    (standardOutput : Option StreamCapture) (standardError : Option StreamCapture)
    (established : List ExecutionGuarantee) (cleanup : CleanupOutcome)
    (cancellationAdmitted : Bool) : ExecutionFailureKind → Except Error Unit
  | .programExitedNonzero =>
    refuseIf (termination.kind ≠ .exited ∨ termination.value = none ∨ termination.value = some 0)
      .invalidFailure (text "nonzero-exit failure requires a nonzero exit status")
  | .programTerminatedBySignal =>
    refuseIf (termination.kind ≠ .signaled) .invalidFailure
      (text "signal failure requires signal termination evidence")
  | .resourceLimitExceeded =>
    match termination.kind, termination.limit with
    | .resourceLimited, some limit => do
      refuseIf (limitRequested request.limits limit = false) .invalidFailure
        (text "resource-limit termination was not requested")
      refuseIf (hasGuarantee established .resourceLimits = false ∨
          hasGuarantee established (guaranteeFor limit) = false) .inconsistentResult
        (text "resource-limit termination lacks matching established guarantees")
    | _, _ =>
      raise .invalidFailure (text "resource-limit failure requires limit termination evidence")
  | .cancelled => do
    refuseIf (cancellationAdmitted = false) .invalidControl
      (text "started cancellation requires call-scoped control evidence")
    refuseIf (termination.kind ≠ .cancelled) .invalidFailure
      (text "cancellation failure requires cancellation evidence")
  | .logCaptureFailed => do
    requireCaptureShape request standardOutput standardError true
    refuseIf (request.environment.standardOutput = .captureComplete ∧
        standardOutput.isSome = true ∧
        request.environment.standardError = .captureComplete ∧
        standardError.isSome = true) .invalidFailure
      (text "log-capture failure requires missing requested stream evidence")
  | .cleanupFailed =>
    refuseIf (cleanup ≠ .failed) .invalidFailure
      (text "cleanup failure requires failed cleanup evidence")
  | .requestRejected => .ok ()
  | .backendUnsupported => .ok ()
  | .resourceAdmissionFailed => .ok ()
  | .interpreterUnavailable => .ok ()
  | .isolationSetupFailed => .ok ()
  | .processStartFailed => .ok ()

/-- `execution_result::failed_after_start_impl`. -/
def failedAfterStartImpl (request : ExecutionRequest) (backend : BackendCapabilityProfile)
    (observedInterpreter : InterpreterIdentity) (termination : ProcessTermination)
    (standardOutput : Option StreamCapture) (standardError : Option StreamCapture)
    (establishedGuarantees : List (Raw ExecutionGuarantee)) (cleanup : Raw CleanupOutcome)
    (failure : Raw ExecutionFailureKind) (cancellationAdmitted : Bool) (diagnostic : Str) :
    Except Error ExecutionResult := do
  let failure ← failure.require .invalidFailure (text "unsupported started execution failure kind")
  let cleanup ← cleanup.require .inconsistentResult (text "unsupported cleanup outcome")
  refuseIf (preStartFailure failure = true) .invalidFailure
    (text "selected failure kind requires a not-started result")
  refuseIf (cleanup = .notRequired) .inconsistentResult
    (text "started execution must report cleanup verification")
  refuseIf (observedInterpreter ≠ request.interpreter) .inconsistentResult
    (text "observed interpreter does not match the sealed request")
  let established ← normalizeGuarantees establishedGuarantees .inconsistentResult
    "execution result"
  requireLimitGuaranteeShape established .inconsistentResult "execution result"
  requireRequestedGuarantees established request
  requireSubset established backend
  refuseIf (backend.supports request = false) .unsupportedRequest
    (text "a backend must not start an unsupported request")
  refuseIf (includes established (beforeStartRequirements request) = false) .inconsistentResult
    (text "started execution lacks a required pre-start guarantee")
  refuseIf (hasGuarantee established .completeStdoutCapture ≠ standardOutput.isSome ∨
      hasGuarantee established .completeStderrCapture ≠ standardError.isSome) .inconsistentResult
    (text "stream evidence and established capture guarantees disagree")
  refuseIf (decide (cleanup = .verified) ≠ hasGuarantee established .cleanupVerified)
    .inconsistentResult (text "cleanup outcome and established cleanup guarantee disagree")
  requireFailureEvidence request termination standardOutput standardError established cleanup
    cancellationAdmitted failure
  (if failure ≠ .logCaptureFailed then
    requireCaptureShape request standardOutput standardError false
  else .ok ())
  refuseIf (failure ≠ .cleanupFailed ∧ cleanup ≠ .verified) .inconsistentResult
    (text "non-cleanup failures still require verified cleanup")
  return sealed .failed .started request backend (some observedInterpreter) (some termination)
    standardOutput standardError established cleanup (some failure) diagnostic

/-- `execution_result::failed_after_start`. -/
def failedAfterStart (request : ExecutionRequest) (backend : BackendCapabilityProfile)
    (observedInterpreter : InterpreterIdentity) (termination : ProcessTermination)
    (standardOutput : Option StreamCapture) (standardError : Option StreamCapture)
    (establishedGuarantees : List (Raw ExecutionGuarantee)) (cleanup : Raw CleanupOutcome)
    (failure : Raw ExecutionFailureKind) (diagnostic : Str) : Except Error ExecutionResult :=
  failedAfterStartImpl request backend observedInterpreter termination standardOutput
    standardError establishedGuarantees cleanup failure false diagnostic

/-- `execution_result::cancelled_after_start`. -/
def cancelledAfterStart (request : ExecutionRequest) (backend : BackendCapabilityProfile)
    (cancellation : CancellationToken) (observedInterpreter : InterpreterIdentity)
    (standardOutput : Option StreamCapture) (standardError : Option StreamCapture)
    (establishedGuarantees : List (Raw ExecutionGuarantee)) (cleanup : Raw CleanupOutcome)
    (diagnostic : Str) : Except Error ExecutionResult := do
  requireRequestedControl request cancellation
  failedAfterStartImpl request backend observedInterpreter .cancelled standardOutput
    standardError establishedGuarantees cleanup (Raw.of ExecutionFailureKind.cancelled) true
    diagnostic

end ExecutionResult

/-! ## 5. Calls of the public factories

What a caller can do to obtain a result in memory is one of five calls.  The tokens that two of
them take are values here; `ControlRuns` says how a caller comes by them. -/

/-- A public factory with its arguments. -/
inductive FactoryCall
  | failedBeforeStart (request : ExecutionRequest) (backend : BackendCapabilityProfile)
      (failure : Raw ExecutionFailureKind)
      (establishedGuarantees : List (Raw ExecutionGuarantee)) (diagnostic : Str)
  | cancelledBeforeStart (request : ExecutionRequest) (backend : BackendCapabilityProfile)
      (cancellation : CancellationToken)
      (establishedGuarantees : List (Raw ExecutionGuarantee)) (diagnostic : Str)
  | succeeded (request : ExecutionRequest) (backend : BackendCapabilityProfile)
      (observedInterpreter : InterpreterIdentity) (standardOutput : Option StreamCapture)
      (standardError : Option StreamCapture)
      (establishedGuarantees : List (Raw ExecutionGuarantee)) (diagnostic : Str)
  | failedAfterStart (request : ExecutionRequest) (backend : BackendCapabilityProfile)
      (observedInterpreter : InterpreterIdentity) (termination : ProcessTermination)
      (standardOutput : Option StreamCapture) (standardError : Option StreamCapture)
      (establishedGuarantees : List (Raw ExecutionGuarantee)) (cleanup : Raw CleanupOutcome)
      (failure : Raw ExecutionFailureKind) (diagnostic : Str)
  | cancelledAfterStart (request : ExecutionRequest) (backend : BackendCapabilityProfile)
      (cancellation : CancellationToken) (observedInterpreter : InterpreterIdentity)
      (standardOutput : Option StreamCapture) (standardError : Option StreamCapture)
      (establishedGuarantees : List (Raw ExecutionGuarantee)) (cleanup : Raw CleanupOutcome)
      (diagnostic : Str)

namespace FactoryCall

/-- The call. -/
def run : FactoryCall → Except Error ExecutionResult
  | failedBeforeStart request backend failure established diagnostic =>
    ExecutionResult.failedBeforeStart request backend failure established diagnostic
  | cancelledBeforeStart request backend cancellation established diagnostic =>
    ExecutionResult.cancelledBeforeStart request backend cancellation established diagnostic
  | succeeded request backend interpreter output error established diagnostic =>
    ExecutionResult.succeeded request backend interpreter output error established diagnostic
  | failedAfterStart request backend interpreter termination output error established cleanup
      failure diagnostic =>
    ExecutionResult.failedAfterStart request backend interpreter termination output error
      established cleanup failure diagnostic
  | cancelledAfterStart request backend cancellation interpreter output error established cleanup
      diagnostic =>
    ExecutionResult.cancelledAfterStart request backend cancellation interpreter output error
      established cleanup diagnostic

/-- The request the factory is given, -/
def request : FactoryCall → ExecutionRequest
  | failedBeforeStart request _ _ _ _ => request
  | cancelledBeforeStart request _ _ _ _ => request
  | succeeded request _ _ _ _ _ _ => request
  | failedAfterStart request _ _ _ _ _ _ _ _ _ => request
  | cancelledAfterStart request _ _ _ _ _ _ _ _ => request

/-- the profile, -/
def backend : FactoryCall → BackendCapabilityProfile
  | failedBeforeStart _ backend _ _ _ => backend
  | cancelledBeforeStart _ backend _ _ _ => backend
  | succeeded _ backend _ _ _ _ _ => backend
  | failedAfterStart _ backend _ _ _ _ _ _ _ _ => backend
  | cancelledAfterStart _ backend _ _ _ _ _ _ _ => backend

/-- and the control evidence, if it takes any. -/
def token? : FactoryCall → Option CancellationToken
  | cancelledBeforeStart _ _ cancellation _ _ => some cancellation
  | cancelledAfterStart _ _ cancellation _ _ _ _ _ _ => some cancellation
  | _ => none

end FactoryCall

/-- Some public factory returned the result. -/
def Built (r : ExecutionResult) : Prop := ∃ call : FactoryCall, call.run = .ok r

end Result

end Pkgexec
