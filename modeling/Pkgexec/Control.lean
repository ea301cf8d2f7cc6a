/-
# Cancellation control

`src/control.cpp`, as one thread sees it: a source is a state bound to the identity of one
request, requesting cancellation sets its flag once and for all, and a token is what the state
holds when it is looked at.
-/
import Pkgexec.Profile

namespace Pkgexec

open Bytes

/-- `detail::cancellation_state`, owned by a `cancellation_source`. -/
@[ext] structure CancellationSource where
  request : ExecutionRequestIdentity
  requested : Bool
  deriving DecidableEq

/-- What a `cancellation_token` reports of the state it shares. -/
@[ext] structure CancellationToken where
  requestIdentity : ExecutionRequestIdentity
  cancellationRequested : Bool
  deriving DecidableEq

namespace CancellationSource

/-- `cancellation_source::token`. -/
def token (s : CancellationSource) : CancellationToken := ⟨s.request, s.requested⟩

/-- `cancellation_source::request_cancellation`: whether this call made the transition, and the
state after it. -/
def requestCancellation (s : CancellationSource) : Bool × CancellationSource :=
  if s.requested = true then (false, s) else (true, { s with requested := true })

@[simp] theorem requestCancellation_request (s : CancellationSource) :
    s.requestCancellation.2.request = s.request := by
  unfold requestCancellation
  split <;> rfl

@[simp] theorem requestCancellation_requested (s : CancellationSource) :
    s.requestCancellation.2.requested = true := by
  unfold requestCancellation
  split
  · assumption
  · rfl

variable [External]

/-- `cancellation_source::for_request`. -/
def forRequest (request : ExecutionRequest) : Except Error CancellationSource := do
  refuseIf (request.cancellation.mode = .disabled) .invalidControl
    (text "disabled cancellation has no call-scoped control authority")
  return ⟨request.identity, false⟩

theorem forRequest_eq_ok {q : ExecutionRequest} {s : CancellationSource} :
    forRequest q = .ok s ↔ q.cancellation.mode ≠ .disabled ∧ s = ⟨q.identity, false⟩ := by
  simp only [forRequest, bind_eq_ok, refuseIf_eq_ok]
  constructor
  · rintro ⟨-, hmode, hs⟩
    exact ⟨hmode, (Except.ok.inj hs).symm⟩
  · rintro ⟨hmode, rfl⟩
    exact ⟨(), hmode, rfl⟩

end CancellationSource

section Token

variable [External]

/-- `cancellation_token::applies_to`. -/
def CancellationToken.appliesTo (t : CancellationToken) (request : ExecutionRequest) : Bool :=
  request.identity = t.requestIdentity

theorem CancellationToken.appliesTo_iff {t : CancellationToken} {q : ExecutionRequest} :
    t.appliesTo q = true ↔ q.identity = t.requestIdentity := decide_eq_true_iff

def requireCancellationControl (request : ExecutionRequest) (token : CancellationToken) :
    Except Error Unit := do
  refuseIf (request.cancellation.mode = .disabled) .invalidControl
    (text "controlled execution requires an enabled cancellation policy")
  refuseIf (token.appliesTo request = false) .controlMismatch
    (text "cancellation control does not match the sealed execution request")

/-- `require_requested_control` of `src/result.cpp`. -/
def requireRequestedControl (request : ExecutionRequest) (cancellation : CancellationToken) :
    Except Error Unit := do
  requireCancellationControl request cancellation
  refuseIf (cancellation.cancellationRequested = false) .invalidControl
    (text "cancellation evidence requires a requested cancellation signal")

/-- **Control evidence for a request**: its policy allows cancellation, and the token is bound
to it and reports that cancellation was requested. -/
structure ControlEvidence (request : ExecutionRequest) (token : CancellationToken) : Prop where
  enabled : request.cancellation.mode ≠ .disabled
  bound : token.requestIdentity = request.identity
  requested : token.cancellationRequested = true

theorem requireRequestedControl_eq_ok {q : ExecutionRequest} {t : CancellationToken} {u : Unit} :
    requireRequestedControl q t = .ok u ↔ ControlEvidence q t := by
  simp only [requireRequestedControl, requireCancellationControl, bind_eq_ok, refuseIf_eq_ok,
    Bool.not_eq_false, CancellationToken.appliesTo_iff]
  constructor
  · rintro ⟨-, ⟨-, hmode, hbound⟩, hrequested⟩
    exact ⟨hmode, hbound.symm, hrequested⟩
  · rintro ⟨hmode, hbound, hrequested⟩
    exact ⟨(), ⟨(), hmode, hbound.symm⟩, hrequested⟩

end Token

end Pkgexec
