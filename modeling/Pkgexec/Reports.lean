/-
# What a result reports, and with which error a report is refused

The factories of `execution_result` sort the guarantees they are given and search the sorted
list.  What they refuse is said here of the guarantees as a set, and by the checks that can
report anything: three of those in `src/result.cpp` cannot, and stand in no list below.

* Section 1: guarantee lists, a profile failing exactly as its checks say.
* Sections 2 to 4: the checks of the five factories.
* Section 5: a factory returns what it was told, in canonical order and with its identity, or
  the error of its first failing check (`FactoryCall.reports_exact`).
-/
import Pkgexec.Declarations
import Pkgexec.Evidence

namespace Pkgexec

open Bytes Ranges Checks

/-- A check of the source, with its condition in other words. -/
theorem refuseIf_checked {c p : Prop} [Decidable c] (h : c ↔ p) {code : ErrorCode}
    {message : Bytes} : Checked (refuseIf c code message) [.when p ⟨code, message⟩] := by
  unfold refuseIf
  split
  · rename_i hc
    exact .fail_when (h.mp hc)
  · rename_i hc
    exact .pass_when (fun hp => hc (h.mpr hp)) .ok

/-- The same, from what the check accepts. -/
theorem checked_of_eq_ok {c p : Prop} [Decidable c] {code : ErrorCode} {message : Bytes}
    (h : refuseIf c code message = .ok () ↔ p) :
    Checked (refuseIf c code message) [.when (¬ p) ⟨code, message⟩] := by
  rw [refuseIf_eq_ok] at h
  exact refuseIf_checked (by rw [← h, not_not])

/-- A check, and what comes after it has passed. -/
theorem refuseIf_bind {β : Type} {c p : Prop} [Decidable c] {code : ErrorCode} {message : Bytes}
    {f : Unit → Except Error β} {cs : List (Check Error)} (h : c ↔ p)
    (hf : ¬ p → Checked (f ()) cs) :
    Checked (refuseIf c code message >>= f) (.when p ⟨code, message⟩ :: cs) :=
  (refuseIf_checked h).bind (fun _ hok => hf (fun hp => refuseIf_eq_ok.mp hok (h.mpr hp)))

/-- A check that cannot fail is none. -/
theorem checked_of_ok {α β : Type} {x : Except Error α} {a : α} {f : α → Except Error β}
    {cs : List (Check Error)} (hx : x = .ok a) (h : Checked (f a) cs) : Checked (x >>= f) cs := by
  subst hx
  exact h

/-! ## 1. Guarantees that are claimed

The source sorts a list of guarantees, drops repetitions, and searches the result.  A guarantee is
`Claimed` when it is in the list that the caller passed, which says nothing of order or repetition;
`claims_of_normalize` leads from the normalized list back to the claims. -/

/-- The guarantee is in a caller's list. -/
def Claimed (values : List (Raw ExecutionGuarantee)) (g : ExecutionGuarantee) : Prop :=
  .of g ∈ values

/-- The check of `normalize_guarantees`. -/
def vocabularyChecks (values : List (Raw ExecutionGuarantee)) (code : ErrorCode)
    (subject : String) : List (Check Error) :=
  [.when (∃ v ∈ values, ∀ g, v ≠ .of g)
    ⟨code, text subject ++ text " contains an unsupported execution guarantee"⟩]

/-- The check of `require_limit_guarantee_shape`. -/
def shapeChecks (values : List (Raw ExecutionGuarantee)) (code : ErrorCode)
    (subject : String) : List (Check Error) :=
  [.when (¬ (Claimed values .resourceLimits ↔ ∃ kind, Claimed values (guaranteeFor kind)))
    ⟨code, text subject ++ text " must combine resource-limits with at least one exact limit kind"⟩]

section Claims

variable {values : List (Raw ExecutionGuarantee)} {gs : List ExecutionGuarantee}
  {code : ErrorCode} {subject : String}

/-- A list is only refused for a value that is no guarantee. -/
theorem normalizeGuarantees_checked : Checked (normalizeGuarantees values code subject)
    (vocabularyChecks values code subject) :=
  Raw.requireAll_checked.bind_nil (fun _ _ => .ok)

/-- What is normalized is the increasing list of what is claimed. -/
theorem claims_of_normalize (h : normalizeGuarantees values code subject = .ok gs) :
    gs.Pairwise (· < ·) ∧ ∀ g, Claimed values g ↔ g ∈ gs := by
  obtain ⟨hstrict, hmem⟩ := normalizeGuarantees_eq_ok.mp h
  refine ⟨hstrict, fun g => ?_⟩
  rw [Claimed, hmem, List.mem_map_of_injective Raw.of_injective]

/-- The shape of the normalized list is the shape of the claims. -/
theorem requireLimitGuaranteeShape_checked (hstrict : gs.Pairwise (· < ·))
    (hclaims : ∀ g, Claimed values g ↔ g ∈ gs) :
    Checked (requireLimitGuaranteeShape gs code subject) (shapeChecks values code subject) := by
  simp only [shapeChecks, hclaims]
  exact checked_of_eq_ok (requireLimitGuaranteeShape_eq_ok hstrict)

end Claims

section Reports

variable [External]

/-- `backend_capability_profile::seal` makes these two checks, and no other. -/
theorem BackendCapabilityProfile.seal_checked {backend : BackendIdentity}
    {values : List (Raw ExecutionGuarantee)} :
    Checked (BackendCapabilityProfile.seal backend values)
      (vocabularyChecks values .invalidCapabilityProfile "backend capability profile" ++
        shapeChecks values .invalidCapabilityProfile "backend capability profile") := by
  unfold BackendCapabilityProfile.seal
  split
  · rename_i hnorm
    exact normalizeGuarantees_checked.stop hnorm
  rename_i gs hnorm
  obtain ⟨hstrict, hclaims⟩ := claims_of_normalize hnorm
  refine normalizeGuarantees_checked.next hnorm ?_
  have hshape : Checked
      (requireLimitGuaranteeShape gs .invalidCapabilityProfile "backend capability profile")
      (shapeChecks values .invalidCapabilityProfile "backend capability profile") :=
    requireLimitGuaranteeShape_checked hstrict hclaims
  rw [← List.append_nil (shapeChecks _ _ _)]
  split
  · rename_i herr
    exact hshape.stop herr
  · rename_i hok
    exact hshape.next hok .ok

/-! ## 2. What three factories check first

The factories that take guarantees begin alike: the list is normalized, its limits are together,
and nothing is claimed that the request does not require (`claimChecks`).  For all but `succeeded`
the next question is whether something is claimed that the profile does not advertise.  A profile
that lacks something required is `Unsupported`, and that is a check of its own. -/

/-- A required guarantee is not in the profile. -/
def Unsupported (request : ExecutionRequest) (backend : BackendCapabilityProfile) : Prop :=
  ∃ g ∈ request.requiredGuarantees, g ∉ backend.guarantees

/-- The checks on a list of established guarantees. -/
def claimChecks (request : ExecutionRequest) (values : List (Raw ExecutionGuarantee)) :
    List (Check Error) :=
  vocabularyChecks values .inconsistentResult "execution result" ++
    (shapeChecks values .inconsistentResult "execution result" ++
    [.when (∃ g, Claimed values g ∧ g ∉ request.requiredGuarantees)
      ⟨.inconsistentResult,
        text "execution result claims a guarantee absent from the sealed request"⟩])

/-- The check of `require_subset`. -/
def subsetChecks (backend : BackendCapabilityProfile) (values : List (Raw ExecutionGuarantee)) :
    List (Check Error) :=
  [.when (∃ g, Claimed values g ∧ g ∉ backend.guarantees)
    ⟨.inconsistentResult,
      text "execution result claims a guarantee absent from the backend profile"⟩]

section Parts

variable {q : ExecutionRequest} {p : BackendCapabilityProfile}
  {values : List (Raw ExecutionGuarantee)} {gs : List ExecutionGuarantee}

/-- `supports` fails for want of a required guarantee. -/
theorem supports_eq_false : p.supports q = false ↔ Unsupported q p := by
  rw [← Bool.not_eq_true, BackendCapabilityProfile.supports_iff]
  simp [Unsupported]

/-- The normalized list, with what it stands for, goes on to the other checks. -/
theorem claims_checked {α : Type} {k : List ExecutionGuarantee → Except Error α}
    {cs : List (Check Error)}
    (h : ∀ gs, gs.Pairwise (· < ·) → (∀ g, Claimed values g ↔ g ∈ gs) →
      (∀ g ∈ gs, g ∈ q.requiredGuarantees) → Checked (k gs) cs) :
    Checked (do
      let gs ← normalizeGuarantees values .inconsistentResult "execution result"
      requireLimitGuaranteeShape gs .inconsistentResult "execution result"
      requireRequestedGuarantees gs q
      k gs) (claimChecks q values ++ cs) := by
  rw [claimChecks, List.append_assoc, List.append_assoc]
  refine normalizeGuarantees_checked.bind (fun gs hgs => ?_)
  obtain ⟨hstrict, hclaims⟩ := claims_of_normalize hgs
  refine (requireLimitGuaranteeShape_checked hstrict hclaims).bind (fun _ _ => ?_)
  refine Checked.bind ?_ (fun _ hreq => ?_)
  · refine refuseIf_checked ?_
    rw [← Bool.not_eq_true, includes_iff q.required_strict hstrict]
    simp [hclaims]
  · exact h gs hstrict hclaims ((requireRequestedGuarantees_eq_ok hstrict).mp hreq)

/-- The subset test is about the claims. -/
theorem requireSubset_checked (hstrict : gs.Pairwise (· < ·))
    (hclaims : ∀ g, Claimed values g ↔ g ∈ gs) :
    Checked (requireSubset gs p) (subsetChecks p values) := by
  refine refuseIf_checked ?_
  rw [← Bool.not_eq_true, includes_iff p.guarantees_strict hstrict]
  simp [hclaims]

omit [External] in
/-- No capture and no cleanup is claimed before the start. -/
theorem any_not_beforeStart_iff (hclaims : ∀ g, Claimed values g ↔ g ∈ gs) :
    gs.any (fun value => !beforeStartGuarantee value) = true ↔
      ∃ g, Claimed values g ∧ beforeStartGuarantee g = false := by
  simp [hclaims]

/-- The checks of `require_requested_control`. -/
def controlChecks (request : ExecutionRequest) (cancellation : CancellationToken) :
    List (Check Error) :=
  [.when (request.cancellation.mode = .disabled)
      ⟨.invalidControl, text "controlled execution requires an enabled cancellation policy"⟩,
    .when (cancellation.requestIdentity ≠ request.identity)
      ⟨.controlMismatch,
        text "cancellation control does not match the sealed execution request"⟩,
    .when (cancellation.cancellationRequested = false)
      ⟨.invalidControl,
        text "cancellation evidence requires a requested cancellation signal"⟩]

/-- The policy first, then the request of the token, and last whether it was told to cancel. -/
theorem requireRequestedControl_checked {token : CancellationToken} :
    Checked (requireRequestedControl q token) (controlChecks q token) := by
  have hbound : token.appliesTo q = false ↔ token.requestIdentity ≠ q.identity := by
    rw [← Bool.not_eq_true, CancellationToken.appliesTo_iff, ne_comm]
  have hcontrol : Checked (requireCancellationControl q token) _ :=
    (refuseIf_checked Iff.rfl).bind (fun _ _ => refuseIf_checked hbound)
  exact hcontrol.bind (fun _ _ => refuseIf_checked Iff.rfl)

end Parts

/-! ## 3. Before the start, and success

The lists are in the order of the source, so the first check that fails is the one whose error is
thrown.  `require_subset` of `succeeded` is not in the list: by then everything claimed is required
and everything required is in the profile. -/

namespace ExecutionResult

/-- The checks of `failed_before_start`. -/
def failedBeforeStartChecks (request : ExecutionRequest) (backend : BackendCapabilityProfile)
    (failure : Raw ExecutionFailureKind) (values : List (Raw ExecutionGuarantee)) :
    List (Check Error) :=
  failure.checks .invalidFailure (text "unsupported pre-start execution failure kind") ++
    [Check.when (failure = .of .cancelled)
        ⟨.invalidControl, text "pre-start cancellation requires call-scoped control evidence"⟩,
      Check.when (∃ f, failure = .of f ∧ preStartFailure f = false)
        ⟨.invalidFailure, text "selected failure kind requires a started process"⟩] ++
    claimChecks request values ++ subsetChecks backend values ++
    [Check.when (∃ g, Claimed values g ∧ beforeStartGuarantee g = false)
        ⟨.inconsistentResult,
          text "not-started execution cannot establish capture or cleanup guarantees"⟩,
      Check.when (failure ≠ .of .backendUnsupported ∧ Unsupported request backend)
        ⟨.unsupportedRequest, text "backend profile does not support the rejected request"⟩]

/-- The checks of `cancelled_before_start`. -/
def cancelledBeforeStartChecks (request : ExecutionRequest) (backend : BackendCapabilityProfile)
    (cancellation : CancellationToken) (values : List (Raw ExecutionGuarantee)) :
    List (Check Error) :=
  controlChecks request cancellation ++ claimChecks request values ++
    subsetChecks backend values ++
    [Check.when (Unsupported request backend)
        ⟨.unsupportedRequest, text "backend profile does not support the cancelled request"⟩,
      Check.when (¬ Claimed values .cancellation)
        ⟨.inconsistentResult, text "cancelled execution must establish cancellation control"⟩,
      Check.when (∃ g, Claimed values g ∧ beforeStartGuarantee g = false)
        ⟨.inconsistentResult,
          text "not-started cancellation cannot establish capture or cleanup guarantees"⟩]

/-- The captured streams are not the requested ones. -/
def CaptureMismatch (request : ExecutionRequest) (standardOutput : Option StreamCapture)
    (standardError : Option StreamCapture) : Prop :=
  ¬ ((request.environment.standardOutput = .captureComplete ↔ standardOutput.isSome = true) ∧
    (request.environment.standardError = .captureComplete ↔ standardError.isSome = true))

/-- The check of `require_capture_shape`, no capture being allowed to miss. -/
def captureChecks (request : ExecutionRequest) (standardOutput : Option StreamCapture)
    (standardError : Option StreamCapture) : List (Check Error) :=
  [Check.when (CaptureMismatch request standardOutput standardError)
    ⟨.inconsistentResult, text "captured streams do not match the request I/O policy"⟩]

/-- The checks of `succeeded`.  There is none for the profile: what is required is in it, and
nothing else is claimed. -/
def succeededChecks (request : ExecutionRequest) (backend : BackendCapabilityProfile)
    (observedInterpreter : InterpreterIdentity) (standardOutput : Option StreamCapture)
    (standardError : Option StreamCapture) (values : List (Raw ExecutionGuarantee)) :
    List (Check Error) :=
  claimChecks request values ++
    [Check.when (Unsupported request backend ∨ ∃ g ∈ request.requiredGuarantees, ¬ Claimed values g)
        ⟨.unsupportedRequest,
          text "successful execution evidence lacks a required guarantee"⟩,
      Check.when (observedInterpreter ≠ request.interpreter)
        ⟨.inconsistentResult,
          text "observed interpreter does not match the sealed request"⟩] ++
    captureChecks request standardOutput standardError

section Factories

variable {q : ExecutionRequest} {p : BackendCapabilityProfile} {i : InterpreterIdentity}
  {o e : Option StreamCapture} {values : List (Raw ExecutionGuarantee)} {d : Str}

/-- A kind that is none of the vocabulary is refused first, then a cancellation, then a kind that
needs a process. -/
theorem failedBeforeStart_checked {failure : Raw ExecutionFailureKind} :
    Checked (failedBeforeStart q p failure values d)
      (failedBeforeStartChecks q p failure values) := by
  simp only [failedBeforeStartChecks, List.append_assoc, List.cons_append, List.nil_append]
  refine Raw.require_checked.bind (fun f hf => ?_)
  obtain rfl := Raw.require_eq_ok.mp hf
  refine refuseIf_bind Raw.of_injective.eq_iff.symm (fun _ => ?_)
  refine refuseIf_bind ?_ (fun _ => ?_)
  · constructor
    · intro h
      exact ⟨f, rfl, h⟩
    · rintro ⟨f', hf', h⟩
      rwa [Raw.of_injective hf']
  refine claims_checked (fun gs hstrict hclaims _ => ?_)
  refine (requireSubset_checked hstrict hclaims).bind (fun _ _ => ?_)
  refine refuseIf_bind (any_not_beforeStart_iff hclaims) (fun _ => ?_)
  refine refuseIf_bind ?_ (fun _ => .ok)
  rw [ne_eq, ne_eq, Raw.of_injective.eq_iff, supports_eq_false]

/-- The control comes before anything else is looked at. -/
theorem cancelledBeforeStart_checked {token : CancellationToken} :
    Checked (cancelledBeforeStart q p token values d)
      (cancelledBeforeStartChecks q p token values) := by
  simp only [cancelledBeforeStartChecks, List.append_assoc]
  refine requireRequestedControl_checked.bind (fun _ _ => ?_)
  refine claims_checked (fun gs hstrict hclaims _ => ?_)
  refine (requireSubset_checked hstrict hclaims).bind (fun _ _ => ?_)
  refine refuseIf_bind supports_eq_false (fun _ => ?_)
  refine refuseIf_bind ?_ (fun _ => ?_)
  · rw [← Bool.not_eq_true, hasGuarantee_iff hstrict, hclaims]
  · exact refuseIf_bind (any_not_beforeStart_iff hclaims) (fun _ => .ok)

/-- A mismatch is a stream too many or a stream lost. -/
theorem captureMismatch_iff :
    CaptureMismatch q o e ↔ ¬ (OnlyRequested q o e ∧ ¬ StreamLost q o e) := by
  rw [CaptureMismatch, onlyRequested_iff, not_streamLost]
  tauto

/-- The strict mode refuses a mismatch. -/
theorem requireCaptureShape_checked :
    Checked (requireCaptureShape q o e false) (captureChecks q o e) := by
  simp only [captureChecks, captureMismatch_iff]
  exact checked_of_eq_ok requireCaptureShape_strict

/-- Success has no check of its termination: the factory makes it. -/
theorem succeeded_checked :
    Checked (succeeded q p i o e values d) (succeededChecks q p i o e values) := by
  simp only [succeededChecks, List.append_assoc, List.cons_append, List.nil_append]
  refine claims_checked (fun gs hstrict hclaims hrequested => ?_)
  refine refuseIf_bind ?_ (fun hsupported => ?_)
  · rw [supports_eq_false, ← Bool.not_eq_true, includes_iff hstrict q.required_strict]
    simp [hclaims]
  have hsubset : requireSubset gs p = .ok () := by
    refine (requireSubset_eq_ok hstrict).mpr (fun g hg => ?_)
    by_contra hno
    exact hsupported (.inl ⟨g, hrequested g hg, hno⟩)
  refine checked_of_ok hsubset ?_
  refine refuseIf_bind Iff.rfl (fun _ => ?_)
  refine requireCaptureShape_checked.bind_nil (fun _ _ => ?_)
  exact checked_of_ok ProcessTermination.exited_zero .ok

end Factories

/-! ## 4. After the start

`failed_after_start` and `cancelled_after_start` share a body.  It checks the kind and the cleanup,
the claims, the agreement of claims and evidence, then what the kind has to show, and last that
only a lost log misses a stream and only a failed cleanup is not verified. -/

/-- The checks of the switch over the failure kind.  The guarantees of an exceeded limit need
none, as the limit was requested and all is established that the start required; and of a lost
log it is known by then that only requested streams were captured. -/
def kindChecks (request : ExecutionRequest) (termination : ProcessTermination)
    (standardOutput : Option StreamCapture) (standardError : Option StreamCapture)
    (cleanup : Raw CleanupOutcome) (cancellationAdmitted : Bool) :
    ExecutionFailureKind → List (Check Error)
  | .programExitedNonzero =>
    [.when (termination.kind ≠ .exited ∨ termination.value = some 0)
      ⟨.invalidFailure, text "nonzero-exit failure requires a nonzero exit status"⟩]
  | .programTerminatedBySignal =>
    [.when (termination.kind ≠ .signaled)
      ⟨.invalidFailure, text "signal failure requires signal termination evidence"⟩]
  | .resourceLimitExceeded =>
    [.when (termination.limit = none)
        ⟨.invalidFailure, text "resource-limit failure requires limit termination evidence"⟩,
      .when (∃ limit, termination.limit = some limit ∧ limitRequested request.limits limit = false)
        ⟨.invalidFailure, text "resource-limit termination was not requested"⟩]
  | .cancelled =>
    [.when (cancellationAdmitted = false)
        ⟨.invalidControl, text "started cancellation requires call-scoped control evidence"⟩,
      .when (termination.kind ≠ .cancelled)
        ⟨.invalidFailure, text "cancellation failure requires cancellation evidence"⟩]
  | .logCaptureFailed =>
    [.when (standardOutput.isSome = true ∧ standardError.isSome = true)
      ⟨.invalidFailure, text "log-capture failure requires missing requested stream evidence"⟩]
  | .cleanupFailed =>
    [.when (cleanup ≠ .of .failed)
      ⟨.invalidFailure, text "cleanup failure requires failed cleanup evidence"⟩]
  | _ => []

/-- The checks of `failed_after_start_impl`. -/
def failedAfterStartChecks (request : ExecutionRequest) (backend : BackendCapabilityProfile)
    (observedInterpreter : InterpreterIdentity) (termination : ProcessTermination)
    (standardOutput : Option StreamCapture) (standardError : Option StreamCapture)
    (values : List (Raw ExecutionGuarantee)) (cleanup : Raw CleanupOutcome)
    (failure : Raw ExecutionFailureKind) (cancellationAdmitted : Bool) : List (Check Error) :=
  failure.checks .invalidFailure (text "unsupported started execution failure kind") ++
    cleanup.checks .inconsistentResult (text "unsupported cleanup outcome") ++
    [Check.when (∃ f, failure = .of f ∧ preStartFailure f = true)
        ⟨.invalidFailure, text "selected failure kind requires a not-started result"⟩,
      Check.when (cleanup = .of .notRequired)
        ⟨.inconsistentResult, text "started execution must report cleanup verification"⟩,
      Check.when (observedInterpreter ≠ request.interpreter)
        ⟨.inconsistentResult,
          text "observed interpreter does not match the sealed request"⟩] ++
    claimChecks request values ++ subsetChecks backend values ++
    [Check.when (Unsupported request backend)
        ⟨.unsupportedRequest, text "a backend must not start an unsupported request"⟩,
      Check.when (∃ g ∈ request.requiredGuarantees,
          beforeStartGuarantee g = true ∧ ¬ Claimed values g)
        ⟨.inconsistentResult,
          text "started execution lacks a required pre-start guarantee"⟩,
      Check.when (¬ ((Claimed values .completeStdoutCapture ↔ standardOutput.isSome = true) ∧
          (Claimed values .completeStderrCapture ↔ standardError.isSome = true)))
        ⟨.inconsistentResult,
          text "stream evidence and established capture guarantees disagree"⟩,
      Check.when (¬ (cleanup = .of .verified ↔ Claimed values .cleanupVerified))
        ⟨.inconsistentResult,
          text "cleanup outcome and established cleanup guarantee disagree"⟩] ++
    failure.get?.elim []
      (kindChecks request termination standardOutput standardError cleanup
        cancellationAdmitted) ++
    [Check.when (failure ≠ .of .logCaptureFailed ∧
          CaptureMismatch request standardOutput standardError)
        ⟨.inconsistentResult, text "captured streams do not match the request I/O policy"⟩,
      Check.when (failure ≠ .of .cleanupFailed ∧ cleanup ≠ .of .verified)
        ⟨.inconsistentResult,
          text "non-cleanup failures still require verified cleanup"⟩]

section Started

variable {q : ExecutionRequest} {p : BackendCapabilityProfile} {i : InterpreterIdentity}
  {t : ProcessTermination} {o e : Option StreamCapture} {c : CleanupOutcome}
  {values : List (Raw ExecutionGuarantee)} {gs : List ExecutionGuarantee} {admitted : Bool}
  {d : Str}

/-- One arm of the switch for each kind, once the common checks have passed. -/
theorem requireFailureEvidence_checked {f : ExecutionFailureKind} (hstrict : gs.Pairwise (· < ·))
    (hbefore : ∀ g ∈ q.requiredGuarantees, beforeStartGuarantee g = true → g ∈ gs)
    (honly : OnlyRequested q o e) :
    Checked (requireFailureEvidence q t o e gs c admitted f)
      (kindChecks q t o e (.of c) admitted f) := by
  cases f with
  | programExitedNonzero =>
    refine refuseIf_checked ?_
    constructor
    · rintro (h | h | h)
      · exact .inl h
      · exact .inl (fun hkind => ProcessTermination.value_of_exited hkind h)
      · exact .inr h
    · rintro (h | h)
      · exact .inl h
      · exact .inr (.inr h)
  | programTerminatedBySignal => exact refuseIf_checked Iff.rfl
  | resourceLimitExceeded =>
    rw [requireFailureEvidence]
    split
    · rename_i limit hkind hlimit
      refine .pass_when (by simp [hlimit]) ?_
      refine refuseIf_bind (by simp [hlimit]) (fun hno => ?_)
      have hrequested : limitRequested q.limits limit = true := by
        by_contra h
        exact hno ⟨limit, hlimit, Bool.not_eq_true _ ▸ h⟩
      have hexact : guaranteeFor limit ∈ gs :=
        hbefore _ (ExecutionRequest.guaranteeFor_mem.mpr hrequested) (by cases limit <;> rfl)
      have haggregate : .resourceLimits ∈ gs :=
        hbefore _ (q.limitShape.mpr ⟨limit, ExecutionRequest.guaranteeFor_mem.mpr hrequested⟩) rfl
      rw [refuseIf, if_neg]
      · exact .ok
      · rw [← Bool.not_eq_true, ← Bool.not_eq_true, hasGuarantee_iff hstrict,
          hasGuarantee_iff hstrict]
        rintro (h | h)
        · exact h haggregate
        · exact h hexact
    · rename_i hother
      refine .fail_when ?_
      cases hlimit : t.limit with
      | none => rfl
      | some limit => exact absurd hlimit (hother limit (ProcessTermination.kind_of_limit hlimit))
  | cancelled =>
    exact refuseIf_bind Iff.rfl (fun _ => refuseIf_checked Iff.rfl)
  | logCaptureFailed =>
    have hlenient : requireCaptureShape q o e true = .ok () :=
      requireCaptureShape_lenient.mpr honly
    refine checked_of_ok hlenient ?_
    refine refuseIf_checked ?_
    constructor
    · rintro ⟨-, ho, -, he⟩
      exact ⟨ho, he⟩
    · rintro ⟨ho, he⟩
      exact ⟨honly.stdout ho, ho, honly.stderr he, he⟩
  | cleanupFailed => exact refuseIf_checked (by rw [ne_eq, ne_eq, Raw.of_injective.eq_iff])
  | _ => exact .ok

/-- The captures are compared with the policy unless the failure is a lost log. -/
theorem captureUnlessLost_checked {f : ExecutionFailureKind} :
    Checked (if f ≠ .logCaptureFailed then requireCaptureShape q o e false else .ok ())
      [.when (Raw.of f ≠ .of .logCaptureFailed ∧ CaptureMismatch q o e)
        ⟨.inconsistentResult, text "captured streams do not match the request I/O policy"⟩] := by
  split
  · rename_i hf
    have hother : Raw.of f ≠ .of .logCaptureFailed := Raw.of_injective.ne hf
    simp only [ne_eq, hother, not_false_eq_true, true_and]
    exact requireCaptureShape_checked
  · rename_i hf
    rw [not_not] at hf
    exact .pass_when (fun h => h.1 (congrArg Raw.of hf)) .ok

/-- **The shared body** fails as its list says.  What the earlier checks have settled is handed to
the switch: the claims contain what is required before the start, and no stream was captured
without a request. -/
theorem failedAfterStartImpl_checked {cleanup : Raw CleanupOutcome}
    {failure : Raw ExecutionFailureKind} :
    Checked (failedAfterStartImpl q p i t o e values cleanup failure admitted d)
      (failedAfterStartChecks q p i t o e values cleanup failure admitted) := by
  simp only [failedAfterStartChecks, List.append_assoc, List.cons_append, List.nil_append]
  refine Raw.require_checked.bind (fun f hf => ?_)
  refine Raw.require_checked.bind (fun c hc => ?_)
  obtain rfl := Raw.require_eq_ok.mp hf
  obtain rfl := Raw.require_eq_ok.mp hc
  refine refuseIf_bind ?_ (fun _ => ?_)
  · constructor
    · intro h
      exact ⟨f, rfl, h⟩
    · rintro ⟨f', hf', h⟩
      rwa [Raw.of_injective hf']
  refine refuseIf_bind Raw.of_injective.eq_iff.symm (fun _ => ?_)
  refine refuseIf_bind Iff.rfl (fun _ => ?_)
  refine claims_checked (fun gs hstrict hclaims hrequested => ?_)
  refine (requireSubset_checked hstrict hclaims).bind (fun _ _ => ?_)
  refine refuseIf_bind supports_eq_false (fun _ => ?_)
  refine refuseIf_bind ?_ (fun hstarted => ?_)
  · rw [← Bool.not_eq_true, includes_iff hstrict beforeStartRequirements_strict]
    simp [hclaims, beforeStartRequirements]
  refine refuseIf_bind ?_ (fun hstreams => ?_)
  · rw [ne_eq, ne_eq, hasGuarantee_eq hstrict, hasGuarantee_eq hstrict, hclaims, hclaims,
      not_and_or]
  refine refuseIf_bind ?_ (fun _ => ?_)
  · rw [ne_eq, eq_comm, hasGuarantee_eq hstrict, decide_eq_true_iff, Raw.of_injective.eq_iff,
      hclaims]
    exact not_congr iff_comm
  have hbefore : ∀ g ∈ q.requiredGuarantees, beforeStartGuarantee g = true → g ∈ gs := by
    intro g hg hb
    by_contra hno
    exact hstarted ⟨g, hg, hb, fun h => hno ((hclaims g).mp h)⟩
  have honly : OnlyRequested q o e := by
    rw [not_not, hclaims, hclaims] at hstreams
    exact ⟨fun ho => ExecutionRequest.stdoutCapture_mem.mp (hrequested _ (hstreams.1.mpr ho)),
      fun he => ExecutionRequest.stderrCapture_mem.mp (hrequested _ (hstreams.2.mpr he))⟩
  rw [Raw.get?_of]
  refine (requireFailureEvidence_checked hstrict hbefore honly).bind (fun _ _ => ?_)
  refine captureUnlessLost_checked.bind (fun _ _ => ?_)
  refine refuseIf_bind ?_ (fun _ => .ok)
  rw [ne_eq, ne_eq, ne_eq, ne_eq, Raw.of_injective.eq_iff, Raw.of_injective.eq_iff]

end Started

end ExecutionResult

/-! ## 5. Reports

A call of any factory says the same kind of thing, a `Report`, and so does a result.
`reports_exact` compares them: a factory adds nothing to what it is told and loses nothing of it,
and what it refuses is refused by the first check that fails. -/

namespace FactoryCall

open ExecutionResult

/-- **The checks on a call of a factory**, in the order in which they are made. -/
def checks : FactoryCall → List (Check Error)
  | failedBeforeStart q p f values _ => failedBeforeStartChecks q p f values
  | cancelledBeforeStart q p token values _ => cancelledBeforeStartChecks q p token values
  | succeeded q p i o e values _ => succeededChecks q p i o e values
  | failedAfterStart q p i t o e values c f _ =>
    failedAfterStartChecks q p i t o e values c f false
  | cancelledAfterStart q p token i o e values c _ =>
    controlChecks q token ++
      failedAfterStartChecks q p i .cancelled o e values c (.of .cancelled) true

/-- Each factory fails as its list says. -/
theorem run_checked (call : FactoryCall) : Checked call.run call.checks := by
  cases call with
  | failedBeforeStart => exact failedBeforeStart_checked
  | cancelledBeforeStart => exact cancelledBeforeStart_checked
  | succeeded => exact succeeded_checked
  | failedAfterStart => exact failedAfterStartImpl_checked
  | cancelledAfterStart =>
    exact requireRequestedControl_checked.bind (fun _ _ => failedAfterStartImpl_checked)

end FactoryCall

/-- What a caller says of an execution, the guarantees as a set. -/
@[ext] structure Report where
  status : ExecutionStatus
  startState : ExecutionStartState
  request : ExecutionRequest
  backend : BackendCapabilityProfile
  observedInterpreter : Option InterpreterIdentity
  termination : Option ProcessTermination
  standardOutput : Option StreamCapture
  standardError : Option StreamCapture
  claimed : Set (Raw ExecutionGuarantee)
  cleanup : Raw CleanupOutcome
  failure : Option (Raw ExecutionFailureKind)
  diagnostic : Str

/-- What the call of a factory says. -/
def FactoryCall.report : FactoryCall → Report
  | failedBeforeStart q p failure values d =>
    ⟨.failed, .notStarted, q, p, none, none, none, none, {v | v ∈ values}, .of .notRequired,
      some failure, d⟩
  | cancelledBeforeStart q p _ values d =>
    ⟨.failed, .notStarted, q, p, none, none, none, none, {v | v ∈ values}, .of .notRequired,
      some (.of .cancelled), d⟩
  | succeeded q p i o e values d =>
    ⟨.succeeded, .started, q, p, some i, some .exitedZero, o, e, {v | v ∈ values}, .of .verified,
      none, d⟩
  | failedAfterStart q p i t o e values cleanup failure d =>
    ⟨.failed, .started, q, p, some i, some t, o, e, {v | v ∈ values}, cleanup, some failure, d⟩
  | cancelledAfterStart q p _ i o e values cleanup d =>
    ⟨.failed, .started, q, p, some i, some .cancelled, o, e, {v | v ∈ values}, cleanup,
      some (.of .cancelled), d⟩

namespace ExecutionResult

/-- What a result says. -/
def report (r : ExecutionResult) : Report :=
  ⟨r.status, r.startState, r.request, r.backend, r.observedInterpreter, r.termination,
    r.standardOutput, r.standardError, {v | v ∈ r.establishedGuarantees.map Raw.of},
    .of r.cleanup, r.failure.map Raw.of, r.diagnostic⟩

/-- Its guarantees in order, and the identity of what it says. -/
structure Canonical (r : ExecutionResult) : Prop where
  established_strict : r.establishedGuarantees.Pairwise (· < ·)
  identified : r.identity = (resultPreimage r.status r.startState r.request r.backend
    r.observedInterpreter r.termination r.standardOutput r.standardError r.establishedGuarantees
    r.cleanup r.failure).finish

variable {r r' : ExecutionResult}

/-- What a factory returns is canonical. -/
theorem Canonical.of_built (h : Built r) : Canonical r :=
  ⟨h.evidence.established_strict, h.evidence.identified⟩

/-- A canonical result is what it says. -/
theorem Canonical.eq_of_report (h : Canonical r) (h' : Canonical r')
    (hreport : r.report = r'.report) : r = r' := by
  have hmem : ∀ g, g ∈ r.establishedGuarantees ↔ g ∈ r'.establishedGuarantees := by
    intro g
    have hclaimed : Raw.of g ∈ r.report.claimed ↔ Raw.of g ∈ r'.report.claimed := by rw [hreport]
    simpa only [report, Set.mem_ofPred_eq, List.mem_map_of_injective Raw.of_injective]
      using hclaimed
  have hgs := eq_of_mem_iff h.established_strict h'.established_strict hmem
  have hid := h.identified
  have hid' := h'.identified
  obtain ⟨status, start, q, p, i, t, o, e, gs, c, f, d, identity⟩ := r
  obtain ⟨status', start', q', p', i', t', o', e', gs', c', f', d', identity'⟩ := r'
  simp only [report, Report.mk.injEq] at hreport
  obtain ⟨rfl, rfl, rfl, rfl, rfl, rfl, rfl, rfl, -, hc, hf, rfl⟩ := hreport
  obtain rfl := Raw.of_injective hc
  obtain rfl := Option.map_injective Raw.of_injective hf
  obtain rfl : gs = gs' := hgs
  obtain rfl : identity = identity' := hid.trans hid'.symm
  rfl

end ExecutionResult

namespace FactoryCall

variable {call : FactoryCall} {r : ExecutionResult}

/-- A factory adds nothing to what it is told. -/
theorem report_of_run (h : call.run = .ok r) : r.report = call.report := by
  cases call with
  | failedBeforeStart q p failure values d =>
    obtain ⟨f, gs, rfl, -, hev, -, rfl⟩ := failedBeforeStart_eq_ok.mp h
    exact Report.ext rfl rfl rfl rfl rfl rfl rfl rfl (Set.ext fun v => (hev.established v).symm)
      rfl rfl rfl
  | cancelledBeforeStart q p token values d =>
    obtain ⟨gs, -, hev, -, -, rfl⟩ := cancelledBeforeStart_eq_ok.mp h
    exact Report.ext rfl rfl rfl rfl rfl rfl rfl rfl (Set.ext fun v => (hev.established v).symm)
      rfl rfl rfl
  | succeeded q p i o e values d =>
    obtain ⟨hev, hlost, rfl⟩ := succeeded_eq_ok.mp h
    have hestablished := hev.established
    rw [remaining_of_complete hlost] at hestablished
    exact Report.ext rfl rfl rfl rfl rfl rfl rfl rfl (Set.ext fun v => (hestablished v).symm)
      rfl rfl rfl
  | failedAfterStart q p i t o e values cleanup failure d =>
    obtain ⟨f, c, rfl, rfl, hev, rfl⟩ := failedAfterStart_eq_ok.mp h
    exact Report.ext rfl rfl rfl rfl rfl rfl rfl rfl (Set.ext fun v => (hev.established v).symm)
      rfl rfl rfl
  | cancelledAfterStart q p token i o e values cleanup d =>
    obtain ⟨c, rfl, -, hev, rfl⟩ := cancelledAfterStart_eq_ok.mp h
    exact Report.ext rfl rfl rfl rfl rfl rfl rfl rfl (Set.ext fun v => (hev.established v).symm)
      rfl rfl rfl

/-- **A factory returns what it is told, or the error of the first check that fails.**  For each
call of each of the five: it is refused exactly with the error of its first failing check, and
otherwise returns the one canonical result that says what the call says. -/
theorem reports_exact (call : FactoryCall) :
    (∀ e, call.run = .error e ↔ First call.checks e) ∧
      ∀ r, call.run = .ok r ↔
        (∀ c ∈ call.checks, c.Passes) ∧ r.Canonical ∧ r.report = call.report := by
  refine ⟨call.run_checked, fun r => ⟨fun h => ?_, ?_⟩⟩
  · exact ⟨call.run_checked.ok_iff.mp ⟨r, h⟩, .of_built ⟨call, h⟩, report_of_run h⟩
  · rintro ⟨hpass, hcanonical, hreport⟩
    obtain ⟨r', hr'⟩ := call.run_checked.ok_iff.mpr hpass
    have hsame : r = r' :=
      hcanonical.eq_of_report (.of_built ⟨call, hr'⟩) (hreport.trans (report_of_run hr').symm)
    rw [hr', hsame]

end FactoryCall

end Reports

end Pkgexec
