/-
# What the factories accept

One acceptance lemma for each factory of `execution_result`: it returns a result exactly when
its arguments are evidence of the stated kind, and the result is then the sealed evidence.

For a started process the guarantees a caller may claim are fixed by the rest of the evidence.
They are the required ones, without the capture guarantee of a stream that has no capture and
without the cleanup guarantee when cleanup was not verified (`remainingGuarantees`).
-/
import Pkgexec.Result

namespace Pkgexec

open Bytes Ranges

/-! ## 1. Kept guarantees

A started process may report less than the request required.  A stream without a capture gives up
its capture guarantee, and cleanup that was not verified gives up the cleanup guarantee; nothing
else can be given up, and in particular nothing that is established before the start. -/

/-- The guarantees a started process keeps, given which streams were captured and whether
cleanup was verified. -/
def kept (stdout stderr cleaned : Bool) : ExecutionGuarantee → Bool
  | .completeStdoutCapture => stdout
  | .completeStderrCapture => stderr
  | .cleanupVerified => cleaned
  | _ => true

/-- What is established before the start is never given up. -/
theorem kept_of_beforeStart {stdout stderr cleaned : Bool} {g : ExecutionGuarantee}
    (h : beforeStartGuarantee g = true) : kept stdout stderr cleaned g = true := by
  cases g <;> simp_all [beforeStartGuarantee, kept]

/-- A cancellation is none of the failures that `failed_before_start` takes. -/
theorem preStartFailure_ne_cancelled {f : ExecutionFailureKind} (h : preStartFailure f = true) :
    f ≠ .cancelled := by
  rintro rfl
  exact absurd h (by simp [preStartFailure])

/-- The test of the source, as a statement about every guarantee. -/
theorem any_not_beforeStart {gs : List ExecutionGuarantee} :
    ¬ (gs.any (fun value => !beforeStartGuarantee value) = true) ↔
      ∀ g ∈ gs, beforeStartGuarantee g = true := by
  simp

section Evidence

variable [External]

/-! ## 2. Streams

`require_capture_shape` compares the two captures with the policy of the request.  It has two
modes, which differ in one point: the lenient one lets a requested stream be missing, which is what
a lost log is. -/

/-- A stream that was requested and not captured. -/
def StreamLost (request : ExecutionRequest) (standardOutput : Option StreamCapture)
    (standardError : Option StreamCapture) : Prop :=
  (request.environment.standardOutput = .captureComplete ∧ standardOutput = none) ∨
    (request.environment.standardError = .captureComplete ∧ standardError = none)

/-- Only requested streams were captured. -/
structure OnlyRequested (request : ExecutionRequest) (standardOutput : Option StreamCapture)
    (standardError : Option StreamCapture) : Prop where
  stdout : standardOutput.isSome = true → request.environment.standardOutput = .captureComplete
  stderr : standardError.isSome = true → request.environment.standardError = .captureComplete

section Streams

variable {q : ExecutionRequest} {o e : Option StreamCapture} {u : Unit}

/-- No stream is lost when each requested one was captured. -/
theorem not_streamLost : ¬ StreamLost q o e ↔
    (q.environment.standardOutput = .captureComplete → o.isSome = true) ∧
      (q.environment.standardError = .captureComplete → e.isSome = true) := by
  cases o <;> cases e <;> simp [StreamLost]

theorem onlyRequested_iff : OnlyRequested q o e ↔
    (o.isSome = true → q.environment.standardOutput = .captureComplete) ∧
      (e.isSome = true → q.environment.standardError = .captureComplete) := by
  constructor
  · rintro ⟨hstdout, hstderr⟩
    exact ⟨hstdout, hstderr⟩
  · rintro ⟨hstdout, hstderr⟩
    exact ⟨hstdout, hstderr⟩

/-- The lenient mode asks that no stream was captured without a request, -/
theorem requireCaptureShape_lenient :
    requireCaptureShape q o e true = .ok u ↔ OnlyRequested q o e := by
  rw [requireCaptureShape, refuseIf_eq_ok, onlyRequested_iff]
  cases q.environment.standardOutput <;> cases q.environment.standardError <;> cases o <;>
    cases e <;> simp

/-- and the strict mode that none is missing either. -/
theorem requireCaptureShape_strict :
    requireCaptureShape q o e false = .ok u ↔ OnlyRequested q o e ∧ ¬ StreamLost q o e := by
  rw [requireCaptureShape, refuseIf_eq_ok, onlyRequested_iff, StreamLost]
  cases q.environment.standardOutput <;> cases q.environment.standardError <;> cases o <;>
    cases e <;> simp

end Streams

/-! ## 3. The guarantees that remain

The checks of `failed_after_start` close in on the established guarantees from both sides.  All of
them have to be required; what is required before the start has to be among them; and the two
capture guarantees and the cleanup guarantee have to agree with the evidence.  One list passes all
of this (`established_eq_remaining`), and the lemmas before it say what is in that list. -/

/-- The required guarantees less those the evidence gives up. -/
def remainingGuarantees (request : ExecutionRequest) (standardOutput : Option StreamCapture)
    (standardError : Option StreamCapture) (cleanup : CleanupOutcome) : List ExecutionGuarantee :=
  request.requiredGuarantees.filter
    (kept standardOutput.isSome standardError.isSome (cleanup = .verified))

section Remaining

variable {q : ExecutionRequest} {o e : Option StreamCapture} {c : CleanupOutcome}

theorem mem_remaining {g : ExecutionGuarantee} :
    g ∈ remainingGuarantees q o e c ↔
      g ∈ q.requiredGuarantees ∧ kept o.isSome e.isSome (c = .verified) g = true :=
  List.mem_filter

/-- It is in order, as a part of a list that is. -/
theorem remaining_strict : (remainingGuarantees q o e c).Pairwise (· < ·) :=
  q.required_strict.filter _

/-- Every limit keeps its guarantee, -/
theorem guaranteeFor_remaining {kind : ResourceLimitKind} :
    guaranteeFor kind ∈ remainingGuarantees q o e c ↔ limitRequested q.limits kind = true := by
  rw [mem_remaining, ExecutionRequest.guaranteeFor_mem]
  cases kind <;> simp [guaranteeFor, kept]

/-- so the list has the shape of `require_limit_guarantee_shape`. -/
theorem remaining_limitShape : LimitShape (remainingGuarantees q o e c) := by
  have h := q.limitShape
  have hall : .resourceLimits ∈ remainingGuarantees q o e c ↔
      .resourceLimits ∈ q.requiredGuarantees := by
    simp [mem_remaining, kept]
  simp only [LimitShape, ExecutionRequest.guaranteeFor_mem] at h
  simp only [LimitShape, guaranteeFor_remaining, hall, h]

/-- A capture guarantee remains when the stream was captured, -/
theorem stdoutCapture_remaining (h : OnlyRequested q o e) :
    .completeStdoutCapture ∈ remainingGuarantees q o e c ↔ o.isSome = true := by
  rw [mem_remaining, ExecutionRequest.stdoutCapture_mem]
  exact ⟨And.right, fun ho => ⟨h.stdout ho, ho⟩⟩

theorem stderrCapture_remaining (h : OnlyRequested q o e) :
    .completeStderrCapture ∈ remainingGuarantees q o e c ↔ e.isSome = true := by
  rw [mem_remaining, ExecutionRequest.stderrCapture_mem]
  exact ⟨And.right, fun he => ⟨h.stderr he, he⟩⟩

/-- and the cleanup guarantee when cleanup was verified. -/
theorem cleanupVerified_remaining :
    .cleanupVerified ∈ remainingGuarantees q o e c ↔ c = .verified := by
  simp [mem_remaining, q.cleanupVerified_mem, kept]

/-- Complete evidence keeps every required guarantee. -/
theorem remaining_of_complete (hlost : ¬ StreamLost q o e) :
    remainingGuarantees q o e .verified = q.requiredGuarantees := by
  refine List.filter_eq_self.mpr (fun g hg => ?_)
  rw [not_streamLost] at hlost
  cases g with
  | completeStdoutCapture => exact hlost.1 (ExecutionRequest.stdoutCapture_mem.mp hg)
  | completeStderrCapture => exact hlost.2 (ExecutionRequest.stderrCapture_mem.mp hg)
  | _ => rfl

/-- **The established guarantees are the remaining ones**: the subset tests of the source and
its agreement tests leave no choice. -/
theorem established_eq_remaining {gs : List ExecutionGuarantee} (hstrict : gs.Pairwise (· < ·))
    (hreq : ∀ g ∈ gs, g ∈ q.requiredGuarantees)
    (hbefore : ∀ g ∈ beforeStartRequirements q, g ∈ gs)
    (hout : .completeStdoutCapture ∈ gs ↔ o.isSome = true)
    (herr : .completeStderrCapture ∈ gs ↔ e.isSome = true)
    (hclean : .cleanupVerified ∈ gs ↔ c = .verified) : gs = remainingGuarantees q o e c := by
  refine eq_of_mem_iff hstrict remaining_strict (fun g => ?_)
  rw [mem_remaining]
  by_cases hg : beforeStartGuarantee g = true
  · refine ⟨fun h => ⟨hreq g h, kept_of_beforeStart hg⟩, fun h => hbefore g ?_⟩
    exact List.mem_filter.mpr ⟨h.1, hg⟩
  · have hsome : kept o.isSome e.isSome (c = .verified) g = true ↔ g ∈ gs := by
      cases g <;> simp_all [beforeStartGuarantee, kept]
    exact ⟨fun h => ⟨hreq g h, hsome.mpr h⟩, fun h => hsome.mp h.2⟩

end Remaining

/-! ## 4. Started processes

Three factories make results of a started process.  They share one list of requirements
(`StartedEvidence`).  A failure adds what its kind has to show, which is the switch of
`failed_after_start` read as a relation (`FailureShown`), and the rules for what may be missing: a
stream only when the failure is a lost log, and verified cleanup only when the failure is the
cleanup. -/

/-- **What every started result has to show.** -/
structure StartedEvidence (request : ExecutionRequest) (backend : BackendCapabilityProfile)
    (observedInterpreter : InterpreterIdentity) (standardOutput : Option StreamCapture)
    (standardError : Option StreamCapture) (established : List (Raw ExecutionGuarantee))
    (cleanup : CleanupOutcome) : Prop where
  supported : backend.supports request = true
  interpreter : observedInterpreter = request.interpreter
  requested : OnlyRequested request standardOutput standardError
  established : ∀ v, v ∈ established ↔
    v ∈ (remainingGuarantees request standardOutput standardError cleanup).map Raw.of

/-- **What the evidence of one failure kind has to show**, besides. -/
def FailureShown (request : ExecutionRequest) (termination : ProcessTermination)
    (standardOutput : Option StreamCapture) (standardError : Option StreamCapture)
    (cleanup : CleanupOutcome) (cancellationAdmitted : Bool) : ExecutionFailureKind → Prop
  | .programExitedNonzero => termination.kind = .exited ∧ termination.value ≠ some 0
  | .programTerminatedBySignal => termination.kind = .signaled
  | .resourceLimitExceeded => ∃ limit, termination.limit = some limit ∧
      limitRequested request.limits limit = true
  | .cancelled => cancellationAdmitted = true ∧ termination.kind = .cancelled
  | .logCaptureFailed => ¬ (request.environment.standardOutput = .captureComplete ∧
      standardOutput.isSome = true ∧
      request.environment.standardError = .captureComplete ∧ standardError.isSome = true)
  | .cleanupFailed => cleanup = .failed
  | _ => False

/-- **The evidence of a failure after the start.** -/
structure FailureEvidence (request : ExecutionRequest) (backend : BackendCapabilityProfile)
    (observedInterpreter : InterpreterIdentity) (termination : ProcessTermination)
    (standardOutput : Option StreamCapture) (standardError : Option StreamCapture)
    (established : List (Raw ExecutionGuarantee)) (cleanup : CleanupOutcome)
    (failure : ExecutionFailureKind) (cancellationAdmitted : Bool) : Prop
    extends StartedEvidence request backend observedInterpreter standardOutput standardError
      established cleanup where
  shown : FailureShown request termination standardOutput standardError cleanup
    cancellationAdmitted failure
  cleanup_reported : cleanup ≠ .notRequired
  captured : failure ≠ .logCaptureFailed → ¬ StreamLost request standardOutput standardError
  cleaned : failure ≠ .cleanupFailed → cleanup = .verified

section Started

variable {q : ExecutionRequest} {p : BackendCapabilityProfile} {i : InterpreterIdentity}
  {t : ProcessTermination} {o e : Option StreamCapture} {c : CleanupOutcome} {u : Unit}

/-! ### The checks on the remaining guarantees

Each check of the source, on the one list that can pass it. -/

/-- What is established was required, -/
theorem requireRequestedGuarantees_eq_ok {gs : List ExecutionGuarantee}
    (h : gs.Pairwise (· < ·)) :
    requireRequestedGuarantees gs q = .ok u ↔ ∀ g ∈ gs, g ∈ q.requiredGuarantees := by
  rw [requireRequestedGuarantees, refuseIf_eq_ok, Bool.not_eq_false,
    includes_iff q.required_strict h]

/-- and is in the profile. -/
theorem requireSubset_eq_ok {gs : List ExecutionGuarantee} (h : gs.Pairwise (· < ·)) :
    requireSubset gs p = .ok u ↔ ∀ g ∈ gs, g ∈ p.guarantees := by
  rw [requireSubset, refuseIf_eq_ok, Bool.not_eq_false, includes_iff p.guarantees_strict h]

theorem beforeStartRequirements_strict : (beforeStartRequirements q).Pairwise (· < ·) :=
  q.required_strict.filter _

theorem requireLimitGuaranteeShape_remaining {code : ErrorCode} {subject : String} :
    requireLimitGuaranteeShape (remainingGuarantees q o e c) code subject = .ok u :=
  (requireLimitGuaranteeShape_eq_ok remaining_strict).mpr remaining_limitShape

theorem requireRequestedGuarantees_remaining :
    requireRequestedGuarantees (remainingGuarantees q o e c) q = .ok u :=
  (requireRequestedGuarantees_eq_ok remaining_strict).mpr (fun _ hg => (mem_remaining.mp hg).1)

theorem requireSubset_remaining (h : p.supports q = true) :
    requireSubset (remainingGuarantees q o e c) p = .ok u :=
  (requireSubset_eq_ok remaining_strict).mpr
    (fun g hg => BackendCapabilityProfile.supports_iff.mp h g (mem_remaining.mp hg).1)

/-- What is required before the start is still there. -/
theorem includes_beforeStart_remaining :
    includes (remainingGuarantees q o e c) (beforeStartRequirements q) = true := by
  refine (includes_iff remaining_strict beforeStartRequirements_strict).mpr (fun g hg => ?_)
  obtain ⟨hg, hb⟩ := List.mem_filter.mp hg
  exact mem_remaining.mpr ⟨hg, kept_of_beforeStart hb⟩

theorem hasGuarantee_stdout_remaining (h : OnlyRequested q o e) :
    hasGuarantee (remainingGuarantees q o e c) .completeStdoutCapture = o.isSome :=
  (hasGuarantee_eq remaining_strict).mpr (stdoutCapture_remaining h)

theorem hasGuarantee_stderr_remaining (h : OnlyRequested q o e) :
    hasGuarantee (remainingGuarantees q o e c) .completeStderrCapture = e.isSome :=
  (hasGuarantee_eq remaining_strict).mpr (stderrCapture_remaining h)

theorem hasGuarantee_cleanup_remaining :
    hasGuarantee (remainingGuarantees q o e c) .cleanupVerified = decide (c = .verified) :=
  (hasGuarantee_eq remaining_strict).mpr
    (cleanupVerified_remaining.trans decide_eq_true_iff.symm)

/-! ### The factories

A run is taken apart with `bind_ok`, check by check, to find the evidence.  In the other direction
the evidence passes each check, on the guarantees that remain. -/

/-- What three factories ask of the guarantees they are given, before they go on with them. -/
theorem guaranteeChecks_ok {established : List (Raw ExecutionGuarantee)}
    {k : List ExecutionGuarantee → Except Error ExecutionResult} {r : ExecutionResult}
    (h : (do
      let gs ← normalizeGuarantees established .inconsistentResult "execution result"
      requireLimitGuaranteeShape gs .inconsistentResult "execution result"
      requireRequestedGuarantees gs q
      requireSubset gs p
      k gs) = .ok r) :
    ∃ gs, normalizeGuarantees established .inconsistentResult "execution result" = .ok gs ∧
      requireLimitGuaranteeShape gs .inconsistentResult "execution result" = .ok () ∧
      requireRequestedGuarantees gs q = .ok () ∧ requireSubset gs p = .ok () ∧ k gs = .ok r := by
  obtain ⟨gs, hgs, h⟩ := bind_ok h
  obtain ⟨_, hshape, h⟩ := bind_ok h
  obtain ⟨_, hreq, h⟩ := bind_ok h
  obtain ⟨_, hsub, h⟩ := bind_ok h
  exact ⟨gs, hgs, hshape, hreq, hsub, h⟩

/-- A started failure kind's arm of the switch accepts what the kind has to show. -/
theorem requireFailureEvidence_eq_ok {f : ExecutionFailureKind} {admitted : Bool}
    (hpre : preStartFailure f = false) (hreq : OnlyRequested q o e) :
    ExecutionResult.requireFailureEvidence q t o e (remainingGuarantees q o e c) c admitted f = .ok u ↔
      FailureShown q t o e c admitted f := by
  cases f with
  | programExitedNonzero =>
    simp only [ExecutionResult.requireFailureEvidence, refuseIf_eq_ok, FailureShown, not_or,
      not_not]
    exact ⟨fun h => ⟨h.1, h.2.2⟩, fun h => ⟨h.1, ProcessTermination.value_of_exited h.1, h.2⟩⟩
  | programTerminatedBySignal =>
    simp [ExecutionResult.requireFailureEvidence, FailureShown]
  | resourceLimitExceeded =>
    simp only [ExecutionResult.requireFailureEvidence, FailureShown]
    split
    · rename_i limit hkind hlimit
      have hall : LimitShape (remainingGuarantees q o e c) := remaining_limitShape
      simp only [LimitShape, guaranteeFor_remaining] at hall
      simp only [bind_eq_ok, refuseIf_eq_ok, not_or, Bool.not_eq_false,
        hasGuarantee_iff remaining_strict, guaranteeFor_remaining, hall, hlimit,
        Option.some.injEq, exists_eq_left']
      constructor
      · rintro ⟨-, h, -⟩
        exact h
      · intro h
        exact ⟨(), h, ⟨limit, h⟩, h⟩
    · rename_i hnot
      refine iff_of_false raise_ne_ok ?_
      rintro ⟨limit, hlimit, -⟩
      exact hnot limit (ProcessTermination.kind_of_limit hlimit) hlimit
  | cancelled =>
    simp [ExecutionResult.requireFailureEvidence, FailureShown, bind_eq_ok]
  | logCaptureFailed =>
    simp only [ExecutionResult.requireFailureEvidence, bind_eq_ok, requireCaptureShape_lenient,
      refuseIf_eq_ok, FailureShown]
    constructor
    · rintro ⟨-, -, h⟩
      exact h
    · intro h
      exact ⟨(), hreq, h⟩
  | cleanupFailed =>
    simp [ExecutionResult.requireFailureEvidence, FailureShown]
  | _ => exact absurd hpre (by simp [preStartFailure])

/-- A kind that shows something of a process is none of those before the start. -/
theorem FailureShown.started {f : ExecutionFailureKind} {admitted : Bool}
    (h : FailureShown q t o e c admitted f) : preStartFailure f = false := by
  cases f <;> first | rfl | exact absurd h id

/-- Only with control evidence is a failure shown to be a cancellation. -/
theorem FailureShown.ne_cancelled {f : ExecutionFailureKind}
    (h : FailureShown q t o e c false f) : f ≠ .cancelled := by
  rintro rfl
  exact absurd h.1 (by simp)

/-- **The common part of the failures after the start accepts exactly the evidence of one of
them.** -/
theorem failedAfterStartImpl_eq_ok {established : List (Raw ExecutionGuarantee)}
    {cleanup : Raw CleanupOutcome} {failure : Raw ExecutionFailureKind} {admitted : Bool}
    {d : Str} {r : ExecutionResult} :
    ExecutionResult.failedAfterStartImpl q p i t o e established cleanup failure admitted d
        = .ok r ↔
      ∃ f c, failure = .of f ∧ cleanup = .of c ∧
        FailureEvidence q p i t o e established c f admitted ∧
        r = .sealed .failed .started q p (some i) (some t) o e (remainingGuarantees q o e c) c
          (some f) d := by
  constructor
  · intro h
    unfold ExecutionResult.failedAfterStartImpl at h
    obtain ⟨f, hf, h⟩ := bind_ok h
    obtain ⟨c, hc, h⟩ := bind_ok h
    obtain ⟨_, hpre, h⟩ := bind_ok h
    obtain ⟨_, hreported, h⟩ := bind_ok h
    obtain ⟨_, hinterp, h⟩ := bind_ok h
    obtain ⟨gs, hgs, hshape, hreq, hsub, h⟩ := guaranteeChecks_ok h
    obtain ⟨_, hsupp, h⟩ := bind_ok h
    obtain ⟨_, hbefore, h⟩ := bind_ok h
    obtain ⟨_, hstreams, h⟩ := bind_ok h
    obtain ⟨_, hclean, h⟩ := bind_ok h
    obtain ⟨_, hshown, h⟩ := bind_ok h
    rw [Raw.require_eq_ok] at hf hc
    rw [refuseIf_eq_ok] at hpre hreported hinterp hsupp hbefore hstreams hclean
    obtain ⟨hstrict, hdenotes⟩ := normalizeGuarantees_eq_ok.mp hgs
    rw [requireRequestedGuarantees_eq_ok hstrict] at hreq
    rw [Bool.not_eq_false, includes_iff hstrict beforeStartRequirements_strict] at hbefore
    simp only [not_or, not_not, hasGuarantee_eq hstrict] at hstreams
    rw [not_not, eq_comm, hasGuarantee_eq hstrict, decide_eq_true_eq] at hclean
    have honly : OnlyRequested q o e :=
      ⟨fun ho => ExecutionRequest.stdoutCapture_mem.mp (hreq _ (hstreams.1.mpr ho)),
        fun he => ExecutionRequest.stderrCapture_mem.mp (hreq _ (hstreams.2.mpr he))⟩
    obtain rfl := established_eq_remaining hstrict hreq hbefore hstreams.1 hstreams.2 hclean
    rw [requireFailureEvidence_eq_ok (by simpa using hpre) honly] at hshown
    obtain ⟨_, hcapture, h⟩ := bind_ok h
    obtain ⟨_, hverified, h⟩ := bind_ok h
    rw [refuseIf_eq_ok, not_and, not_not] at hverified
    refine ⟨f, c, hf, hc, ?_, (Except.ok.inj h).symm⟩
    exact {
      supported := by simpa using hsupp
      interpreter := not_not.mp hinterp
      requested := honly
      established := hdenotes
      shown := hshown
      cleanup_reported := hreported
      captured := fun hf => (requireCaptureShape_strict.mp (by rwa [if_pos hf] at hcapture)).2
      cleaned := hverified }
  · rintro ⟨f, c, rfl, rfl, hev, rfl⟩
    have hnorm : normalizeGuarantees established .inconsistentResult "execution result"
        = .ok (remainingGuarantees q o e c) :=
      normalizeGuarantees_eq_ok.mpr ⟨remaining_strict, hev.established⟩
    have hshown := (requireFailureEvidence_eq_ok (u := ()) hev.shown.started hev.requested).mpr
      hev.shown
    have hcapture : (if f ≠ .logCaptureFailed then requireCaptureShape q o e false
        else .ok ()) = .ok () := by
      split
      · rename_i hf
        exact requireCaptureShape_strict.mpr ⟨hev.requested, hev.captured hf⟩
      · rfl
    simp only [ExecutionResult.failedAfterStartImpl, bind_eq_ok, Raw.require_eq_ok, refuseIf_eq_ok]
    refine ⟨f, rfl, c, rfl, (), by simp [hev.shown.started], (), hev.cleanup_reported, (),
      not_not.mpr hev.interpreter, _, hnorm, (), requireLimitGuaranteeShape_remaining, (),
      requireRequestedGuarantees_remaining, (), requireSubset_remaining hev.supported, (),
      by simp [hev.supported], (), by simp [includes_beforeStart_remaining], (),
      by simp [hasGuarantee_stdout_remaining hev.requested,
        hasGuarantee_stderr_remaining hev.requested], (),
      by simp [hasGuarantee_cleanup_remaining], (), hshown, (), hcapture, (), ?_, rfl⟩
    rintro ⟨hf, hc⟩
    exact hc (hev.cleaned hf)

/-- **A failure after the start is sealed** exactly for its evidence, and without control evidence
it is not a cancellation. -/
theorem failedAfterStart_eq_ok {established : List (Raw ExecutionGuarantee)}
    {cleanup : Raw CleanupOutcome} {failure : Raw ExecutionFailureKind} {d : Str}
    {r : ExecutionResult} :
    ExecutionResult.failedAfterStart q p i t o e established cleanup failure d = .ok r ↔
      ∃ f c, failure = .of f ∧ cleanup = .of c ∧
        FailureEvidence q p i t o e established c f false ∧
        r = .sealed .failed .started q p (some i) (some t) o e (remainingGuarantees q o e c) c
          (some f) d :=
  failedAfterStartImpl_eq_ok

/-- Cancelled after the start: control evidence, and the evidence of a failure with cancelled
termination. -/
theorem cancelledAfterStart_eq_ok {token : CancellationToken}
    {established : List (Raw ExecutionGuarantee)} {cleanup : Raw CleanupOutcome} {d : Str}
    {r : ExecutionResult} :
    ExecutionResult.cancelledAfterStart q p token i o e established cleanup d = .ok r ↔
      ∃ c, cleanup = .of c ∧ ControlEvidence q token ∧
        FailureEvidence q p i .cancelled o e established c .cancelled true ∧
        r = .sealed .failed .started q p (some i) (some .cancelled) o e
          (remainingGuarantees q o e c) c (some .cancelled) d := by
  simp only [ExecutionResult.cancelledAfterStart, bind_eq_ok, requireRequestedControl_eq_ok,
    failedAfterStartImpl_eq_ok]
  constructor
  · rintro ⟨_, hcontrol, f, c, hf, hc, hev, hr⟩
    obtain rfl := Raw.of_injective hf
    exact ⟨c, hc, hcontrol, hev, hr⟩
  · rintro ⟨c, hc, hcontrol, hev, hr⟩
    exact ⟨(), hcontrol, _, c, rfl, hc, hev, hr⟩

/-- **Success is sealed exactly for complete evidence.** -/
theorem succeeded_eq_ok {established : List (Raw ExecutionGuarantee)} {d : Str}
    {r : ExecutionResult} :
    ExecutionResult.succeeded q p i o e established d = .ok r ↔
      StartedEvidence q p i o e established .verified ∧ ¬ StreamLost q o e ∧
        r = .sealed .succeeded .started q p (some i) (some .exitedZero) o e q.requiredGuarantees
          .verified none d := by
  constructor
  · intro h
    unfold ExecutionResult.succeeded at h
    obtain ⟨gs, hgs, h⟩ := bind_ok h
    obtain ⟨_, -, h⟩ := bind_ok h
    obtain ⟨_, hreq, h⟩ := bind_ok h
    obtain ⟨_, hsupp, h⟩ := bind_ok h
    obtain ⟨_, -, h⟩ := bind_ok h
    obtain ⟨_, hinterp, h⟩ := bind_ok h
    obtain ⟨_, hcapture, h⟩ := bind_ok h
    obtain ⟨t, ht, h⟩ := bind_ok h
    obtain ⟨hstrict, hdenotes⟩ := normalizeGuarantees_eq_ok.mp hgs
    rw [requireRequestedGuarantees_eq_ok hstrict] at hreq
    rw [refuseIf_eq_ok, not_or, Bool.not_eq_false, Bool.not_eq_false,
      includes_iff hstrict q.required_strict] at hsupp
    rw [refuseIf_eq_ok, not_not] at hinterp
    rw [requireCaptureShape_strict] at hcapture
    rw [ProcessTermination.exited_zero] at ht
    obtain rfl := Except.ok.inj ht
    -- the two inclusions make the established set the required one
    obtain rfl : gs = q.requiredGuarantees :=
      eq_of_mem_iff hstrict q.required_strict (fun g => ⟨hreq g, hsupp.2 g⟩)
    refine ⟨⟨hsupp.1, hinterp, hcapture.1, ?_⟩, hcapture.2, (Except.ok.inj h).symm⟩
    rwa [remaining_of_complete hcapture.2]
  · rintro ⟨hev, hlost, rfl⟩
    have hrem := remaining_of_complete hlost
    have hnorm : normalizeGuarantees established .inconsistentResult "execution result"
        = .ok (remainingGuarantees q o e .verified) :=
      normalizeGuarantees_eq_ok.mpr ⟨remaining_strict, hev.established⟩
    have hall : includes (remainingGuarantees q o e .verified) q.requiredGuarantees = true :=
      (includes_iff remaining_strict q.required_strict).mpr (fun _ hg => by rwa [hrem])
    simp only [ExecutionResult.succeeded, bind_eq_ok, refuseIf_eq_ok]
    exact ⟨_, hnorm, (), requireLimitGuaranteeShape_remaining, (),
      requireRequestedGuarantees_remaining, (), by simp [hev.supported, hall], (),
      requireSubset_remaining hev.supported, (), not_not.mpr hev.interpreter, (),
      requireCaptureShape_strict.mpr ⟨hev.requested, hlost⟩, .exitedZero, rfl, by rw [hrem]; rfl⟩

end Started

/-! ## 5. Failures before the start

Without a process there is nothing for the guarantees to agree with.  Any part of what is required
may have been established when the failure came, as long as it is in the profile, keeps the limits
together, and is something that is established before the start. -/

/-- **What a result without a process has to show.** -/
structure PreStartEvidence (request : ExecutionRequest) (backend : BackendCapabilityProfile)
    (established : List (Raw ExecutionGuarantee)) (guarantees : List ExecutionGuarantee) :
    Prop where
  strict : guarantees.Pairwise (· < ·)
  established : ∀ v, v ∈ established ↔ v ∈ guarantees.map Raw.of
  limitShape : LimitShape guarantees
  requested : ∀ g ∈ guarantees, g ∈ request.requiredGuarantees
  advertised : ∀ g ∈ guarantees, g ∈ backend.guarantees
  beforeStart : ∀ g ∈ guarantees, beforeStartGuarantee g = true

section PreStart

variable {q : ExecutionRequest} {p : BackendCapabilityProfile}

/-- The evidence is what the checks of the two pre-start factories accept. -/
theorem preStartEvidence_iff {established : List (Raw ExecutionGuarantee)}
    {gs : List ExecutionGuarantee} {code : ErrorCode} {subject : String} :
    PreStartEvidence q p established gs ↔
      normalizeGuarantees established .inconsistentResult "execution result" = .ok gs ∧
        requireLimitGuaranteeShape gs code subject = .ok () ∧
        requireRequestedGuarantees gs q = .ok () ∧ requireSubset gs p = .ok () ∧
        ¬ (gs.any (fun value => !beforeStartGuarantee value) = true) := by
  constructor
  · intro h
    refine ⟨normalizeGuarantees_eq_ok.mpr ⟨h.strict, h.established⟩, ?_, ?_, ?_, ?_⟩
    · exact (requireLimitGuaranteeShape_eq_ok h.strict).mpr h.limitShape
    · exact (requireRequestedGuarantees_eq_ok h.strict).mpr h.requested
    · exact (requireSubset_eq_ok h.strict).mpr h.advertised
    · exact any_not_beforeStart.mpr h.beforeStart
  · rintro ⟨hgs, hshape, hreq, hsub, hbefore⟩
    obtain ⟨hstrict, hdenotes⟩ := normalizeGuarantees_eq_ok.mp hgs
    exact {
      strict := hstrict
      established := hdenotes
      limitShape := (requireLimitGuaranteeShape_eq_ok hstrict).mp hshape
      requested := (requireRequestedGuarantees_eq_ok hstrict).mp hreq
      advertised := (requireSubset_eq_ok hstrict).mp hsub
      beforeStart := any_not_beforeStart.mp hbefore }

/-- **A failure before the start is sealed** for one of the six kinds; the profile supports the
request, unless that it does not is the failure. -/
theorem failedBeforeStart_eq_ok {established : List (Raw ExecutionGuarantee)}
    {failure : Raw ExecutionFailureKind} {d : Str} {r : ExecutionResult} :
    ExecutionResult.failedBeforeStart q p failure established d = .ok r ↔
      ∃ f gs, failure = .of f ∧ preStartFailure f = true ∧
        PreStartEvidence q p established gs ∧
        (f ≠ .backendUnsupported → p.supports q = true) ∧
        r = .sealed .failed .notStarted q p none none none none gs .notRequired (some f) d := by
  constructor
  · intro h
    unfold ExecutionResult.failedBeforeStart at h
    obtain ⟨f, hf, h⟩ := bind_ok h
    obtain ⟨_, -, h⟩ := bind_ok h
    obtain ⟨_, hpre, h⟩ := bind_ok h
    obtain ⟨gs, hgs, hshape, hreq, hsub, h⟩ := guaranteeChecks_ok h
    obtain ⟨_, hbefore, h⟩ := bind_ok h
    obtain ⟨_, hsupp, h⟩ := bind_ok h
    rw [Raw.require_eq_ok] at hf
    rw [refuseIf_eq_ok, Bool.not_eq_false] at hpre
    rw [refuseIf_eq_ok] at hbefore
    rw [refuseIf_eq_ok, not_and, Bool.not_eq_false] at hsupp
    have hev := preStartEvidence_iff.mpr ⟨hgs, hshape, hreq, hsub, hbefore⟩
    exact ⟨f, gs, hf, hpre, hev, hsupp, (Except.ok.inj h).symm⟩
  · rintro ⟨f, gs, rfl, hpre, hev, hsupp, rfl⟩
    have hcancelled := preStartFailure_ne_cancelled hpre
    obtain ⟨hgs, hshape, hreq, hsub, hbefore⟩ := preStartEvidence_iff.mp hev
    simp only [ExecutionResult.failedBeforeStart, bind_eq_ok, refuseIf_eq_ok, Raw.require_eq_ok]
    exact ⟨f, rfl, (), hcancelled, (), by simp [hpre], gs, hgs, (), hshape, (), hreq, (), hsub, (),
      hbefore, (), by simpa using hsupp, rfl⟩

/-- Cancelled before the start: control evidence, a profile that supports the request, and
cancellation among what was established. -/
theorem cancelledBeforeStart_eq_ok {token : CancellationToken}
    {established : List (Raw ExecutionGuarantee)} {d : Str} {r : ExecutionResult} :
    ExecutionResult.cancelledBeforeStart q p token established d = .ok r ↔
      ∃ gs, ControlEvidence q token ∧ PreStartEvidence q p established gs ∧
        p.supports q = true ∧ .cancellation ∈ gs ∧
        r = .sealed .failed .notStarted q p none none none none gs .notRequired
          (some .cancelled) d := by
  constructor
  · intro h
    unfold ExecutionResult.cancelledBeforeStart at h
    obtain ⟨_, hcontrol, h⟩ := bind_ok h
    obtain ⟨gs, hgs, hshape, hreq, hsub, h⟩ := guaranteeChecks_ok h
    obtain ⟨_, hsupp, h⟩ := bind_ok h
    obtain ⟨_, hcancel, h⟩ := bind_ok h
    obtain ⟨_, hbefore, h⟩ := bind_ok h
    rw [requireRequestedControl_eq_ok] at hcontrol
    rw [refuseIf_eq_ok] at hbefore
    rw [refuseIf_eq_ok, Bool.not_eq_false] at hsupp
    have hev := preStartEvidence_iff.mpr ⟨hgs, hshape, hreq, hsub, hbefore⟩
    rw [refuseIf_eq_ok, Bool.not_eq_false, hasGuarantee_iff hev.strict] at hcancel
    exact ⟨gs, hcontrol, hev, hsupp, hcancel, (Except.ok.inj h).symm⟩
  · rintro ⟨gs, hcontrol, hev, hsupp, hcancel, rfl⟩
    obtain ⟨hgs, hshape, hreq, hsub, hbefore⟩ := preStartEvidence_iff.mp hev
    simp only [ExecutionResult.cancelledBeforeStart, bind_eq_ok, refuseIf_eq_ok]
    exact ⟨(), requireRequestedControl_eq_ok.mpr hcontrol, gs, hgs, (), hshape, (), hreq, (), hsub,
      (), by simp [hsupp], (), by simp [hasGuarantee_iff hev.strict, hcancel], (), hbefore, rfl⟩

end PreStart

/-! ## 6. The results of the factories

The five lemmas above are now read from the result.  `Built.evidence` says of a built result which
factory made it and what was shown to that factory, with the guarantees it stores in place of those
that were claimed.  Later modules argue by cases on this. -/

/-- **What a factory returned**: one constructor for each of the five, with the evidence stated
for the guarantees the result stores. -/
inductive ResultEvidence : ExecutionResult → Prop
  | failedBeforeStart {q : ExecutionRequest} {p : BackendCapabilityProfile}
      {f : ExecutionFailureKind} {gs : List ExecutionGuarantee} {d : Str}
      (kind : preStartFailure f = true) (evidence : PreStartEvidence q p (gs.map Raw.of) gs)
      (supported : f ≠ .backendUnsupported → p.supports q = true) :
      ResultEvidence (.sealed .failed .notStarted q p none none none none gs .notRequired
        (some f) d)
  | cancelledBeforeStart {q : ExecutionRequest} {p : BackendCapabilityProfile}
      {gs : List ExecutionGuarantee} {d : Str}
      (enabled : q.cancellation.mode ≠ .disabled)
      (evidence : PreStartEvidence q p (gs.map Raw.of) gs) (supported : p.supports q = true)
      (established : .cancellation ∈ gs) :
      ResultEvidence (.sealed .failed .notStarted q p none none none none gs .notRequired
        (some .cancelled) d)
  | succeeded {q : ExecutionRequest} {p : BackendCapabilityProfile} {i : InterpreterIdentity}
      {o e : Option StreamCapture} {d : Str}
      (evidence : StartedEvidence q p i o e (q.requiredGuarantees.map Raw.of) .verified)
      (captured : ¬ StreamLost q o e) :
      ResultEvidence (.sealed .succeeded .started q p (some i) (some .exitedZero) o e
        q.requiredGuarantees .verified none d)
  | failedAfterStart {q : ExecutionRequest} {p : BackendCapabilityProfile}
      {i : InterpreterIdentity} {t : ProcessTermination} {o e : Option StreamCapture}
      {c : CleanupOutcome} {f : ExecutionFailureKind} {d : Str}
      (evidence : FailureEvidence q p i t o e ((remainingGuarantees q o e c).map Raw.of) c f
        false) :
      ResultEvidence (.sealed .failed .started q p (some i) (some t) o e
        (remainingGuarantees q o e c) c (some f) d)
  | cancelledAfterStart {q : ExecutionRequest} {p : BackendCapabilityProfile}
      {i : InterpreterIdentity} {o e : Option StreamCapture} {c : CleanupOutcome} {d : Str}
      (enabled : q.cancellation.mode ≠ .disabled)
      (evidence : FailureEvidence q p i .cancelled o e ((remainingGuarantees q o e c).map Raw.of) c
        .cancelled true) :
      ResultEvidence (.sealed .failed .started q p (some i) (some .cancelled) o e
        (remainingGuarantees q o e c) c (some .cancelled) d)

section Canonical

variable {q : ExecutionRequest} {p : BackendCapabilityProfile} {i : InterpreterIdentity}
  {t : ProcessTermination} {o e : Option StreamCapture} {c : CleanupOutcome}
  {f : ExecutionFailureKind} {admitted : Bool} {established : List (Raw ExecutionGuarantee)}
  {gs : List ExecutionGuarantee}

/-! The guarantees a caller claims may be replaced by those that are stored. -/

theorem PreStartEvidence.canonical (h : PreStartEvidence q p established gs) :
    PreStartEvidence q p (gs.map Raw.of) gs :=
  { h with established := fun _ => Iff.rfl }

theorem StartedEvidence.canonical (h : StartedEvidence q p i o e established c) :
    StartedEvidence q p i o e ((remainingGuarantees q o e c).map Raw.of) c :=
  { h with established := fun _ => Iff.rfl }

theorem FailureEvidence.canonical (h : FailureEvidence q p i t o e established c f admitted) :
    FailureEvidence q p i t o e ((remainingGuarantees q o e c).map Raw.of) c f admitted :=
  { h with established := fun _ => Iff.rfl }

end Canonical

/-- **Every built result is one of the five.** -/
theorem Built.evidence {r : ExecutionResult} (h : Built r) : ResultEvidence r := by
  obtain ⟨call, hrun⟩ := h
  cases call with
  | failedBeforeStart q p failure established d =>
    obtain ⟨f, gs, -, hkind, hev, hsupp, rfl⟩ := failedBeforeStart_eq_ok.mp hrun
    exact .failedBeforeStart hkind hev.canonical hsupp
  | cancelledBeforeStart q p token established d =>
    obtain ⟨gs, hcontrol, hev, hsupp, hcancel, rfl⟩ := cancelledBeforeStart_eq_ok.mp hrun
    exact .cancelledBeforeStart hcontrol.enabled hev.canonical hsupp hcancel
  | succeeded q p i o e established d =>
    obtain ⟨hev, hlost, rfl⟩ := succeeded_eq_ok.mp hrun
    have hcanonical := hev.canonical
    rw [remaining_of_complete hlost] at hcanonical
    exact .succeeded hcanonical hlost
  | failedAfterStart q p i t o e established cleanup failure d =>
    obtain ⟨f, c, -, -, hev, rfl⟩ := failedAfterStart_eq_ok.mp hrun
    exact .failedAfterStart hev.canonical
  | cancelledAfterStart q p token i o e established cleanup d =>
    obtain ⟨c, -, hcontrol, hev, rfl⟩ := cancelledAfterStart_eq_ok.mp hrun
    exact .cancelledAfterStart hcontrol.enabled hev.canonical

/-- A result is about the request and the profile its factory was given. -/
theorem FactoryCall.run_parties {call : FactoryCall} {r : ExecutionResult}
    (h : call.run = .ok r) : r.request = call.request ∧ r.backend = call.backend := by
  cases call with
  | failedBeforeStart =>
    obtain ⟨f, gs, -, -, -, -, rfl⟩ := failedBeforeStart_eq_ok.mp h
    exact ⟨rfl, rfl⟩
  | cancelledBeforeStart =>
    obtain ⟨gs, -, -, -, -, rfl⟩ := cancelledBeforeStart_eq_ok.mp h
    exact ⟨rfl, rfl⟩
  | succeeded =>
    obtain ⟨-, -, rfl⟩ := succeeded_eq_ok.mp h
    exact ⟨rfl, rfl⟩
  | failedAfterStart =>
    obtain ⟨f, c, -, -, -, rfl⟩ := failedAfterStart_eq_ok.mp h
    exact ⟨rfl, rfl⟩
  | cancelledAfterStart =>
    obtain ⟨c, -, -, -, rfl⟩ := cancelledAfterStart_eq_ok.mp h
    exact ⟨rfl, rfl⟩

/-- The identity is the hash of the other fields. -/
theorem ResultEvidence.identified {r : ExecutionResult} (h : ResultEvidence r) :
    r.identity = (resultPreimage r.status r.startState r.request r.backend r.observedInterpreter
      r.termination r.standardOutput r.standardError r.establishedGuarantees r.cleanup
      r.failure).finish := by
  cases h <;> rfl

/-- What is stored is in order, without repetitions. -/
theorem ResultEvidence.established_strict {r : ExecutionResult} (h : ResultEvidence r) :
    r.establishedGuarantees.Pairwise (· < ·) := by
  cases h with
  | failedBeforeStart _ evidence _ => exact evidence.strict
  | cancelledBeforeStart _ evidence _ _ => exact evidence.strict
  | succeeded _ _ => exact ExecutionRequest.required_strict _
  | failedAfterStart _ => exact remaining_strict
  | cancelledAfterStart _ _ => exact remaining_strict

end Evidence

end Pkgexec
