/-
# What an accepted result means

Consequences of the acceptance lemmas for the callers of `execution_result`.

Success is exact: `succeeded` accepts complete evidence and nothing else (`success_exact`).

A failure that names lost logs or a failed cleanup says nothing about the termination it comes
with, since the two arms of the switch in `failed_after_start_impl` do not look at it.  So a
cancelled or a resource-limited termination can be sealed without the control or the limit it
stands for, and `TerminationUnchecked` says for which arguments.  The first of the two arms
also accepts evidence in which nothing is lost, unless both streams are requested.

Last, which honest outcomes of a started process have a factory that accepts them
(`reportable_iff`), and how much of a started result is left to choose: its established
guarantees follow from the other fields (`started_determined`).
-/
import Pkgexec.Evidence
import Pkgexec.Lib.Sha256

namespace Pkgexec

open Bytes Ranges

section Acceptance

variable [External]

/-! ## 1. Success

The acceptance lemma, with the guarantees spelled out: for complete evidence the ones that remain
are the ones that were required. -/

/-- **Success is sealed exactly for complete evidence**, and stores exactly what the request
requires. -/
theorem success_exact (q : ExecutionRequest) (p : BackendCapabilityProfile)
    (i : InterpreterIdentity) (o e : Option StreamCapture)
    (established : List (Raw ExecutionGuarantee)) (d : Str) :
    ((∃ r, ExecutionResult.succeeded q p i o e established d = .ok r) ↔
      (∀ v ∈ established, ∃ g, v = .of g) ∧
      (∀ g, .of g ∈ established ↔ g ∈ q.requiredGuarantees) ∧
      p.supports q = true ∧
      i = q.interpreter ∧
      (o.isSome = true ↔ q.environment.standardOutput = .captureComplete) ∧
      (e.isSome = true ↔ q.environment.standardError = .captureComplete)) ∧
    ∀ r, ExecutionResult.succeeded q p i o e established d = .ok r →
      r.status = .succeeded ∧
      r.establishedGuarantees = q.requiredGuarantees ∧
      r.termination = some .exitedZero ∧
      r.cleanup = .verified ∧
      r.failure = none := by
  simp only [succeeded_eq_ok]
  refine ⟨⟨?_, ?_⟩, ?_⟩
  · rintro ⟨r, hev, hlost, -⟩
    have hset := hev.established
    rw [remaining_of_complete hlost] at hset
    rw [not_streamLost] at hlost
    refine ⟨fun v hv => ?_, fun g => ?_, hev.supported, hev.interpreter,
      ⟨hev.requested.stdout, hlost.1⟩, ⟨hev.requested.stderr, hlost.2⟩⟩
    · obtain ⟨g, -, rfl⟩ := List.mem_map.mp ((hset v).mp hv)
      exact ⟨g, rfl⟩
    · rw [hset, List.mem_map_of_injective Raw.of_injective]
  · rintro ⟨hvalid, hset, hsupp, hinterp, hout, herr⟩
    have hlost : ¬ StreamLost q o e := not_streamLost.mpr ⟨hout.mpr, herr.mpr⟩
    refine ⟨_, ⟨hsupp, hinterp, ⟨hout.mp, herr.mp⟩, fun v => ?_⟩, hlost, rfl⟩
    rw [remaining_of_complete hlost]
    constructor
    · intro hv
      obtain ⟨g, rfl⟩ := hvalid v hv
      exact List.mem_map_of_mem ((hset g).mp hv)
    · intro hv
      obtain ⟨g, hg, rfl⟩ := List.mem_map.mp hv
      exact (hset g).mpr hg
  · rintro r ⟨-, -, rfl⟩
    exact ⟨rfl, rfl, rfl, rfl, rfl⟩

/-! ## 2. The invariant of results

Case by case over the five factories, with two lemmas for the two start states.  The invariant is
about the fields alone, so a caller can use it without knowing the factory. -/

/-- **The invariant of results**: which fields are present together, and what the established
guarantees may be. -/
structure WellFormed (r : ExecutionResult) : Prop where
  succeeded_iff : r.status = .succeeded ↔ r.failure = none
  started_of_succeeded : r.status = .succeeded → r.startState = .started
  notStarted_iff_termination : r.startState = .notStarted ↔ r.termination = none
  notStarted_iff_interpreter : r.startState = .notStarted ↔ r.observedInterpreter = none
  notStarted_iff_cleanup : r.startState = .notStarted ↔ r.cleanup = .notRequired
  notStarted_streams : r.startState = .notStarted →
    r.standardOutput = none ∧ r.standardError = none
  notStarted_guarantees : r.startState = .notStarted →
    .completeStdoutCapture ∉ r.establishedGuarantees ∧
    .completeStderrCapture ∉ r.establishedGuarantees ∧
    .cleanupVerified ∉ r.establishedGuarantees
  started_interpreter : r.startState = .started →
    r.observedInterpreter = some r.request.interpreter
  notStarted_failure : r.startState = .notStarted → ∀ f, r.failure = some f →
    preStartFailure f = true ∨ f = .cancelled
  started_failure : r.startState = .started → ∀ f, r.failure = some f →
    preStartFailure f = false
  established_strict : r.establishedGuarantees.Pairwise (· < ·)
  established_required : ∀ g ∈ r.establishedGuarantees, g ∈ r.request.requiredGuarantees
  established_advertised : ∀ g ∈ r.establishedGuarantees, g ∈ r.backend.guarantees
  established_limits : .resourceLimits ∈ r.establishedGuarantees ↔
    ∃ kind, guaranteeFor kind ∈ r.establishedGuarantees
  unsupported : r.backend.supports r.request = false →
    r.startState = .notStarted ∧ r.failure = some .backendUnsupported

/-- A guarantee of a process that never started. -/
theorem PreStartEvidence.not_mem {q : ExecutionRequest} {p : BackendCapabilityProfile}
    {established : List (Raw ExecutionGuarantee)} {gs : List ExecutionGuarantee}
    (h : PreStartEvidence q p established gs) {g : ExecutionGuarantee}
    (hg : beforeStartGuarantee g = false) : g ∉ gs := by
  intro hmem
  exact absurd (h.beforeStart g hmem) (by simp [hg])

/-- The results of processes that never started are well formed, -/
theorem wellFormed_notStarted {q : ExecutionRequest} {p : BackendCapabilityProfile}
    {gs : List ExecutionGuarantee} {f : ExecutionFailureKind} {d : Str}
    (hkind : preStartFailure f = true ∨ f = .cancelled)
    (hev : PreStartEvidence q p (gs.map Raw.of) gs)
    (hsupp : f ≠ .backendUnsupported → p.supports q = true) :
    WellFormed (.sealed .failed .notStarted q p none none none none gs .notRequired (some f) d)
    where
  succeeded_iff := by simp [ExecutionResult.sealed]
  started_of_succeeded := by simp [ExecutionResult.sealed]
  notStarted_iff_termination := by simp [ExecutionResult.sealed]
  notStarted_iff_interpreter := by simp [ExecutionResult.sealed]
  notStarted_iff_cleanup := by simp [ExecutionResult.sealed]
  notStarted_streams _ := ⟨rfl, rfl⟩
  notStarted_guarantees _ := ⟨hev.not_mem rfl, hev.not_mem rfl, hev.not_mem rfl⟩
  started_interpreter h := absurd h (by simp [ExecutionResult.sealed])
  notStarted_failure _ f' hf := by
    obtain rfl : f = f' := Option.some.inj hf
    exact hkind
  started_failure h := absurd h (by simp [ExecutionResult.sealed])
  established_strict := hev.strict
  established_required := hev.requested
  established_advertised := hev.advertised
  established_limits := hev.limitShape
  unsupported h := by
    have hf : f = .backendUnsupported := by
      by_contra hne
      exact absurd (hsupp hne) (by rw [show p.supports q = false from h]; simp)
    exact ⟨rfl, congrArg some hf⟩

/-- and so are those of started ones. -/
theorem wellFormed_started {q : ExecutionRequest} {p : BackendCapabilityProfile}
    {i : InterpreterIdentity} {t : ProcessTermination} {o e : Option StreamCapture}
    {c : CleanupOutcome} {status : ExecutionStatus} {failure : Option ExecutionFailureKind}
    {established : List (Raw ExecutionGuarantee)} {d : Str}
    (hev : StartedEvidence q p i o e established c) (hcleanup : c ≠ .notRequired)
    (hstatus : status = .succeeded ↔ failure = none)
    (hkind : ∀ f, failure = some f → preStartFailure f = false) :
    WellFormed (.sealed status .started q p (some i) (some t) o e (remainingGuarantees q o e c) c
      failure d) where
  succeeded_iff := hstatus
  started_of_succeeded _ := rfl
  notStarted_iff_termination := by simp [ExecutionResult.sealed]
  notStarted_iff_interpreter := by simp [ExecutionResult.sealed]
  notStarted_iff_cleanup := iff_of_false (by simp [ExecutionResult.sealed]) hcleanup
  notStarted_streams h := absurd h (by simp [ExecutionResult.sealed])
  notStarted_guarantees h := absurd h (by simp [ExecutionResult.sealed])
  started_interpreter _ := congrArg some hev.interpreter
  notStarted_failure h := absurd h (by simp [ExecutionResult.sealed])
  started_failure _ := hkind
  established_strict := remaining_strict
  established_required _ hg := (mem_remaining.mp hg).1
  established_advertised g hg :=
    BackendCapabilityProfile.supports_iff.mp hev.supported g (mem_remaining.mp hg).1
  established_limits := remaining_limitShape
  unsupported h := absurd hev.supported (by rw [show p.supports q = false from h]; simp)

/-- **Every built result is well formed.** -/
theorem ResultEvidence.wellFormed {r : ExecutionResult} (h : ResultEvidence r) : WellFormed r := by
  cases h with
  | failedBeforeStart kind evidence supported =>
    exact wellFormed_notStarted (Or.inl kind) evidence supported
  | cancelledBeforeStart enabled evidence supported established =>
    exact wellFormed_notStarted (Or.inr rfl) evidence (fun _ => supported)
  | succeeded evidence captured =>
    rw [← remaining_of_complete captured]
    exact wellFormed_started evidence (by simp) (by simp) (by simp)
  | failedAfterStart evidence =>
    exact wellFormed_started evidence.toStartedEvidence evidence.cleanup_reported (by simp)
      (fun _ hf => Option.some.inj hf ▸ evidence.shown.started)
  | cancelledAfterStart enabled evidence =>
    exact wellFormed_started evidence.toStartedEvidence evidence.cleanup_reported (by simp)
      (fun _ hf => Option.some.inj hf ▸ rfl)

end Acceptance

/-! ## 3. A sample request

One request, with one resource and no limits, and a profile for it.  The witnesses and the failing
calls of this module, and of later ones, are about these values. -/

namespace Sample

/-- libpkgsource with one language, and SHA-256 itself. -/
scoped instance external : External where
  sha256 bytes := ⟨Sha256.hash bytes, Sha256.length_hash bytes⟩
  ProgramLanguage := Unit
  programLanguageToString _ := ⟨text "posix-shell", by decide⟩
  lifecycleActionToString
    | .preInstall => ⟨text "pre-install", by decide⟩
    | .postInstall => ⟨text "post-install", by decide⟩
    | .preRemove => ⟨text "pre-remove", by decide⟩
    | .postRemove => ⟨text "post-remove", by decide⟩

/-- An identity whose digits are all the same. -/
def repeated {kind : IdentityKind} (digit : UInt8) (h : IsHexDigit digit) : Identity kind where
  hex := ⟨List.replicate 64 digit, by simp⟩
  isHex := ⟨by simp, fun _ hc => (List.mem_replicate.mp hc).2 ▸ h⟩

def rootPath : LogicalPath where
  value := ⟨text "/", by decide⟩
  parsed := by decide

def workspaceSlot : ResourceSlot where
  role := .buildWorkspace
  name := .nil
  named_iff := by decide

def workspace : ResourceBinding where
  slot := workspaceSlot
  resource := repeated 0x61 (by decide)
  access := .writable
  mountPoint := rootPath
  read_only := by decide
  is_writable := by decide

def layout : ResourceLayout where
  bindings := ⟨[workspace], by decide⟩
  workingDirectory := workspaceSlot
  identity := (layoutPreimage [workspace] workspaceSlot).finish
  slots_strict := List.pairwise_singleton _ _
  mount_points_nodup := List.nodup_singleton _
  working_found := ⟨workspace, List.mem_singleton_self _, rfl⟩
  identified := rfl

def environmentFields (standardOutput : StreamPolicy) : EnvironmentFields where
  executableSearchPath := ⟨[rootPath], by decide⟩
  homeDirectory := rootPath
  temporaryDirectory := rootPath
  parallelism := 4
  fileCreationMask := 0o022
  sourceDateEpoch := some 1
  network := .denied
  standardInput := .closed
  standardOutput := standardOutput
  standardError := .discard
  additionalVariables := .nil

def environment (standardOutput : StreamPolicy) : EnvironmentPolicy where
  toEnvironmentFields := environmentFields standardOutput
  identity := (environmentPreimage (environmentFields standardOutput)).finish
  path_nonempty := List.cons_ne_nil _ _
  path_nodup := List.nodup_singleton _
  parallelism_positive := by show (4 : UInt32) ≠ 0; decide
  mask_fits := by show (0o022 : UInt32) ≤ 0o777; decide
  epoch_nonneg := by
    rintro t ⟨rfl⟩
    decide
  names_strict := List.Pairwise.nil
  identified := rfl

def credentials : CredentialPolicy where
  userId := 1000
  groupId := 1000
  supplementaryGroups := ⟨[27, 44], by decide⟩
  noNewPrivileges := true
  identity := (credentialPreimage 1000 1000 [27, 44] true).finish
  groups_strict := by decide
  primary_not_repeated := by decide
  identified := rfl

def noLimits : ResourceLimits where
  cpuTimeMilliseconds := none
  addressSpaceBytes := none
  fileSizeBytes := none
  openFiles := none
  processCount := none
  identity := (limitsPreimage none none none none none).finish
  cpu_time_positive := CancellationPolicy.none_ne_zero
  address_space_positive := CancellationPolicy.none_ne_zero
  file_size_positive := CancellationPolicy.none_ne_zero
  open_files_positive := CancellationPolicy.none_ne_zero
  process_count_positive := CancellationPolicy.none_ne_zero
  identified := rfl

/-- A request without limits or cancellation, that discards standard error. -/
def request (standardOutput : StreamPolicy) : ExecutionRequest :=
  .ofPolicies ⟨(), .nil⟩ .build (repeated 0x62 (by decide))
    (repeated 0x63 (by decide)) layout (environment standardOutput) credentials noLimits .disabled

/-- A profile with the guarantees a request requires. -/
def profile (q : ExecutionRequest) : BackendCapabilityProfile :=
  .ofGuarantees (repeated 0x64 (by decide)) q.requiredGuarantees q.required_strict q.limitShape

theorem profile_supports (q : ExecutionRequest) : (profile q).supports q = true :=
  BackendCapabilityProfile.supports_iff.mpr (fun _ hg => hg)

/-- What a backend establishes before it starts the process. -/
def beforeStart : List ExecutionGuarantee :=
  [.exactInterpreter, .closedEnvironment, .rootView, .writableResources, .fixedCredentials,
    .networkDenied]

theorem required_discard :
    (request .discard).requiredGuarantees = beforeStart ++ [.cleanupVerified] := by
  decide +kernel

theorem required_captureComplete :
    (request .captureComplete).requiredGuarantees =
      beforeStart ++ [.completeStdoutCapture, .cleanupVerified] := by
  decide +kernel

/-- Nothing was captured, since nothing was requested, and cleanup failed. -/
theorem started_cleanup_failed :
    StartedEvidence (request .discard) (profile (request .discard)) (request .discard).interpreter
      none none (beforeStart.map Raw.of) .failed where
  supported := profile_supports _
  interpreter := rfl
  requested := ⟨by simp, by simp⟩
  established v := by
    rw [remainingGuarantees, required_discard]
    rfl

/-- Nothing was captured, since nothing was requested, and cleanup was verified. -/
theorem started_cleanup_verified :
    StartedEvidence (request .discard) (profile (request .discard)) (request .discard).interpreter
      none none ((beforeStart ++ [ExecutionGuarantee.cleanupVerified]).map Raw.of) .verified where
  supported := profile_supports _
  interpreter := rfl
  requested := ⟨by simp, by simp⟩
  established v := by
    rw [remainingGuarantees, required_discard]
    rfl

def diagnostic : Str := .nil

end Sample

section Acceptance

variable [External]

/-! ## 4. Failures whose evidence leaves the termination open

Of the six kinds of failure after the start four look at the termination and two do not.
`TerminationUnchecked` has the arguments that the two accept, `TerminationShown` what the others
ask for, and each exact condition below is read off this division. -/

/-- The arguments that `failed_after_start` accepts whatever the termination is. -/
inductive TerminationUnchecked (q : ExecutionRequest) (p : BackendCapabilityProfile)
    (i : InterpreterIdentity) (o e : Option StreamCapture)
    (established : List (Raw ExecutionGuarantee)) :
    Raw CleanupOutcome → Raw ExecutionFailureKind → Prop
  | logCaptureFailed (started : StartedEvidence q p i o e established .verified)
      (uncaptured : ¬ (q.environment.standardOutput = .captureComplete ∧ o.isSome = true ∧
        q.environment.standardError = .captureComplete ∧ e.isSome = true)) :
      TerminationUnchecked q p i o e established (Raw.of CleanupOutcome.verified)
        (Raw.of ExecutionFailureKind.logCaptureFailed)
  | cleanupFailed (started : StartedEvidence q p i o e established .failed)
      (captured : ¬ StreamLost q o e) :
      TerminationUnchecked q p i o e established (Raw.of CleanupOutcome.failed)
        (Raw.of ExecutionFailureKind.cleanupFailed)

/-- The terminations the other failure kinds of `failed_after_start` ask for. -/
inductive TerminationShown (q : ExecutionRequest) (t : ProcessTermination) : Prop
  | exited (kind : t.kind = .exited) (nonzero : t.value ≠ some 0)
  | signaled (kind : t.kind = .signaled)
  | limited (limit : ResourceLimitKind) (named : t.limit = some limit)
      (requested : limitRequested q.limits limit = true)

section Termination

variable {q : ExecutionRequest} {p : BackendCapabilityProfile} {i : InterpreterIdentity}
  {t : ProcessTermination} {o e : Option StreamCapture}
  {established : List (Raw ExecutionGuarantee)}

theorem TerminationUnchecked.accepted {cleanup : Raw CleanupOutcome}
    {failure : Raw ExecutionFailureKind}
    (h : TerminationUnchecked q p i o e established cleanup failure) (t : ProcessTermination)
    (d : Str) : ∃ r, ExecutionResult.failedAfterStart q p i t o e established cleanup failure d
        = .ok r ∧ r.request = q ∧ r.termination = some t := by
  simp only [failedAfterStart_eq_ok]
  cases h with
  | logCaptureFailed started uncaptured =>
    exact ⟨_, ⟨_, _, rfl, rfl, ⟨started, uncaptured, by simp, by simp, by simp⟩, rfl⟩, rfl, rfl⟩
  | cleanupFailed started captured =>
    exact ⟨_, ⟨_, _, rfl, rfl, ⟨started, rfl, by simp, fun _ => captured, by simp⟩, rfl⟩, rfl,
      rfl⟩

/-- Every failure after the start that is not a cancellation is of one of the two sorts. -/
theorem FailureEvidence.unchecked_or_shown {c : CleanupOutcome} {f : ExecutionFailureKind}
    (h : FailureEvidence q p i t o e established c f false) :
    TerminationUnchecked q p i o e established (.of c) (.of f) ∨
      (c = .verified ∧ ¬ StreamLost q o e ∧ TerminationShown q t) := by
  have hshown := h.shown
  cases f with
  | logCaptureFailed =>
    obtain rfl := h.cleaned (by simp)
    exact Or.inl (.logCaptureFailed h.toStartedEvidence hshown)
  | cleanupFailed =>
    obtain rfl : c = .failed := hshown
    exact Or.inl (.cleanupFailed h.toStartedEvidence (h.captured (by simp)))
  | programExitedNonzero =>
    exact Or.inr ⟨h.cleaned (by simp), h.captured (by simp), .exited hshown.1 hshown.2⟩
  | programTerminatedBySignal =>
    exact Or.inr ⟨h.cleaned (by simp), h.captured (by simp), .signaled hshown⟩
  | resourceLimitExceeded =>
    obtain ⟨limit, hlimit, hrequested⟩ := hshown
    exact Or.inr ⟨h.cleaned (by simp), h.captured (by simp), .limited limit hlimit hrequested⟩
  | cancelled => exact absurd hshown.1 (by simp)
  | _ => exact absurd hshown id

theorem TerminationShown.requested_of_limit (h : TerminationShown q t) {limit : ResourceLimitKind}
    (hlimit : t.limit = some limit) : limitRequested q.limits limit = true := by
  have hkind := ProcessTermination.kind_of_limit hlimit
  cases h with
  | exited kind _ => exact absurd (kind.symm.trans hkind) (by simp)
  | signaled kind => exact absurd (kind.symm.trans hkind) (by simp)
  | limited limit' named requested =>
    obtain rfl : limit' = limit := Option.some.inj (named.symm.trans hlimit)
    exact requested

theorem TerminationShown.kind_ne_cancelled (h : TerminationShown q t) : t.kind ≠ .cancelled := by
  cases h with
  | exited kind _ => simp [kind]
  | signaled kind => simp [kind]
  | limited limit named _ => simp [ProcessTermination.kind_of_limit named]

/-- Where the termination of a result comes from: success reports an exit with status zero, a
cancellation after the start reports the cancellation, and `failed_after_start` what it was
given. -/
theorem FactoryCall.reported_termination {call : FactoryCall} {r : ExecutionResult}
    (hr : call.run = .ok r) (ht : r.termination = some t) :
    t = .exitedZero ∨
    (∃ q p i o e established c f d,
      call = .failedAfterStart q p i t o e established (.of c) (.of f) d ∧
      FailureEvidence q p i t o e established c f false ∧
      r = .sealed .failed .started q p (some i) (some t) o e (remainingGuarantees q o e c) c
        (some f) d) ∨
    ∃ q p token i o e established cleanup c d,
      call = .cancelledAfterStart q p token i o e established cleanup d ∧
      t = .cancelled ∧ ControlEvidence q token ∧
      r = .sealed .failed .started q p (some i) (some .cancelled) o e
        (remainingGuarantees q o e c) c (some .cancelled) d := by
  cases call with
  | failedBeforeStart q p failure established d =>
    obtain ⟨f, gs, -, -, -, -, rfl⟩ := failedBeforeStart_eq_ok.mp hr
    exact absurd ht (by simp [ExecutionResult.sealed])
  | cancelledBeforeStart q p token established d =>
    obtain ⟨gs, -, -, -, -, rfl⟩ := cancelledBeforeStart_eq_ok.mp hr
    exact absurd ht (by simp [ExecutionResult.sealed])
  | succeeded q p i o e established d =>
    obtain ⟨-, -, rfl⟩ := succeeded_eq_ok.mp hr
    obtain rfl : ProcessTermination.exitedZero = t := Option.some.inj ht
    exact Or.inl rfl
  | failedAfterStart q p i t' o e established cleanup failure d =>
    obtain ⟨f, c, rfl, rfl, hev, rfl⟩ := failedAfterStart_eq_ok.mp hr
    obtain rfl : t' = t := Option.some.inj ht
    exact Or.inr (Or.inl ⟨q, p, i, o, e, established, c, f, d, rfl, hev, rfl⟩)
  | cancelledAfterStart q p token i o e established cleanup d =>
    obtain ⟨c, -, hcontrol, -, rfl⟩ := cancelledAfterStart_eq_ok.mp hr
    obtain rfl : ProcessTermination.cancelled = t := Option.some.inj ht
    exact Or.inr (Or.inr
      ⟨q, p, token, i, o, e, established, cleanup, c, d, rfl, rfl, hcontrol, rfl⟩)

end Termination

/-! ### Cancelled terminations

A cancelled termination should come with control evidence.  It does where the termination is looked
at; the other calls are those of `CancellationUnchecked`. -/

/-- **A cancelled termination is backed by control evidence.** -/
def CancellationBacked (call : FactoryCall) (r : ExecutionResult) : Prop :=
  (∃ t, r.termination = some t ∧ t.kind = .cancelled) →
    r.request.cancellation.mode ≠ .disabled ∧
    .cancellation ∈ r.establishedGuarantees ∧
    ∃ token, call.token? = some token ∧ token.requestIdentity = r.request.identity ∧
      token.cancellationRequested = true

/-- A call of `failed_after_start` with a cancelled termination, and arguments for which it does
not look at the termination. -/
def CancellationUnchecked : FactoryCall → Prop
  | .failedAfterStart q p i t o e established cleanup failure _ =>
    t.kind = .cancelled ∧ TerminationUnchecked q p i o e established cleanup failure
  | _ => False

/-- What such a call seals is not backed. -/
theorem CancellationUnchecked.not_backed {call : FactoryCall} (h : CancellationUnchecked call) :
    ∃ r, call.run = .ok r ∧ ¬ CancellationBacked call r := by
  cases call with
  | failedAfterStart q p i t o e established cleanup failure d =>
    obtain ⟨hkind, hun⟩ := h
    obtain ⟨r, hr, -, ht⟩ := hun.accepted t d
    refine ⟨r, hr, fun hbacked => ?_⟩
    obtain ⟨-, -, token, htoken, -⟩ := hbacked ⟨t, ht, hkind⟩
    exact absurd htoken (by simp [FactoryCall.token?])
  | _ => exact absurd h id

/-- **Cancelled terminations are backed by control evidence except where the termination is not
looked at.** -/
theorem cancellation_backed_iff (call : FactoryCall) :
    (∀ r, call.run = .ok r → CancellationBacked call r) ↔ ¬ CancellationUnchecked call := by
  constructor
  · intro h hun
    obtain ⟨r, hr, hnot⟩ := hun.not_backed
    exact hnot (h r hr)
  · rintro hun r hr ⟨t, ht, hkind⟩
    rcases FactoryCall.reported_termination hr ht with
      rfl | ⟨q, p, i, o, e, established, c, f, d, rfl, hev, -⟩ |
        ⟨q, p, token, i, o, e, established, cleanup, c, d, rfl, -, hcontrol, rfl⟩
    · exact absurd hkind (by simp [ProcessTermination.exitedZero])
    · rcases hev.unchecked_or_shown with h | ⟨-, -, h⟩
      · exact absurd ⟨hkind, h⟩ hun
      · exact absurd hkind h.kind_ne_cancelled
    · refine ⟨hcontrol.enabled, ?_, token, rfl, hcontrol.bound, hcontrol.requested⟩
      exact mem_remaining.mpr ⟨ExecutionRequest.cancellation_mem.mpr hcontrol.enabled, rfl⟩

end Acceptance

open Sample in
/-- A failed cleanup, with everything else in order. -/
theorem Sample.unchecked_cleanup_failed :
    TerminationUnchecked (request .discard) (profile (request .discard))
      (request .discard).interpreter none none (beforeStart.map Raw.of)
      (Raw.of CleanupOutcome.failed) (Raw.of ExecutionFailureKind.cleanupFailed) :=
  .cleanupFailed started_cleanup_failed (not_streamLost.mpr ⟨by decide, by decide⟩)

/-- `failed_after_start(request, profile, interpreter, t, nullopt, nullopt, guarantees, failed,
cleanup_failed, d)` for a request without limits whose cancellation is disabled. -/
def Sample.cleanupFailedCall (t : ProcessTermination) (d : Str) : FactoryCall :=
  .failedAfterStart (request .discard) (profile (request .discard)) (request .discard).interpreter
    t none none (beforeStart.map Raw.of) (Raw.of CleanupOutcome.failed)
    (Raw.of ExecutionFailureKind.cleanupFailed) d

open Sample in
/-- What the call returns. -/
def Sample.cleanupFailedResult (t : ProcessTermination) (d : Str) : ExecutionResult :=
  .sealed .failed .started (request .discard) (profile (request .discard))
    (some (request .discard).interpreter) (some t) none none
    (remainingGuarantees (request .discard) none none .failed) .failed (some .cleanupFailed) d

open Sample in
theorem Sample.run_cleanupFailedCall (t : ProcessTermination) (d : Str) :
    (cleanupFailedCall t d).run = .ok (cleanupFailedResult t d) :=
  failedAfterStart_eq_ok.mpr ⟨_, _, rfl, rfl, ⟨started_cleanup_failed, rfl, by simp,
    fun _ => not_streamLost.mpr ⟨by decide, by decide⟩, by simp⟩, rfl⟩

/-- With the termination `cancelled()`. -/
def Sample.cancelledCall : FactoryCall := Sample.cleanupFailedCall .cancelled Sample.diagnostic

open Sample in
/-- A cancelled termination without any control. -/
theorem cancellation_not_backed :
    ∃ r, cancelledCall.run = .ok r ∧ ¬ CancellationBacked cancelledCall r :=
  CancellationUnchecked.not_backed ⟨rfl, unchecked_cleanup_failed⟩

section Acceptance

variable [External]

/-! ### Resource-limited terminations

The same for a limit: it should have been requested, with its guarantees established.  Here a call
that does not look at the termination may still be right, when the limit happens to be requested. -/

/-- **A resource-limited termination names a requested limit whose guarantees were
established.** -/
def LimitBacked (r : ExecutionResult) : Prop :=
  ∀ t limit, r.termination = some t → t.kind = .resourceLimited → t.limit = some limit →
    limitRequested r.request.limits limit = true ∧
    .resourceLimits ∈ r.establishedGuarantees ∧
    guaranteeFor limit ∈ r.establishedGuarantees

/-- A call of `failed_after_start` with the termination by a limit that was not requested, and
arguments for which it does not look at the termination. -/
def LimitUnchecked : FactoryCall → Prop
  | .failedAfterStart q p i t o e established cleanup failure _ =>
    (∃ limit, t.limit = some limit ∧ limitRequested q.limits limit = false) ∧
      TerminationUnchecked q p i o e established cleanup failure
  | _ => False

theorem limitBacked_of_requested {q : ExecutionRequest} {o e : Option StreamCapture}
    {c : CleanupOutcome} {limit : ResourceLimitKind}
    (h : limitRequested q.limits limit = true) :
    .resourceLimits ∈ remainingGuarantees q o e c ∧
      guaranteeFor limit ∈ remainingGuarantees q o e c := by
  have hlimit : guaranteeFor limit ∈ remainingGuarantees q o e c := guaranteeFor_remaining.mpr h
  exact ⟨remaining_limitShape.mpr ⟨limit, hlimit⟩, hlimit⟩

theorem LimitUnchecked.not_backed {call : FactoryCall} (h : LimitUnchecked call) :
    ∃ r, call.run = .ok r ∧ ¬ LimitBacked r := by
  cases call with
  | failedAfterStart q p i t o e established cleanup failure d =>
    obtain ⟨⟨limit, hlimit, hnot⟩, hun⟩ := h
    obtain ⟨r, hr, hq, ht⟩ := hun.accepted t d
    refine ⟨r, hr, fun hbacked => ?_⟩
    obtain ⟨hrequested, -⟩ :=
      hbacked t limit ht (ProcessTermination.kind_of_limit hlimit) hlimit
    rw [hq, hnot] at hrequested
    exact absurd hrequested (by simp)
  | _ => exact absurd h id

/-- **Resource-limited terminations are backed except where the termination is not looked at
and the limit was not requested.** -/
theorem limit_backed_iff (call : FactoryCall) :
    (∀ r, call.run = .ok r → LimitBacked r) ↔ ¬ LimitUnchecked call := by
  constructor
  · intro h hun
    obtain ⟨r, hr, hnot⟩ := hun.not_backed
    exact hnot (h r hr)
  · intro hun r hr t limit ht hkind hlimit
    rcases FactoryCall.reported_termination hr ht with
      rfl | ⟨q, p, i, o, e, established, c, f, d, rfl, hev, rfl⟩ |
        ⟨q, p, token, i, o, e, established, cleanup, c, d, -, rfl, -, -⟩
    · exact absurd hkind (by simp [ProcessTermination.exitedZero])
    · have hrequested : limitRequested q.limits limit = true := by
        rcases hev.unchecked_or_shown with h | ⟨-, -, h⟩
        · by_contra hnot
          exact hun ⟨⟨limit, hlimit, by simpa using hnot⟩, h⟩
        · exact h.requested_of_limit hlimit
      exact ⟨hrequested, limitBacked_of_requested hrequested⟩
    · exact absurd hkind (by simp [ProcessTermination.cancelled])

end Acceptance

/-- With the termination `resource_limited(cpu_time)`. -/
def Sample.limitedCall : FactoryCall :=
  Sample.cleanupFailedCall ⟨.resourceLimited, none, some .cpuTime, .resourceLimited .cpuTime⟩
    Sample.diagnostic

open Sample in
/-- A termination by a limit that was never set. -/
theorem limit_not_backed : ∃ r, limitedCall.run = .ok r ∧ ¬ LimitBacked r :=
  LimitUnchecked.not_backed ⟨⟨.cpuTime, rfl, rfl⟩, unchecked_cleanup_failed⟩

section Acceptance

variable [External]

/-! ### Lost logs

A lost log should be one of a requested stream.  The arm of the switch only refuses evidence in
which both streams were requested and captured. -/

/-- **A log-capture failure names a real loss**: with it a requested stream has no capture, and
complete evidence of a zero exit is never a failure. -/
def LossNamed (r : ExecutionResult) : Prop :=
  (r.failure = some .logCaptureFailed →
    StreamLost r.request r.standardOutput r.standardError) ∧
  ¬ (r.status = .failed ∧ r.termination = some .exitedZero ∧ r.cleanup = .verified ∧
    ¬ StreamLost r.request r.standardOutput r.standardError)

/-- A call of `failed_after_start` with the failure `log_capture_failed` and acceptable evidence
in which every requested stream is captured, one stream at most being requested. -/
def LosslessLogFailure : FactoryCall → Prop
  | .failedAfterStart q p i _ o e established cleanup failure _ =>
    failure = Raw.of ExecutionFailureKind.logCaptureFailed ∧
      cleanup = Raw.of CleanupOutcome.verified ∧
      StartedEvidence q p i o e established .verified ∧
      ¬ StreamLost q o e ∧
      ¬ (q.environment.standardOutput = .captureComplete ∧
        q.environment.standardError = .captureComplete)
  | _ => False

theorem LosslessLogFailure.not_named {call : FactoryCall} (h : LosslessLogFailure call) :
    ∃ r, call.run = .ok r ∧ ¬ LossNamed r := by
  cases call with
  | failedAfterStart q p i t o e established cleanup failure d =>
    obtain ⟨rfl, rfl, hstarted, hlost, hone⟩ := h
    have hev : FailureEvidence q p i t o e established .verified .logCaptureFailed false :=
      ⟨hstarted, fun hboth => hone ⟨hboth.1, hboth.2.2.1⟩, by simp, by simp, by simp⟩
    have hr := failedAfterStart_eq_ok (d := d).mpr ⟨_, _, rfl, rfl, hev, rfl⟩
    exact ⟨_, hr, fun hnamed => hlost (hnamed.1 rfl)⟩
  | _ => exact absurd h id

/-- **Log-capture failures name a real loss except where one stream at most is requested and it
is captured.** -/
theorem loss_named_iff (call : FactoryCall) :
    (∀ r, call.run = .ok r → LossNamed r) ↔ ¬ LosslessLogFailure call := by
  constructor
  · intro h hun
    obtain ⟨r, hr, hnot⟩ := hun.not_named
    exact hnot (h r hr)
  · intro hun r hr
    cases call with
    | failedBeforeStart q p failure established d =>
      obtain ⟨f, gs, -, hpre, -, -, rfl⟩ := failedBeforeStart_eq_ok.mp hr
      refine ⟨fun hf => ?_, fun h => absurd h.2.1 (by simp [ExecutionResult.sealed])⟩
      obtain rfl : f = .logCaptureFailed := Option.some.inj hf
      exact absurd hpre (by simp [preStartFailure])
    | cancelledBeforeStart q p token established d =>
      obtain ⟨gs, -, -, -, -, rfl⟩ := cancelledBeforeStart_eq_ok.mp hr
      exact ⟨fun hf => absurd hf (by simp [ExecutionResult.sealed]),
        fun h => absurd h.2.1 (by simp [ExecutionResult.sealed])⟩
    | succeeded q p i o e established d =>
      obtain ⟨-, -, rfl⟩ := succeeded_eq_ok.mp hr
      exact ⟨fun hf => absurd hf (by simp [ExecutionResult.sealed]),
        fun h => absurd h.1 (by simp [ExecutionResult.sealed])⟩
    | failedAfterStart q p i t o e established cleanup failure d =>
      obtain ⟨f, c, rfl, rfl, hev, rfl⟩ := failedAfterStart_eq_ok.mp hr
      have hlog : f = .logCaptureFailed → StreamLost q o e := by
        rintro rfl
        by_contra hlost
        obtain rfl := hev.cleaned (by simp)
        refine hun ⟨rfl, rfl, hev.toStartedEvidence, hlost, fun hboth => hev.shown ?_⟩
        rw [not_streamLost] at hlost
        exact ⟨hboth.1, hlost.1 hboth.1, hboth.2, hlost.2 hboth.2⟩
      refine ⟨fun hf => hlog (Option.some.inj hf), ?_⟩
      rintro ⟨-, ht, hclean, hlost⟩
      obtain rfl : t = .exitedZero := Option.some.inj ht
      obtain rfl : c = .verified := hclean
      have hshown := hev.shown
      -- without a loss or a failed cleanup the termination has to show the failure
      cases f with
      | logCaptureFailed => exact hlost (hlog rfl)
      | programExitedNonzero => exact hshown.2 rfl
      | programTerminatedBySignal =>
        exact absurd hshown (by simp [FailureShown, ProcessTermination.exitedZero])
      | resourceLimitExceeded =>
        obtain ⟨limit, hlimit, -⟩ := hshown
        exact absurd hlimit (by simp [ProcessTermination.exitedZero])
      | cancelled => exact absurd hshown.1 (by simp)
      | cleanupFailed => exact absurd hshown (by simp [FailureShown])
      | _ => exact hshown
    | cancelledAfterStart q p token i o e established cleanup d =>
      obtain ⟨c, -, -, -, rfl⟩ := cancelledAfterStart_eq_ok.mp hr
      refine ⟨fun hf => absurd hf (by simp [ExecutionResult.sealed]), fun h => ?_⟩
      have ht : ProcessTermination.cancelled = .exitedZero := Option.some.inj h.2.1
      exact absurd (congrArg ProcessTermination.kind ht)
        (by simp [ProcessTermination.cancelled, ProcessTermination.exitedZero])

end Acceptance

/-- `failed_after_start(request, profile, interpreter, exited(0), nullopt, nullopt, required,
verified, log_capture_failed)` for a request that discards both streams. -/
def Sample.losslessCall : FactoryCall :=
  .failedAfterStart (request .discard) (profile (request .discard)) (request .discard).interpreter
    .exitedZero none none ((beforeStart ++ [ExecutionGuarantee.cleanupVerified]).map Raw.of)
    (Raw.of CleanupOutcome.verified) (Raw.of ExecutionFailureKind.logCaptureFailed) diagnostic

open Sample in
/-- Lost logs where no log was requested: a complete, successful run sealed as a failure. -/
theorem loss_not_named : ∃ r, losslessCall.run = .ok r ∧ ¬ LossNamed r :=
  LosslessLogFailure.not_named ⟨rfl, rfl, started_cleanup_verified,
    not_streamLost.mpr ⟨by decide, by decide⟩, by decide⟩

section Acceptance

variable [External]

/-! ## 5. Which honest outcomes can be reported

An honest backend knows how the process ended, what was captured and how cleanup went.  With
complete captures and verified cleanup the termination names the factory; otherwise the failure has
to name what is missing, and a failure names one thing. -/

/-- **What an honest backend has to report of a started process**: the termination is one the
request allows, cancelled only with a requested token at hand, and the established guarantees
are those the captures and the cleanup leave. -/
structure HonestOutcome (q : ExecutionRequest) (p : BackendCapabilityProfile)
    (i : InterpreterIdentity) (t : ProcessTermination) (o e : Option StreamCapture)
    (established : List (Raw ExecutionGuarantee)) (c : CleanupOutcome)
    (atHand : Option CancellationToken) : Prop
    extends StartedEvidence q p i o e established c where
  cleanup_reported : c = .verified ∨ c = .failed
  limited : ∀ limit, t.limit = some limit → limitRequested q.limits limit = true
  controlled : t.kind = .cancelled → ∃ token, atHand = some token ∧ ControlEvidence q token

/-- Some factory for started processes accepts the evidence and keeps it unchanged. -/
def Reportable (q : ExecutionRequest) (p : BackendCapabilityProfile) (i : InterpreterIdentity)
    (t : ProcessTermination) (o e : Option StreamCapture)
    (established : List (Raw ExecutionGuarantee)) (c : CleanupOutcome)
    (atHand : Option CancellationToken) (d : Str) : Prop :=
  ∃ r : ExecutionResult,
    (ExecutionResult.succeeded q p i o e established d = .ok r ∨
      (∃ f, ExecutionResult.failedAfterStart q p i t o e established (.of c) f d = .ok r) ∨
      ∃ token, atHand = some token ∧
        ExecutionResult.cancelledAfterStart q p token i o e established (.of c) d = .ok r) ∧
    r.observedInterpreter = some i ∧ r.termination = some t ∧
    r.standardOutput = o ∧ r.standardError = e ∧ r.cleanup = c ∧
    ∀ v, v ∈ established ↔ v ∈ r.establishedGuarantees.map Raw.of

section Report

variable {q : ExecutionRequest} {p : BackendCapabilityProfile} {i : InterpreterIdentity}
  {t : ProcessTermination} {o e : Option StreamCapture}
  {established : List (Raw ExecutionGuarantee)} {c : CleanupOutcome}
  {atHand : Option CancellationToken} {d : Str}

/-- A failure of the right kind reports the evidence as it is. -/
theorem FailureEvidence.reportable {f : ExecutionFailureKind}
    (h : FailureEvidence q p i t o e established c f false) :
    Reportable q p i t o e established c atHand d :=
  ⟨_, Or.inr (Or.inl ⟨.of f, failedAfterStart_eq_ok.mpr ⟨f, c, rfl, rfl, h, rfl⟩⟩),
    rfl, rfl, rfl, rfl, rfl, h.established⟩

/-- With every requested stream captured and cleanup verified, the termination says which
factory to use. -/
theorem HonestOutcome.reportable_of_complete
    (h : HonestOutcome q p i t o e established .verified atHand) (hlost : ¬ StreamLost q o e) :
    Reportable q p i t o e established .verified atHand d := by
  have hfailure : ∀ {f : ExecutionFailureKind}, FailureShown q t o e .verified false f →
      Reportable q p i t o e established .verified atHand d := fun hshown =>
    FailureEvidence.reportable
      ⟨h.toStartedEvidence, hshown, by simp, fun _ => hlost, fun _ => rfl⟩
  cases hkind : t.kind with
  | exited =>
    by_cases hzero : t.value = some 0
    · obtain rfl : t = .exitedZero := ProcessTermination.eq_exitedZero hkind hzero
      refine ⟨_, Or.inl (succeeded_eq_ok.mpr ⟨h.toStartedEvidence, hlost, rfl⟩), rfl, rfl, rfl,
        rfl, rfl, fun v => ?_⟩
      rw [h.established, remaining_of_complete hlost]
      rfl
    · exact hfailure (f := .programExitedNonzero) ⟨hkind, hzero⟩
  | signaled => exact hfailure (f := .programTerminatedBySignal) hkind
  | cancelled =>
    obtain ⟨token, hhand, hcontrol⟩ := h.controlled hkind
    obtain rfl : t = .cancelled := ProcessTermination.eq_cancelled hkind
    have hev : FailureEvidence q p i .cancelled o e established .verified .cancelled true :=
      ⟨h.toStartedEvidence, ⟨rfl, rfl⟩, by simp, fun _ => hlost, fun _ => rfl⟩
    exact ⟨_, Or.inr (Or.inr ⟨token, hhand,
      cancelledAfterStart_eq_ok.mpr ⟨_, rfl, hcontrol, hev, rfl⟩⟩), rfl, rfl, rfl, rfl, rfl,
      hev.established⟩
  | resourceLimited =>
    obtain ⟨limit, hlimit⟩ := ProcessTermination.limit_of_kind hkind
    exact hfailure (f := .resourceLimitExceeded) ⟨limit, hlimit, h.limited limit hlimit⟩

/-- A lost stream together with a failed cleanup fits no arm: a failed cleanup is reported only
with complete captures, and lost logs only with a verified cleanup. -/
theorem not_reportable_of_lost_failed (hlost : StreamLost q o e) :
    ¬ Reportable q p i t o e established .failed atHand d := by
  have hnone : ∀ {t : ProcessTermination} {f : ExecutionFailureKind} {admitted : Bool},
      ¬ FailureEvidence q p i t o e established .failed f admitted := by
    intro t f admitted hev
    by_cases hf : f = .cleanupFailed
    · exact hev.captured (by simp [hf]) hlost
    · exact absurd (hev.cleaned hf) (by simp)
  rintro ⟨r, hr | ⟨f, hr⟩ | ⟨token, -, hr⟩, -⟩
  · exact (succeeded_eq_ok.mp hr).2.1 hlost
  · obtain ⟨f, c, -, hc, hev, -⟩ := failedAfterStart_eq_ok.mp hr
    obtain rfl := Raw.of_injective hc
    exact hnone hev
  · obtain ⟨c, hc, -, hev, -⟩ := cancelledAfterStart_eq_ok.mp hr
    obtain rfl := Raw.of_injective hc
    exact hnone hev

end Report

/-- **Every honest outcome of a started process can be reported, except a lost stream together
with a failed cleanup**: that one no factory accepts. -/
theorem reportable_iff (q : ExecutionRequest) (p : BackendCapabilityProfile)
    (i : InterpreterIdentity) (t : ProcessTermination) (o e : Option StreamCapture)
    (established : List (Raw ExecutionGuarantee)) (c : CleanupOutcome)
    (atHand : Option CancellationToken) (d : Str)
    (h : HonestOutcome q p i t o e established c atHand) :
    Reportable q p i t o e established c atHand d ↔ ¬ (StreamLost q o e ∧ c = .failed) := by
  constructor
  · rintro hrep ⟨hlost, rfl⟩
    exact not_reportable_of_lost_failed hlost hrep
  · intro hnot
    by_cases hlost : StreamLost q o e
    · -- a lost stream: cleanup was verified
      obtain rfl : c = .verified := h.cleanup_reported.resolve_right (fun hc => hnot ⟨hlost, hc⟩)
      refine FailureEvidence.reportable (f := .logCaptureFailed)
        ⟨h.toStartedEvidence, fun hboth => ?_, by simp, by simp, fun _ => rfl⟩
      exact not_streamLost.mpr ⟨fun _ => hboth.2.1, fun _ => hboth.2.2.2⟩ hlost
    · rcases h.cleanup_reported with rfl | rfl
      · exact h.reportable_of_complete hlost
      · exact FailureEvidence.reportable (f := .cleanupFailed)
          ⟨h.toStartedEvidence, rfl, by simp, fun _ => hlost, by simp⟩

end Acceptance

open Sample in
/-- With a failed cleanup and no requested stream, exit status zero can be reported. -/
theorem reportable_iff_discard :
    HonestOutcome (request .discard) (profile (request .discard)) (request .discard).interpreter
        .exitedZero none none (beforeStart.map Raw.of) .failed none ∧
      (Reportable (request .discard) (profile (request .discard)) (request .discard).interpreter
          .exitedZero none none (beforeStart.map Raw.of) .failed none diagnostic ↔
        ¬ (StreamLost (request .discard) none none ∧ CleanupOutcome.failed = .failed)) :=
  have honest : HonestOutcome (request .discard) (profile (request .discard))
      (request .discard).interpreter .exitedZero none none (beforeStart.map Raw.of) .failed none :=
    ⟨started_cleanup_failed, Or.inr rfl, by simp [ProcessTermination.exitedZero],
      by simp [ProcessTermination.exitedZero]⟩
  ⟨honest, reportable_iff _ _ _ _ _ _ _ _ _ _ honest⟩

open Sample in
/-- Standard output was requested and lost, cleanup failed, and the process exited with status
zero: an honest outcome without a factory. -/
theorem honest_not_reportable :
    HonestOutcome (request .captureComplete) (profile (request .captureComplete))
        (request .captureComplete).interpreter .exitedZero none none (beforeStart.map Raw.of)
        .failed none ∧
      ¬ Reportable (request .captureComplete) (profile (request .captureComplete))
        (request .captureComplete).interpreter .exitedZero none none (beforeStart.map Raw.of)
        .failed none diagnostic := by
  refine ⟨⟨⟨profile_supports _, rfl, ⟨by simp, by simp⟩, fun v => ?_⟩, Or.inr rfl,
    by simp [ProcessTermination.exitedZero], by simp [ProcessTermination.exitedZero]⟩,
    not_reportable_of_lost_failed (Or.inl ⟨rfl, rfl⟩)⟩
  rw [remainingGuarantees, required_captureComplete]
  rfl

section Acceptance

variable [External]

/-! ## 6. What a started process has established

The other side of the same rules: on a result that was built, the missing guarantees can be told
from the captures and the cleanup. -/

/-- **On a started result the established guarantees follow from the rest**: which streams were
captured and how cleanup ended say which required guarantees are missing, and the failure kind
says why. -/
structure Determined (r : ExecutionResult) : Prop where
  increasing : r.establishedGuarantees.Pairwise (· < ·)
  established : ∀ g, g ∈ r.establishedGuarantees ↔ g ∈ r.request.requiredGuarantees ∧
    ¬ (g = .completeStdoutCapture ∧ r.standardOutput = none) ∧
    ¬ (g = .completeStderrCapture ∧ r.standardError = none) ∧
    ¬ (g = .cleanupVerified ∧ r.cleanup = .failed)
  cleanup : r.cleanup = .failed ↔ r.failure = some .cleanupFailed
  captures : StreamLost r.request r.standardOutput r.standardError →
    r.failure = some .logCaptureFailed

section Started

variable {q : ExecutionRequest} {p : BackendCapabilityProfile} {i : InterpreterIdentity}
  {t : ProcessTermination} {o e : Option StreamCapture}
  {established : List (Raw ExecutionGuarantee)} {c : CleanupOutcome} {f : ExecutionFailureKind}
  {admitted : Bool}

theorem kept_iff (hreported : c ≠ .notRequired) {g : ExecutionGuarantee} :
    kept o.isSome e.isSome (c = .verified) g = true ↔
      ¬ (g = .completeStdoutCapture ∧ o = none) ∧ ¬ (g = .completeStderrCapture ∧ e = none) ∧
        ¬ (g = .cleanupVerified ∧ c = .failed) := by
  cases g with
  | completeStdoutCapture => cases o <;> simp [kept]
  | completeStderrCapture => cases e <;> simp [kept]
  | cleanupVerified =>
    cases c with
    | notRequired => exact absurd rfl hreported
    | verified => simp [kept]
    | failed => simp [kept]
  | _ => simp [kept]

/-- A failed cleanup is reported as that and as nothing else, -/
theorem FailureEvidence.cleanup_failed_iff
    (h : FailureEvidence q p i t o e established c f admitted) :
    c = .failed ↔ f = .cleanupFailed := by
  constructor
  · intro hfailed
    by_contra hne
    have hverified := h.cleaned hne
    exact absurd (hfailed.symm.trans hverified) (by simp)
  · rintro rfl
    exact h.shown

/-- and a lost stream as a lost log. -/
theorem FailureEvidence.logCaptureFailed_of_lost
    (h : FailureEvidence q p i t o e established c f admitted) (hlost : StreamLost q o e) :
    f = .logCaptureFailed := by
  by_contra hne
  exact h.captured hne hlost

/-- A sealed result with the remaining guarantees, when its failure accounts for its cleanup and
its captures. -/
theorem determined_sealed {status : ExecutionStatus} {failure : Option ExecutionFailureKind}
    {d : Str} (hreported : c ≠ .notRequired)
    (hcleanup : c = .failed ↔ failure = some .cleanupFailed)
    (hcaptures : StreamLost q o e → failure = some .logCaptureFailed) :
    Determined (.sealed status .started q p (some i) (some t) o e (remainingGuarantees q o e c) c
      failure d) where
  increasing := remaining_strict
  established := by
    intro g
    exact mem_remaining.trans (and_congr_right (fun _ => kept_iff hreported))
  cleanup := hcleanup
  captures := hcaptures

theorem FailureEvidence.determined {d : Str}
    (h : FailureEvidence q p i t o e established c f admitted) :
    Determined (.sealed .failed .started q p (some i) (some t) o e (remainingGuarantees q o e c) c
      (some f) d) := by
  refine determined_sealed h.cleanup_reported ?_ ?_
  · rw [h.cleanup_failed_iff, Option.some.injEq]
  · intro hlost
    rw [h.logCaptureFailed_of_lost hlost]

end Started

/-- **Every started result is determined**, whichever of the three factories built it. -/
theorem started_determined (r : ExecutionResult) (hbuilt : Built r)
    (hstarted : r.startState = .started) : Determined r := by
  cases hbuilt.evidence with
  | failedBeforeStart kind evidence supported =>
    exact absurd hstarted (by simp [ExecutionResult.sealed])
  | cancelledBeforeStart enabled evidence supported established =>
    exact absurd hstarted (by simp [ExecutionResult.sealed])
  | succeeded evidence captured =>
    rw [← remaining_of_complete captured]
    refine determined_sealed (by simp) (by simp) ?_
    intro hlost
    exact absurd hlost captured
  | failedAfterStart evidence => exact evidence.determined
  | cancelledAfterStart enabled evidence => exact evidence.determined

end Acceptance

open Sample in
/-- The report of a failed cleanup. -/
theorem started_determined_cleanup_failed :
    Built (cleanupFailedResult .exitedZero diagnostic) ∧
      (cleanupFailedResult .exitedZero diagnostic).startState = .started ∧
      Determined (cleanupFailedResult .exitedZero diagnostic) := by
  have hbuilt : Built (cleanupFailedResult .exitedZero diagnostic) :=
    ⟨_, run_cleanupFailedCall .exitedZero diagnostic⟩
  exact ⟨hbuilt, rfl, started_determined _ hbuilt rfl⟩

end Pkgexec
