/-
# Laws about two runs

What does not change when the arguments change in a way that should not matter.

The order of a declaration: layouts, environments, credentials, concrete resources, profiles,
requests and results come from lists that a caller writes down in some order.  The functions
sort them before they look for repetitions, and every later check and every hash is about the
sorted list; so the outcome, down to the message of an error, is a function of that list
(`declaration_order_free`).  Materializations alone are sorted by a part of themselves, and equal
keys could come in any order, but then the outcome is an error that names neither.

The width of a profile: a factory asks of a profile only that it contains something, so what it
accepts for a profile it accepts for every wider one (`widening`).
-/
import Pkgexec.Resources
import Pkgexec.ResultCodec

namespace Pkgexec

open Bytes Ranges

/-! ## 1. Sorted vectors

Whatever order a list was given in, sorting it gives one list. -/

theorem Vec.sorted_eq {α : Type} [LinearOrder α] {v w : Vec α} (h : v.val.Perm w.val) :
    Vec.sorted v = Vec.sorted w :=
  Subtype.ext (sort_eq_of_perm h)

/-! ## 2. Sealed policies

A sealed policy carries proofs about the list it was sorted from.  They are set aside first, and
then the two sorted lists are one. -/

section Policies

variable [External]

theorem ResourceLayout.seal_eq_of_perm {bindings bindings' : Vec ResourceBinding}
    (h : bindings.val.Perm bindings'.val) (wd : ResourceSlot) :
    ResourceLayout.seal bindings wd = ResourceLayout.seal bindings' wd := by
  have hsorted := Vec.sorted_eq h
  have hnil : (bindings.val = []) = (bindings'.val = []) := by
    apply propext
    constructor
    · intro hempty
      rw [hempty] at h
      exact h.nil_eq.symm
    · intro hempty
      rw [hempty] at h
      exact h.eq_nil
  unfold ResourceLayout.seal
  simp only [hnil]
  generalize_proofs
  generalize Vec.sorted bindings = sorted at *
  subst hsorted
  rfl

theorem EnvironmentPolicy.hermetic_eq_of_perm {vars vars' : Vec EnvironmentVariable}
    (h : vars.val.Perm vars'.val) (path : Vec LogicalPath) (home tmp : LogicalPath)
    (parallelism mask : UInt32) (epoch : Option Int64) (network : Raw NetworkPolicy)
    (input : Raw StdinPolicy) (output error : Raw StreamPolicy) :
    EnvironmentPolicy.hermetic path home tmp parallelism mask epoch network input output error
        vars =
      EnvironmentPolicy.hermetic path home tmp parallelism mask epoch network input output error
        vars' := by
  have hsorted := Vec.sorted_eq h
  unfold EnvironmentPolicy.hermetic
  generalize_proofs
  generalize Vec.sorted vars = sorted at *
  subst hsorted
  rfl

theorem CredentialPolicy.fixed_eq_of_perm {groups groups' : Vec UInt64}
    (h : groups.val.Perm groups'.val) (userId groupId : UInt64) (noNewPrivileges : Bool) :
    CredentialPolicy.fixed userId groupId groups noNewPrivileges =
      CredentialPolicy.fixed userId groupId groups' noNewPrivileges := by
  have hsorted := Vec.sorted_eq h
  unfold CredentialPolicy.fixed
  generalize_proofs
  generalize Vec.sorted groups = sorted at *
  subst hsorted
  rfl

end Policies

/-! ## 3. Concrete resources

The sort may leave equal resources in any order.  With no two equal it has one outcome, and
otherwise the call fails with a message that names neither. -/

namespace ExecutionResources

section Admission

variable [Filesystem] [External] {std std' : ResourceSort} {q : ExecutionRequest}
  {rv : RootViewIdentity} {path : Filesystem.Path} {ms ms' : Vec ResourceMaterialization}

/-- Two materializations of one resource: an error, whichever of them was found. -/
theorem admitResources_of_repeated (h : ¬ (ms.val.map (·.resource)).Nodup) :
    admitResources std q rv path ms =
      if rv ≠ q.rootView then
        raise .resourceMismatch (text "concrete root view does not match the sealed request")
      else if Filesystem.isEmpty path = false ∧ Filesystem.isAbsolute path = true then
        raise .duplicateResource (text "duplicate concrete execution resource identity")
      else raise .invalidPath (text "concrete root-view path must be absolute") := by
  unfold admitResources
  split
  · rfl
  split
  · split
    · rfl
    · rename_i hnone
      exact absurd (sameResource_none_iff.mp hnone) h
  · rfl

/-- Neither the order of the materializations nor the algorithm that sorts them matters. -/
theorem admitResources_eq_of_perm (h : ms.val.Perm ms'.val) :
    admitResources std q rv path ms = admitResources std' q rv path ms' := by
  by_cases hnodup : (ms.val.map (·.resource)).Nodup
  · have hsorted : std.sort ms.val = std'.sort ms'.val := std.sort_eq std' h hnodup
    unfold admitResources
    generalize_proofs
    generalize std.sort ms.val = sorted at *
    subst hsorted
    rfl
  · have hnodup' : ¬ (ms'.val.map (·.resource)).Nodup := by
      intro hnd
      exact hnodup ((h.map _).nodup_iff.mpr hnd)
    rw [admitResources_of_repeated hnodup, admitResources_of_repeated hnodup']

end Admission

end ExecutionResources

/-! ## 4. Guarantee lists

A list of guarantees is normalized before it is used, so only its elements matter: neither their
order nor how often they occur. -/

section Guarantees

variable {gs gs' : List (Raw ExecutionGuarantee)}

/-- A list with the elements of a list of enumerators is one. -/
theorem Raw.exists_map_of {E : Type} [DecidableEq E] [Enumeration E] {es : List E}
    {values : List (Raw E)} (h : ∀ v, v ∈ es.map Raw.of ↔ v ∈ values) :
    ∃ fs : List E, values = fs.map Raw.of ∧ ∀ e, e ∈ es ↔ e ∈ fs := by
  rcases Raw.forall_of_or_exists values with ⟨fs, rfl⟩ | ⟨v, hv, hbad⟩
  · refine ⟨fs, rfl, ?_⟩
    intro e
    have he := h (.of e)
    rwa [List.mem_map_of_injective Raw.of_injective,
      List.mem_map_of_injective Raw.of_injective] at he
  · obtain ⟨e, -, rfl⟩ := List.mem_map.mp ((h v).mpr hv)
    exact absurd rfl (hbad e)

theorem normalizeGuarantees_eq_of_mem_iff (h : ∀ v, v ∈ gs ↔ v ∈ gs') (code : ErrorCode)
    (subject : String) :
    normalizeGuarantees gs code subject = normalizeGuarantees gs' code subject := by
  rcases Raw.forall_of_or_exists gs with ⟨es, rfl⟩ | ⟨v, hv, hbad⟩
  · obtain ⟨fs, rfl, hmem⟩ := Raw.exists_map_of h
    have hnormal : normalize es = normalize fs := normalize_eq_iff.mpr hmem
    simp only [normalizeGuarantees, Raw.requireAll_map_of]
    exact congrArg Except.ok hnormal
  · rw [normalizeGuarantees, normalizeGuarantees, Raw.requireAll_eq_error ⟨v, hv, hbad⟩,
      Raw.requireAll_eq_error ⟨v, (h v).mp hv, hbad⟩]

variable [External]

theorem deriveRequiredGuarantees_eq_of_mem_iff (h : ∀ v, v ∈ gs ↔ v ∈ gs')
    (resources : ResourceLayout) (environment : EnvironmentPolicy) (limits : ResourceLimits)
    (cancellation : CancellationPolicy) :
    deriveRequiredGuarantees resources environment limits cancellation gs =
      deriveRequiredGuarantees resources environment limits cancellation gs' := by
  rcases Raw.forall_of_or_exists gs with ⟨es, rfl⟩ | ⟨v, hv, hbad⟩
  · obtain ⟨fs, rfl, hmem⟩ := Raw.exists_map_of h
    have hnormal : normalize (es ++ derivedGuarantees resources environment limits cancellation) =
        normalize (fs ++ derivedGuarantees resources environment limits cancellation) := by
      apply normalize_eq_iff.mpr
      intro g
      rw [List.mem_append, List.mem_append, hmem]
    rw [deriveRequiredGuarantees_map_of, deriveRequiredGuarantees_map_of, hnormal]
  · rw [deriveRequiredGuarantees, deriveRequiredGuarantees,
      Raw.requireAll_eq_error ⟨v, hv, hbad⟩, Raw.requireAll_eq_error ⟨v, (h v).mp hv, hbad⟩]

theorem BackendCapabilityProfile.seal_eq_of_mem_iff (h : ∀ v, v ∈ gs ↔ v ∈ gs')
    (backend : BackendIdentity) :
    BackendCapabilityProfile.seal backend gs = BackendCapabilityProfile.seal backend gs' := by
  have hnormal := normalizeGuarantees_eq_of_mem_iff h .invalidCapabilityProfile
    "backend capability profile"
  unfold BackendCapabilityProfile.seal
  generalize_proofs
  generalize normalizeGuarantees gs .invalidCapabilityProfile "backend capability profile" =
    normalized at *
  subst hnormal
  rfl

theorem ExecutionRequest.seal_eq_of_mem_iff (h : ∀ v, v ∈ gs ↔ v ∈ gs') (program : Program)
    (purpose : ExecutionPurpose) (interpreter : InterpreterIdentity) (rootView : RootViewIdentity)
    (resources : ResourceLayout) (environment : EnvironmentPolicy) (credentials : CredentialPolicy)
    (limits : ResourceLimits) (cancellation : CancellationPolicy) :
    ExecutionRequest.seal program purpose interpreter rootView resources environment credentials
        limits cancellation gs =
      ExecutionRequest.seal program purpose interpreter rootView resources environment credentials
        limits cancellation gs' := by
  have hderived :=
    deriveRequiredGuarantees_eq_of_mem_iff h resources environment limits cancellation
  unfold ExecutionRequest.seal
  generalize_proofs
  generalize deriveRequiredGuarantees resources environment limits cancellation gs = derived at *
  subst hderived
  rfl

/-- The call with another list of established guarantees. -/
def FactoryCall.claiming (established : List (Raw ExecutionGuarantee)) : FactoryCall → FactoryCall
  | failedBeforeStart q p failure _ d => failedBeforeStart q p failure established d
  | cancelledBeforeStart q p token _ d => cancelledBeforeStart q p token established d
  | succeeded q p i o e _ d => succeeded q p i o e established d
  | failedAfterStart q p i t o e _ cleanup failure d =>
    failedAfterStart q p i t o e established cleanup failure d
  | cancelledAfterStart q p token i o e _ cleanup d =>
    cancelledAfterStart q p token i o e established cleanup d

/-- A factory normalizes the list before anything else looks at it. -/
theorem FactoryCall.run_claiming_eq (h : ∀ v, v ∈ gs ↔ v ∈ gs') (call : FactoryCall) :
    (call.claiming gs).run = (call.claiming gs').run := by
  have hnormal := normalizeGuarantees_eq_of_mem_iff h .inconsistentResult "execution result"
  have himpl : ∀ q p i t o e cleanup failure admitted d,
      ExecutionResult.failedAfterStartImpl q p i t o e gs cleanup failure admitted d =
        ExecutionResult.failedAfterStartImpl q p i t o e gs' cleanup failure admitted d := by
    intro q p i t o e cleanup failure admitted d
    rw [ExecutionResult.failedAfterStartImpl, ExecutionResult.failedAfterStartImpl, hnormal]
  cases call with
  | failedBeforeStart q p failure established d =>
    simp only [claiming, run]
    rw [ExecutionResult.failedBeforeStart, ExecutionResult.failedBeforeStart, hnormal]
  | cancelledBeforeStart q p token established d =>
    simp only [claiming, run]
    rw [ExecutionResult.cancelledBeforeStart, ExecutionResult.cancelledBeforeStart, hnormal]
  | succeeded q p i o e established d =>
    simp only [claiming, run]
    rw [ExecutionResult.succeeded, ExecutionResult.succeeded, hnormal]
  | failedAfterStart q p i t o e established cleanup failure d =>
    exact himpl q p i t o e cleanup failure false d
  | cancelledAfterStart q p token i o e established cleanup d =>
    simp only [claiming, run]
    rw [ExecutionResult.cancelledAfterStart, ExecutionResult.cancelledAfterStart, himpl]

end Guarantees

/-! ## 5. The order of a declaration

All of this in one statement. -/

section Order

variable [Filesystem] [External]

/-- **Declaration order never matters.**  Permuting the bindings of a layout, the additional
variables of an environment, the supplementary groups of a credential policy or the concrete
resources of an admission leaves the outcome as it is; and so does replacing a list of
guarantees, of a profile, a request or a result, by any list of the same elements. -/
theorem declaration_order_free :
    (∀ (bindings bindings' : Vec ResourceBinding) (wd : ResourceSlot),
      bindings.val.Perm bindings'.val →
        ResourceLayout.seal bindings wd = ResourceLayout.seal bindings' wd) ∧
    (∀ (path : Vec LogicalPath) (home tmp : LogicalPath) (parallelism mask : UInt32)
        (epoch : Option Int64) (network : Raw NetworkPolicy) (input : Raw StdinPolicy)
        (output error : Raw StreamPolicy) (vars vars' : Vec EnvironmentVariable),
      vars.val.Perm vars'.val →
        EnvironmentPolicy.hermetic path home tmp parallelism mask epoch network input output error
            vars =
          EnvironmentPolicy.hermetic path home tmp parallelism mask epoch network input output
            error vars') ∧
    (∀ (userId groupId : UInt64) (groups groups' : Vec UInt64) (noNewPrivileges : Bool),
      groups.val.Perm groups'.val →
        CredentialPolicy.fixed userId groupId groups noNewPrivileges =
          CredentialPolicy.fixed userId groupId groups' noNewPrivileges) ∧
    (∀ (std std' : ExecutionResources.ResourceSort) (q : ExecutionRequest) (rv : RootViewIdentity)
        (path : Filesystem.Path) (ms ms' : Vec ResourceMaterialization),
      ms.val.Perm ms'.val →
        ExecutionResources.admitResources std q rv path ms =
          ExecutionResources.admitResources std' q rv path ms') ∧
    (∀ gs gs' : List (Raw ExecutionGuarantee), (∀ v, v ∈ gs ↔ v ∈ gs') →
      (∀ backend, BackendCapabilityProfile.seal backend gs =
        BackendCapabilityProfile.seal backend gs') ∧
      (∀ (program : Program) (purpose : ExecutionPurpose) (interpreter : InterpreterIdentity)
          (rootView : RootViewIdentity) (resources : ResourceLayout)
          (environment : EnvironmentPolicy) (credentials : CredentialPolicy)
          (limits : ResourceLimits) (cancellation : CancellationPolicy),
        ExecutionRequest.seal program purpose interpreter rootView resources environment
            credentials limits cancellation gs =
          ExecutionRequest.seal program purpose interpreter rootView resources environment
            credentials limits cancellation gs') ∧
      ∀ call : FactoryCall, (call.claiming gs).run = (call.claiming gs').run ∧
        ∀ r r', (call.claiming gs).run = .ok r → (call.claiming gs').run = .ok r' →
          encodeExecutionResult r = encodeExecutionResult r') := by
  refine ⟨?_, ?_, ?_, ?_, ?_⟩
  · intro bindings bindings' wd h
    exact ResourceLayout.seal_eq_of_perm h wd
  · intro path home tmp parallelism mask epoch network input output error vars vars' h
    exact EnvironmentPolicy.hermetic_eq_of_perm h ..
  · intro userId groupId groups groups' noNewPrivileges h
    exact CredentialPolicy.fixed_eq_of_perm h ..
  · intro std std' q rv path ms ms' h
    exact ExecutionResources.admitResources_eq_of_perm h
  · intro gs gs' h
    refine ⟨BackendCapabilityProfile.seal_eq_of_mem_iff h, ?_, ?_⟩
    · intro program purpose interpreter rootView resources environment credentials limits
        cancellation
      exact ExecutionRequest.seal_eq_of_mem_iff h ..
    · intro call
      have hrun := FactoryCall.run_claiming_eq h call
      refine ⟨hrun, ?_⟩
      intro r r' hr hr'
      obtain rfl : r = r' := Except.ok.inj (hr.symm.trans (hrun.trans hr'))
      rfl

end Order

/-! ## 6. The width of a profile

A profile is asked for what it contains, by `supports` and by `require_subset`, and both grow with
it. -/

section Width

variable [External]

/-- The call with another profile. -/
def FactoryCall.onProfile (backend : BackendCapabilityProfile) : FactoryCall → FactoryCall
  | failedBeforeStart q _ failure established d =>
    failedBeforeStart q backend failure established d
  | cancelledBeforeStart q _ token established d =>
    cancelledBeforeStart q backend token established d
  | succeeded q _ i o e established d => succeeded q backend i o e established d
  | failedAfterStart q _ i t o e established cleanup failure d =>
    failedAfterStart q backend i t o e established cleanup failure d
  | cancelledAfterStart q _ token i o e established cleanup d =>
    cancelledAfterStart q backend token i o e established cleanup d

section Wider

variable {p p' : BackendCapabilityProfile} (hwider : ∀ g ∈ p.guarantees, g ∈ p'.guarantees)
  {q : ExecutionRequest} {i : InterpreterIdentity} {t : ProcessTermination}
  {o e : Option StreamCapture} {established : List (Raw ExecutionGuarantee)}
  {gs : List ExecutionGuarantee} {c : CleanupOutcome} {f : ExecutionFailureKind} {admitted : Bool}

include hwider

theorem BackendCapabilityProfile.supports_of_wider (h : p.supports q = true) :
    p'.supports q = true := by
  rw [supports_iff] at h ⊢
  intro g hg
  exact hwider g (h g hg)

/-! The evidence that is asked for mentions the profile as something that contains, and nowhere
else. -/

theorem PreStartEvidence.of_wider (h : PreStartEvidence q p established gs) :
    PreStartEvidence q p' established gs :=
  { h with advertised := fun g hg => hwider g (h.advertised g hg) }

theorem StartedEvidence.of_wider (h : StartedEvidence q p i o e established c) :
    StartedEvidence q p' i o e established c :=
  { h with supported := BackendCapabilityProfile.supports_of_wider hwider h.supported }

theorem FailureEvidence.of_wider (h : FailureEvidence q p i t o e established c f admitted) :
    FailureEvidence q p' i t o e established c f admitted :=
  { h with toStartedEvidence := h.toStartedEvidence.of_wider hwider }

/-- What a call seals for a profile it seals for a wider one. -/
theorem FactoryCall.run_onProfile_of_wider {call : FactoryCall} {r : ExecutionResult}
    (h : (call.onProfile p).run = .ok r) :
    ∃ r', (call.onProfile p').run = .ok r' ∧
      r' = { r with backend := p', identity := r'.identity } := by
  cases call with
  | failedBeforeStart q _ failure established d =>
    obtain ⟨f, gs, hf, hkind, hev, hsupp, rfl⟩ := failedBeforeStart_eq_ok.mp h
    have hsupp' : f ≠ .backendUnsupported → p'.supports q = true := by
      intro hne
      exact BackendCapabilityProfile.supports_of_wider hwider (hsupp hne)
    exact ⟨_, failedBeforeStart_eq_ok.mpr ⟨f, gs, hf, hkind, hev.of_wider hwider, hsupp', rfl⟩,
      rfl⟩
  | cancelledBeforeStart q _ token established d =>
    obtain ⟨gs, hcontrol, hev, hsupp, hcancel, rfl⟩ := cancelledBeforeStart_eq_ok.mp h
    have hsupp' : p'.supports q = true := BackendCapabilityProfile.supports_of_wider hwider hsupp
    exact ⟨_, cancelledBeforeStart_eq_ok.mpr
      ⟨gs, hcontrol, hev.of_wider hwider, hsupp', hcancel, rfl⟩, rfl⟩
  | succeeded q _ i o e established d =>
    obtain ⟨hev, hlost, rfl⟩ := succeeded_eq_ok.mp h
    exact ⟨_, succeeded_eq_ok.mpr ⟨hev.of_wider hwider, hlost, rfl⟩, rfl⟩
  | failedAfterStart q _ i t o e established cleanup failure d =>
    obtain ⟨f, c, hf, hc, hev, rfl⟩ := failedAfterStart_eq_ok.mp h
    exact ⟨_, failedAfterStart_eq_ok.mpr ⟨f, c, hf, hc, hev.of_wider hwider, rfl⟩, rfl⟩
  | cancelledAfterStart q _ token i o e established cleanup d =>
    obtain ⟨c, hc, hcontrol, hev, rfl⟩ := cancelledAfterStart_eq_ok.mp h
    exact ⟨_, cancelledAfterStart_eq_ok.mpr ⟨c, hc, hcontrol, hev.of_wider hwider, rfl⟩, rfl⟩

end Wider

/-- **Widening a profile never refuses evidence.**  A wider profile supports every request the
narrower one supports, and every call a factory accepts for the narrower one it accepts for the
wider one, with a result that differs in the profile and the identity only. -/
theorem widening (p p' : BackendCapabilityProfile)
    (hwider : ∀ g ∈ p.guarantees, g ∈ p'.guarantees) :
    (∀ q : ExecutionRequest, p.supports q = true → p'.supports q = true) ∧
    (∀ (call : FactoryCall) (r : ExecutionResult), (call.onProfile p).run = .ok r →
      ∃ r', (call.onProfile p').run = .ok r' ∧
        r' = { r with backend := p', identity := r'.identity }) := by
  constructor
  · intro q hq
    exact BackendCapabilityProfile.supports_of_wider hwider hq
  · intro call r hr
    exact FactoryCall.run_onProfile_of_wider hwider hr

end Width

open Sample in
/-- A profile that also captures standard output seals the report of a failed cleanup. -/
theorem widening_captureComplete :
    ∃ r', ((cleanupFailedCall .exitedZero diagnostic).onProfile
        (profile (request .captureComplete))).run = .ok r' ∧
      r' = { cleanupFailedResult .exitedZero diagnostic with
        backend := profile (request .captureComplete), identity := r'.identity } := by
  have hwider : ∀ g ∈ (profile (request .discard)).guarantees,
      g ∈ (profile (request .captureComplete)).guarantees := by
    change ∀ g ∈ (request .discard).requiredGuarantees,
      g ∈ (request .captureComplete).requiredGuarantees
    rw [required_discard, required_captureComplete]
    decide
  exact (widening _ _ hwider).2 _ _ (run_cleanupFailedCall .exitedZero diagnostic)

end Pkgexec
