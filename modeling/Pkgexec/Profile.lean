/-
# Guarantee sets and backend profiles

The part of `src/result.cpp` that handles lists of guarantees: a caller's list is checked,
sorted and freed of repetitions, and from then on `std::binary_search` and `std::includes`
answer for the set it stands for.

A backend profile is a sealed guarantee set.  It obeys the rule that the aggregate guarantee
`resource_limits` stands together with at least one exact limit kind (`LimitShape`), and so
does what a request requires: hence a profile can be sealed on it
(`required_guarantees_exact`).
-/
import Pkgexec.Request

namespace Pkgexec

open Bytes Ranges

/-! ## 1. Guarantee sets

After `normalize_guarantees` a list is increasing, and the three searches of the standard library
are questions about membership.  The rule on limits joins the aggregate guarantee to the exact
ones. -/

/-- `normalize_guarantees`. -/
def normalizeGuarantees (values : List (Raw ExecutionGuarantee)) (code : ErrorCode)
    (subject : String) : Except Error (List ExecutionGuarantee) := do
  let values ← Raw.requireAll values code
    (text subject ++ text " contains an unsupported execution guarantee")
  return normalize values

def hasGuarantee (values : List ExecutionGuarantee) (value : ExecutionGuarantee) : Bool :=
  binarySearch values value

/-- `guarantee_for`. -/
def guaranteeFor : ResourceLimitKind → ExecutionGuarantee
  | .cpuTime => .cpuTimeLimit
  | .addressSpace => .addressSpaceLimit
  | .fileSize => .fileSizeLimit
  | .openFiles => .openFilesLimit
  | .processCount => .processCountLimit

def kindSpecificLimitGuarantee : ExecutionGuarantee → Bool
  | .cpuTimeLimit => true
  | .addressSpaceLimit => true
  | .fileSizeLimit => true
  | .openFilesLimit => true
  | .processCountLimit => true
  | _ => false

def requireLimitGuaranteeShape (guarantees : List ExecutionGuarantee) (code : ErrorCode)
    (subject : String) : Except Error Unit :=
  refuseIf (hasGuarantee guarantees .resourceLimits ≠ guarantees.any kindSpecificLimitGuarantee)
    code (text subject ++ text " must combine resource-limits with at least one exact limit kind")

/-- **The aggregate and the exact limit guarantees occur together.** -/
def LimitShape (guarantees : List ExecutionGuarantee) : Prop :=
  .resourceLimits ∈ guarantees ↔ ∃ kind, guaranteeFor kind ∈ guarantees

/-- A checked list is the increasing list of the values that were passed. -/
theorem normalizeGuarantees_eq_ok {values : List (Raw ExecutionGuarantee)} {code : ErrorCode}
    {subject : String} {gs : List ExecutionGuarantee} :
    normalizeGuarantees values code subject = .ok gs ↔
      gs.Pairwise (· < ·) ∧ ∀ v, v ∈ values ↔ v ∈ gs.map Raw.of := by
  simp only [normalizeGuarantees, bind_eq_ok, Raw.requireAll_eq_ok]
  constructor
  · rintro ⟨es, rfl, hgs⟩
    obtain rfl : normalize es = gs := Except.ok.inj hgs
    exact ⟨normalize_strict es, fun v => by simp⟩
  · rintro ⟨hstrict, hmem⟩
    rcases Raw.forall_of_or_exists values with ⟨es, rfl⟩ | ⟨v, hv, hbad⟩
    · refine ⟨es, rfl, congrArg Except.ok (normalize_eq_of_strict hstrict (fun g => ?_))⟩
      have hg := hmem (.of g)
      rwa [List.mem_map_of_injective Raw.of_injective,
        List.mem_map_of_injective Raw.of_injective] at hg
    · obtain ⟨g, -, rfl⟩ := List.mem_map.mp ((hmem v).mp hv)
      exact absurd rfl (hbad g)

/-- `std::binary_search` finds what is in the list, -/
theorem hasGuarantee_iff {gs : List ExecutionGuarantee} (h : gs.Pairwise (· < ·))
    {g : ExecutionGuarantee} : hasGuarantee gs g = true ↔ g ∈ gs :=
  binarySearch_iff (strict_sorted h)

/-- and its answer is known from what decides membership. -/
theorem hasGuarantee_eq {gs : List ExecutionGuarantee} (h : gs.Pairwise (· < ·))
    {g : ExecutionGuarantee} {b : Bool} : hasGuarantee gs g = b ↔ (g ∈ gs ↔ b = true) := by
  rw [Bool.eq_iff_iff, hasGuarantee_iff h]

/-- The exact limit guarantees are those of the limit kinds. -/
theorem kindSpecificLimitGuarantee_iff {g : ExecutionGuarantee} :
    kindSpecificLimitGuarantee g = true ↔ ∃ kind, g = guaranteeFor kind := by
  constructor
  · intro h
    cases g with
    | cpuTimeLimit => exact ⟨.cpuTime, rfl⟩
    | addressSpaceLimit => exact ⟨.addressSpace, rfl⟩
    | fileSizeLimit => exact ⟨.fileSize, rfl⟩
    | openFilesLimit => exact ⟨.openFiles, rfl⟩
    | processCountLimit => exact ⟨.processCount, rfl⟩
    | _ => exact absurd h (by simp [kindSpecificLimitGuarantee])
  · rintro ⟨kind, rfl⟩
    cases kind <;> rfl

/-- On an increasing list the check is the rule. -/
theorem requireLimitGuaranteeShape_eq_ok {gs : List ExecutionGuarantee} (h : gs.Pairwise (· < ·))
    {code : ErrorCode} {subject : String} {u : Unit} :
    requireLimitGuaranteeShape gs code subject = .ok u ↔ LimitShape gs := by
  have hany : gs.any kindSpecificLimitGuarantee = true ↔ ∃ kind, guaranteeFor kind ∈ gs := by
    simp only [List.any_eq_true, kindSpecificLimitGuarantee_iff]
    exact ⟨fun ⟨_, hg, kind, hk⟩ => ⟨kind, hk ▸ hg⟩, fun ⟨kind, hk⟩ => ⟨_, hk, kind, rfl⟩⟩
  rw [requireLimitGuaranteeShape, refuseIf_eq_ok, LimitShape, ← hany, ← hasGuarantee_iff h,
    not_not, Bool.eq_iff_iff]

/-- An increasing list of guarantees is short. -/
theorem length_le_of_strict {gs : List ExecutionGuarantee} (h : gs.Pairwise (· < ·)) :
    gs.length ≤ 18 := by
  have hnodup : gs.Nodup := h.imp ne_of_lt
  exact (hnodup.subperm (fun g _ => Enumeration.complete g)).length_le

section Profile

variable [External]

/-! ## 2. What a request requires

What is required is what is demanded, so each guarantee of a request can be traced to a field of
its policies: a limit, a stream, the cancellation mode. -/

section Required

variable {resources : ResourceLayout} {environment : EnvironmentPolicy} {limits : ResourceLimits}
  {cancellation : CancellationPolicy}

/-- The switch of `limit_requested`. -/
def limitRequested (limits : ResourceLimits) (limit : ResourceLimitKind) : Bool :=
  (limits.limit limit).isSome

/-- The guarantee of a limit is demanded when the limit is set. -/
theorem demanded_guaranteeFor {kind : ResourceLimitKind} :
    Demanded resources environment limits cancellation (guaranteeFor kind) ↔
      limitRequested limits kind = true := by
  cases kind <;> rfl

end Required

namespace ExecutionRequest

/-- The aggregate guarantee is demanded together with them. -/
theorem limitShape (q : ExecutionRequest) : LimitShape q.requiredGuarantees := by
  simp only [LimitShape, q.mem_required, demanded_guaranteeFor]
  rfl

/-- A limit that is set is required, -/
theorem guaranteeFor_mem {q : ExecutionRequest} {kind : ResourceLimitKind} :
    guaranteeFor kind ∈ q.requiredGuarantees ↔ limitRequested q.limits kind = true :=
  (q.mem_required _).trans demanded_guaranteeFor

/-- so is the capture of a stream with that policy, -/
theorem stdoutCapture_mem {q : ExecutionRequest} :
    .completeStdoutCapture ∈ q.requiredGuarantees ↔
      q.environment.standardOutput = .captureComplete :=
  q.mem_required _

theorem stderrCapture_mem {q : ExecutionRequest} :
    .completeStderrCapture ∈ q.requiredGuarantees ↔
      q.environment.standardError = .captureComplete :=
  q.mem_required _

theorem cleanupVerified_mem (q : ExecutionRequest) : .cleanupVerified ∈ q.requiredGuarantees :=
  (q.mem_required _).mpr trivial

/-- and cancellation where it is enabled. -/
theorem cancellation_mem {q : ExecutionRequest} :
    .cancellation ∈ q.requiredGuarantees ↔ q.cancellation.mode ≠ .disabled :=
  q.mem_required _

end ExecutionRequest

/-! ## 3. Profiles

A profile is a list of guarantees under an identity.  `supports` is an inclusion of increasing
lists, so it is the inclusion of what they contain. -/

/-- What `identify_profile` hashes. -/
def profilePreimage (backend : BackendIdentity) (guarantees : List ExecutionGuarantee) :
    IdentityBuilder :=
  IdentityBuilder.new "pkgexec/backend-capability-profile/v1"
    |>.addString backend.hex.val
    |>.addU64 (.ofNat guarantees.length)
    |>.addEach guarantees (fun hash guarantee => hash.addU8 (enumByte guarantee))

/-- `backend_capability_profile`. -/
structure BackendCapabilityProfile where
  backend : BackendIdentity
  guarantees : List ExecutionGuarantee
  identity : BackendCapabilityProfileIdentity
  guarantees_strict : guarantees.Pairwise (· < ·)
  limitShape : LimitShape guarantees
  identified : identity = (profilePreimage backend guarantees).finish

namespace BackendCapabilityProfile

/-- A normalized list of the right shape, with the hash of it. -/
def ofGuarantees (backend : BackendIdentity) (guarantees : List ExecutionGuarantee)
    (hstrict : guarantees.Pairwise (· < ·)) (hshape : LimitShape guarantees) :
    BackendCapabilityProfile where
  backend := backend
  guarantees := guarantees
  identity := (profilePreimage backend guarantees).finish
  guarantees_strict := hstrict
  limitShape := hshape
  identified := rfl

/-- `backend_capability_profile::supports`. -/
def supports (p : BackendCapabilityProfile) (request : ExecutionRequest) : Bool :=
  includes p.guarantees request.requiredGuarantees

/-- Every required guarantee is advertised. -/
theorem supports_iff {p : BackendCapabilityProfile} {q : ExecutionRequest} :
    p.supports q = true ↔ ∀ g ∈ q.requiredGuarantees, g ∈ p.guarantees :=
  includes_iff p.guarantees_strict q.required_strict

theorem eq_of_fields {p p' : BackendCapabilityProfile} (hbackend : p.backend = p'.backend)
    (hguarantees : p.guarantees = p'.guarantees) : p = p' := by
  obtain ⟨b, gs, i, hs, hl, hi⟩ := p
  obtain ⟨b', gs', i', hs', hl', hi'⟩ := p'
  obtain rfl : b = b' := hbackend
  obtain rfl : gs = gs' := hguarantees
  obtain rfl : i = i' := hi.trans hi'.symm
  rfl

end BackendCapabilityProfile

/-- `backend_capability_profile::seal`. -/
def BackendCapabilityProfile.seal (backend : BackendIdentity)
    (guarantees : List (Raw ExecutionGuarantee)) : Except Error BackendCapabilityProfile :=
  match hnorm : normalizeGuarantees guarantees .invalidCapabilityProfile
      "backend capability profile" with
  | .error e => .error e
  | .ok guarantees =>
    match hshape : requireLimitGuaranteeShape guarantees .invalidCapabilityProfile
        "backend capability profile" with
    | .error e => .error e
    | .ok () =>
      .ok (.ofGuarantees backend guarantees (normalizeGuarantees_eq_ok.mp hnorm).1
        ((requireLimitGuaranteeShape_eq_ok (normalizeGuarantees_eq_ok.mp hnorm).1).mp hshape))

/-- **Profiles are sealed on exactly the lists whose set has the limit shape.** -/
theorem BackendCapabilityProfile.seal_eq_ok {backend : BackendIdentity}
    {values : List (Raw ExecutionGuarantee)} {p : BackendCapabilityProfile} :
    BackendCapabilityProfile.seal backend values = .ok p ↔
      p.backend = backend ∧ ∀ v, v ∈ values ↔ v ∈ p.guarantees.map Raw.of := by
  constructor
  · intro h
    unfold BackendCapabilityProfile.seal at h
    split at h
    · exact absurd h (by simp)
    rename_i gs hnorm
    split at h
    · exact absurd h (by simp)
    obtain rfl := Except.ok.inj h
    exact ⟨rfl, (normalizeGuarantees_eq_ok.mp hnorm).2⟩
  · rintro ⟨rfl, hmem⟩
    have hnorm : normalizeGuarantees values .invalidCapabilityProfile
        "backend capability profile" = .ok p.guarantees :=
      normalizeGuarantees_eq_ok.mpr ⟨p.guarantees_strict, hmem⟩
    have hshape : requireLimitGuaranteeShape p.guarantees .invalidCapabilityProfile
        "backend capability profile" = .ok () :=
      (requireLimitGuaranteeShape_eq_ok p.guarantees_strict).mpr p.limitShape
    unfold BackendCapabilityProfile.seal
    split
    · rename_i herr
      rw [hnorm] at herr
      exact absurd herr (by simp)
    rename_i gs hgs
    obtain rfl : p.guarantees = gs := by
      rw [hnorm] at hgs
      exact Except.ok.inj hgs
    split
    · rename_i herr
      rw [hshape] at herr
      exact absurd herr (by simp)
    exact congrArg Except.ok (eq_of_fields rfl rfl)

/-! ## 4. Required guarantees are exactly what the policy demands

The derivation sorts what is demanded together with what was asked for.  As only demanded
guarantees may be asked for, the second part adds nothing. -/

/-- **Sealing a request succeeds exactly on demanded additional guarantees, and what it requires
is what the policies demand**, so additional guarantees never change a request, and a profile
can be sealed on what a request requires. -/
theorem required_guarantees_exact (program : Program) (purpose : ExecutionPurpose)
    (interpreter : InterpreterIdentity) (rootView : RootViewIdentity) (resources : ResourceLayout)
    (environment : EnvironmentPolicy) (credentials : CredentialPolicy) (limits : ResourceLimits)
    (cancellation : CancellationPolicy) (additional : List (Raw ExecutionGuarantee)) :
    ((∃ q, ExecutionRequest.seal program purpose interpreter rootView resources environment
        credentials limits cancellation additional = .ok q) ↔
      ∀ a ∈ additional, ∃ g, a = .of g ∧
        Demanded resources environment limits cancellation g) ∧
    (∀ e, ExecutionRequest.seal program purpose interpreter rootView resources environment
        credentials limits cancellation additional = .error e → e.code = .invalidPolicy) ∧
    (∀ q, ExecutionRequest.seal program purpose interpreter rootView resources environment
        credentials limits cancellation additional = .ok q →
      q.requiredGuarantees.Pairwise (· < ·) ∧
      (∀ g, g ∈ q.requiredGuarantees ↔ Demanded resources environment limits cancellation g) ∧
      ExecutionRequest.seal program purpose interpreter rootView resources environment
        credentials limits cancellation [] = .ok q ∧
      ∀ backend, ∃ p, BackendCapabilityProfile.seal backend (q.requiredGuarantees.map Raw.of)
          = .ok p ∧
        p.backend = backend ∧ p.guarantees = q.requiredGuarantees ∧ p.supports q = true) := by
  by_cases hall : ∀ a ∈ additional, ∃ g, a = .of g ∧
      Demanded resources environment limits cancellation g
  · have hderive := deriveRequiredGuarantees_ok hall
    obtain ⟨q, hq⟩ : ∃ q, ExecutionRequest.seal program purpose interpreter rootView resources
        environment credentials limits cancellation additional = .ok q :=
      ExecutionRequest.seal_of_derive hderive
    refine ⟨iff_of_true ⟨q, hq⟩ hall, fun e he => ?_, fun r hr => ?_⟩
    · rw [hq] at he
      exact absurd he (by simp)
    · obtain ⟨rfl, rfl, rfl, rfl, rfl, rfl, rfl, rfl, rfl⟩ := ExecutionRequest.seal_ok hr
      refine ⟨r.required_strict, r.mem_required, r.seal_eq_self (by simp), fun backend => ?_⟩
      refine ⟨.ofGuarantees backend r.requiredGuarantees r.required_strict r.limitShape,
        BackendCapabilityProfile.seal_eq_ok.mpr ⟨rfl, fun _ => Iff.rfl⟩, rfl, rfl, ?_⟩
      exact BackendCapabilityProfile.supports_iff.mpr (fun _ hg => hg)
  · obtain ⟨e, he, hcode⟩ := deriveRequiredGuarantees_raises hall
    have hseal : ExecutionRequest.seal program purpose interpreter rootView resources environment
        credentials limits cancellation additional = .error e :=
      ExecutionRequest.seal_of_derive_error he
    refine ⟨iff_of_false (fun ⟨q, hq⟩ => ?_) hall, fun e' he' => ?_, fun q hq => ?_⟩
    · rw [hseal] at hq
      exact absurd hq (by simp)
    · rw [hseal] at he'
      rwa [← Except.error.inj he']
    · rw [hseal] at hq
      exact absurd hq (by simp)

end Profile

end Pkgexec
