/-
# Execution requests

`src/request.cpp`: the guarantees a request requires are derived from its policies, and the
request is sealed with the hash of its content.

The source says twice what a policy demands: `derive_required_guarantees` pushes the demanded
guarantees and `require_consistent_guarantee` refuses one that is not demanded.  `Demanded` is
the statement of it, and `mem_derivedGuarantees` and `consistentGuarantee_iff` say that both
passages agree with it, whatever the policies are.
-/
import Pkgexec.Policy

namespace Pkgexec

open Bytes Ranges

/-! ## 1. The guarantees a policy demands

The source walks through the policies twice, once to push what they demand and once, in a switch
over a guarantee, to see whether they demand it.  Both are stated here as they stand there, and
then compared with `Demanded`, which is one line for each guarantee. -/

/-- What a binding's access pushes. -/
def accessGuarantee (access : ResourceAccess) : ExecutionGuarantee :=
  if access = .readOnly then .readOnlyResources else .writableResources

/-- What the network policy pushes. -/
def networkGuarantees : NetworkPolicy → List ExecutionGuarantee
  | .denied => [.networkDenied]
  | .loopbackOnly => [.loopbackIsolated]
  | .allowed => []

theorem mem_accessGuarantees {bs : List ResourceBinding} {g : ExecutionGuarantee} :
    g ∈ bs.map (fun binding => accessGuarantee binding.access) ↔
      (g = .readOnlyResources ∧ ∃ b ∈ bs, b.access = .readOnly) ∨
        (g = .writableResources ∧ ∃ b ∈ bs, b.access = .writable) := by
  simp only [List.mem_map]
  constructor
  · rintro ⟨b, hb, rfl⟩
    cases h : b.access with
    | readOnly => exact Or.inl ⟨rfl, b, hb, h⟩
    | writable => exact Or.inr ⟨rfl, b, hb, h⟩
  · rintro (⟨rfl, b, hb, h⟩ | ⟨rfl, b, hb, h⟩) <;> exact ⟨b, hb, by rw [h]; rfl⟩

theorem mem_networkGuarantees {network : NetworkPolicy} {g : ExecutionGuarantee} :
    g ∈ networkGuarantees network ↔
      (g = .networkDenied ∧ network = .denied) ∨
        (g = .loopbackIsolated ∧ network = .loopbackOnly) := by
  cases network <;> simp [networkGuarantees]

/-- `if (c) additional.push_back(guarantee);` -/
def pushIf (c : Prop) [Decidable c] (guarantee : ExecutionGuarantee) : List ExecutionGuarantee :=
  if c then [guarantee] else []

theorem mem_pushIf {c : Prop} [Decidable c] {a g : ExecutionGuarantee} :
    g ∈ pushIf c a ↔ g = a ∧ c := by
  unfold pushIf
  split <;> simp_all

section Guarantees

variable [External]

def hasAccess (resources : ResourceLayout) (access : ResourceAccess) : Bool :=
  resources.bindings.val.any (·.access == access)

/-- The switch of `require_consistent_guarantee`. -/
def consistentGuarantee (resources : ResourceLayout) (environment : EnvironmentPolicy)
    (limits : ResourceLimits) (cancellation : CancellationPolicy) : ExecutionGuarantee → Bool
  | .readOnlyResources => hasAccess resources .readOnly
  | .writableResources => hasAccess resources .writable
  | .networkDenied => environment.network == .denied
  | .loopbackIsolated => environment.network == .loopbackOnly
  | .resourceLimits => !limits.isEmpty
  | .cpuTimeLimit => limits.cpuTimeMilliseconds.isSome
  | .addressSpaceLimit => limits.addressSpaceBytes.isSome
  | .fileSizeLimit => limits.fileSizeBytes.isSome
  | .openFilesLimit => limits.openFiles.isSome
  | .processCountLimit => limits.processCount.isSome
  | .cancellation => cancellation.mode != .disabled
  | .completeStdoutCapture => environment.standardOutput == .captureComplete
  | .completeStderrCapture => environment.standardError == .captureComplete
  | .exactInterpreter => true
  | .closedEnvironment => true
  | .rootView => true
  | .fixedCredentials => true
  | .cleanupVerified => true

def requireConsistentGuarantee (resources : ResourceLayout) (environment : EnvironmentPolicy)
    (limits : ResourceLimits) (cancellation : CancellationPolicy)
    (guarantee : ExecutionGuarantee) : Except Error Unit :=
  if consistentGuarantee resources environment limits cancellation guarantee then .ok ()
  else
    raise .invalidPolicy
      (text "required execution guarantee conflicts with the request policy: "
        ++ guarantee.toString)

/-- What `derive_required_guarantees` pushes, in its order. -/
def derivedGuarantees (resources : ResourceLayout) (environment : EnvironmentPolicy)
    (limits : ResourceLimits) (cancellation : CancellationPolicy) : List ExecutionGuarantee :=
  [.exactInterpreter, .closedEnvironment, .rootView, .fixedCredentials, .cleanupVerified]
    ++ resources.bindings.val.map (fun binding => accessGuarantee binding.access)
    ++ networkGuarantees environment.network
    ++ pushIf (limits.isEmpty = false) .resourceLimits
    ++ pushIf limits.cpuTimeMilliseconds.isSome .cpuTimeLimit
    ++ pushIf limits.addressSpaceBytes.isSome .addressSpaceLimit
    ++ pushIf limits.fileSizeBytes.isSome .fileSizeLimit
    ++ pushIf limits.openFiles.isSome .openFilesLimit
    ++ pushIf limits.processCount.isSome .processCountLimit
    ++ pushIf (cancellation.mode ≠ .disabled) .cancellation
    ++ pushIf (environment.standardOutput = .captureComplete) .completeStdoutCapture
    ++ pushIf (environment.standardError = .captureComplete) .completeStderrCapture

/-- The loop over `require_consistent_guarantee`. -/
def requireConsistent (resources : ResourceLayout) (environment : EnvironmentPolicy)
    (limits : ResourceLimits) (cancellation : CancellationPolicy) :
    List ExecutionGuarantee → Except Error Unit
  | [] => .ok ()
  | guarantee :: rest => do
    requireConsistentGuarantee resources environment limits cancellation guarantee
    requireConsistent resources environment limits cancellation rest

/-- `derive_required_guarantees`. -/
def deriveRequiredGuarantees (resources : ResourceLayout) (environment : EnvironmentPolicy)
    (limits : ResourceLimits) (cancellation : CancellationPolicy)
    (additional : List (Raw ExecutionGuarantee)) : Except Error (List ExecutionGuarantee) := do
  let additional ←
    Raw.requireAll additional .invalidPolicy (text "unsupported required execution guarantee")
  let guarantees :=
    normalize (additional ++ derivedGuarantees resources environment limits cancellation)
  requireConsistent resources environment limits cancellation guarantees
  return guarantees

/-- **What the policies of a request demand of an executor.**  The statement the two passages
of the source are compared with. -/
def Demanded (resources : ResourceLayout) (environment : EnvironmentPolicy)
    (limits : ResourceLimits) (cancellation : CancellationPolicy) : ExecutionGuarantee → Prop
  | .exactInterpreter | .closedEnvironment | .rootView | .fixedCredentials
  | .cleanupVerified => True
  | .readOnlyResources => ∃ b ∈ resources.bindings.val, b.access = .readOnly
  | .writableResources => ∃ b ∈ resources.bindings.val, b.access = .writable
  | .networkDenied => environment.network = .denied
  | .loopbackIsolated => environment.network = .loopbackOnly
  | .resourceLimits => ∃ kind, (limits.limit kind).isSome = true
  | .cpuTimeLimit => (limits.limit .cpuTime).isSome = true
  | .addressSpaceLimit => (limits.limit .addressSpace).isSome = true
  | .fileSizeLimit => (limits.limit .fileSize).isSome = true
  | .openFilesLimit => (limits.limit .openFiles).isSome = true
  | .processCountLimit => (limits.limit .processCount).isSome = true
  | .cancellation => cancellation.mode ≠ .disabled
  | .completeStdoutCapture => environment.standardOutput = .captureComplete
  | .completeStderrCapture => environment.standardError = .captureComplete

section Derivation

variable {resources : ResourceLayout} {environment : EnvironmentPolicy} {limits : ResourceLimits}
  {cancellation : CancellationPolicy}

/-- The search for a binding with this access. -/
theorem hasAccess_iff {access : ResourceAccess} :
    hasAccess resources access = true ↔ ∃ b ∈ resources.bindings.val, b.access = access := by
  simp [hasAccess]

/-- The consistency switch accepts exactly what is demanded. -/
theorem consistentGuarantee_iff (g : ExecutionGuarantee) :
    consistentGuarantee resources environment limits cancellation g = true ↔
      Demanded resources environment limits cancellation g := by
  have hempty := ResourceLimits.isEmpty_eq_false_iff (l := limits)
  cases g <;> simp [consistentGuarantee, Demanded, hasAccess_iff, ← hempty]

/-- The pushes are exactly what is demanded. -/
theorem mem_derivedGuarantees (g : ExecutionGuarantee) :
    g ∈ derivedGuarantees resources environment limits cancellation ↔
      Demanded resources environment limits cancellation g := by
  have hempty := ResourceLimits.isEmpty_eq_false_iff (l := limits)
  simp only [derivedGuarantees, List.mem_append, mem_accessGuarantees, mem_networkGuarantees,
    mem_pushIf]
  cases g <;> simp [Demanded, ← hempty]

theorem requireConsistentGuarantee_eq_ok {g : ExecutionGuarantee} :
    requireConsistentGuarantee resources environment limits cancellation g = .ok () ↔
      Demanded resources environment limits cancellation g := by
  rw [← consistentGuarantee_iff, requireConsistentGuarantee]
  split <;> simp_all

/-- The loop accepts a list of demanded guarantees. -/
theorem requireConsistent_eq_ok {gs : List ExecutionGuarantee}
    (h : ∀ g ∈ gs, Demanded resources environment limits cancellation g) :
    requireConsistent resources environment limits cancellation gs = .ok () := by
  induction gs with
  | nil => rfl
  | cons g gs ih =>
    rw [requireConsistent, requireConsistentGuarantee_eq_ok.mpr (h g List.mem_cons_self)]
    exact ih (fun x hx => h x (List.mem_cons_of_mem g hx))

/-- It refuses every other list, as an invalid policy. -/
theorem requireConsistent_raises {gs : List ExecutionGuarantee}
    (h : ∃ g ∈ gs, ¬ Demanded resources environment limits cancellation g) :
    Raises (requireConsistent resources environment limits cancellation gs) .invalidPolicy := by
  induction gs with
  | nil => exact absurd h (by simp)
  | cons g gs ih =>
    by_cases hg : Demanded resources environment limits cancellation g
    · rw [requireConsistent, requireConsistentGuarantee_eq_ok.mpr hg]
      obtain ⟨x, hx, hnot⟩ := h
      rcases List.mem_cons.mp hx with rfl | hx
      · exact absurd hg hnot
      · exact ih ⟨x, hx, hnot⟩
    · have hno : consistentGuarantee resources environment limits cancellation g = false := by
        rwa [← Bool.not_eq_true, consistentGuarantee_iff]
      exact ⟨_, by rw [requireConsistent, requireConsistentGuarantee, hno]; rfl, rfl⟩

/-- A derivation from admitted guarantees sorts them together with the demanded ones. -/
theorem deriveRequiredGuarantees_map_of (es : List ExecutionGuarantee) :
    deriveRequiredGuarantees resources environment limits cancellation (es.map Raw.of) = (do
      requireConsistent resources environment limits cancellation
        (normalize (es ++ derivedGuarantees resources environment limits cancellation))
      return normalize (es ++ derivedGuarantees resources environment limits cancellation)) := by
  rw [deriveRequiredGuarantees, Raw.requireAll_map_of]
  rfl

/-- **A derivation that succeeds returns exactly the demanded guarantees.** -/
theorem deriveRequiredGuarantees_ok {additional : List (Raw ExecutionGuarantee)}
    (h : ∀ a ∈ additional, ∃ g, a = .of g ∧ Demanded resources environment limits cancellation g) :
    deriveRequiredGuarantees resources environment limits cancellation additional =
      .ok (normalize (derivedGuarantees resources environment limits cancellation)) := by
  rcases Raw.forall_of_or_exists additional with ⟨es, rfl⟩ | ⟨v, hv, hbad⟩
  · have hes : ∀ g ∈ es, Demanded resources environment limits cancellation g := by
      intro g hg
      obtain ⟨g', hof, hdem⟩ := h (.of g) (List.mem_map_of_mem hg)
      rwa [Raw.of_injective hof]
    have hmem : ∀ g, g ∈ es ++ derivedGuarantees resources environment limits cancellation ↔
        g ∈ derivedGuarantees resources environment limits cancellation := by
      intro g
      rw [List.mem_append, mem_derivedGuarantees]
      exact ⟨fun hg => hg.elim (hes g) id, Or.inr⟩
    rw [deriveRequiredGuarantees_map_of, normalize_eq_iff.mpr hmem, requireConsistent_eq_ok]
    · rfl
    · intro g hg
      exact (mem_derivedGuarantees g).mp (mem_normalize.mp hg)
  · obtain ⟨g, rfl, -⟩ := h v hv
    exact absurd rfl (hbad g)

/-- A derivation with any other additional guarantee is an invalid policy. -/
theorem deriveRequiredGuarantees_raises {additional : List (Raw ExecutionGuarantee)}
    (h : ¬ ∀ a ∈ additional, ∃ g, a = .of g ∧
      Demanded resources environment limits cancellation g) :
    Raises (deriveRequiredGuarantees resources environment limits cancellation additional)
      .invalidPolicy := by
  rcases Raw.forall_of_or_exists additional with ⟨es, rfl⟩ | hbad
  · have hex : ∃ g ∈ normalize (es ++ derivedGuarantees resources environment limits cancellation),
        ¬ Demanded resources environment limits cancellation g := by
      by_contra hno
      push Not at hno
      refine h (fun a ha => ?_)
      obtain ⟨g, hg, rfl⟩ := List.mem_map.mp ha
      exact ⟨g, rfl, hno g (mem_normalize.mpr (List.mem_append_left _ hg))⟩
    obtain ⟨e, he, hcode⟩ := requireConsistent_raises hex
    refine ⟨e, ?_, hcode⟩
    rw [deriveRequiredGuarantees_map_of, he]
    rfl
  · refine ⟨⟨.invalidPolicy, text "unsupported required execution guarantee"⟩, ?_, rfl⟩
    rw [deriveRequiredGuarantees, Raw.requireAll_eq_error hbad]
    rfl

/-- Sorting does not change what is in the list. -/
theorem mem_normalize_derivedGuarantees (g : ExecutionGuarantee) :
    g ∈ normalize (derivedGuarantees resources environment limits cancellation) ↔
      Demanded resources environment limits cancellation g :=
  mem_normalize.trans (mem_derivedGuarantees g)

end Derivation

/-! ## 2. Requests

A request holds its policies, the guarantees that they demand, in order, and the identity of all
this.  The last two follow from the others, so a request is determined by its declared arguments
(`eq_of_fields`). -/

/-- `pkgsource::program`, as far as an execution request reads it. -/
@[ext] structure Program where
  language : External.ProgramLanguage
  contentDigest : Str

/-- `execution_request_schema_version`. -/
def executionRequestSchemaVersion : UInt16 := 1

/-- What `identify_request` hashes. -/
def requestPreimage (program : Program) (purpose : ExecutionPurpose)
    (interpreter : InterpreterIdentity) (rootView : RootViewIdentity) (resources : ResourceLayout)
    (environment : EnvironmentPolicy) (credentials : CredentialPolicy) (limits : ResourceLimits)
    (cancellation : CancellationPolicy) (guarantees : List ExecutionGuarantee) :
    IdentityBuilder :=
  IdentityBuilder.new "pkgexec/execution-request/v1"
    |>.addU16 executionRequestSchemaVersion
    |>.addString (External.programLanguageToString program.language).val
    |>.addString program.contentDigest.val
    |>.addU8 (enumByte purpose.kind)
    |>.addOptional purpose.action (fun hash action =>
        hash.addString (External.lifecycleActionToString action).val)
    |>.addString interpreter.hex.val
    |>.addString rootView.hex.val
    |>.addString resources.identity.hex.val
    |>.addString environment.identity.hex.val
    |>.addString credentials.identity.hex.val
    |>.addString limits.identity.hex.val
    |>.addU8 (enumByte cancellation.mode)
    |>.addOptional cancellation.gracePeriodMilliseconds IdentityBuilder.addU64
    |>.addU64 (.ofNat guarantees.length)
    |>.addEach guarantees (fun hash guarantee => hash.addU8 (enumByte guarantee))

/-- `execution_request`: the required guarantees are the demanded ones, in order. -/
structure ExecutionRequest where
  program : Program
  purpose : ExecutionPurpose
  interpreter : InterpreterIdentity
  rootView : RootViewIdentity
  resources : ResourceLayout
  environment : EnvironmentPolicy
  credentials : CredentialPolicy
  limits : ResourceLimits
  cancellation : CancellationPolicy
  requiredGuarantees : List ExecutionGuarantee
  identity : ExecutionRequestIdentity
  required_strict : requiredGuarantees.Pairwise (· < ·)
  mem_required : ∀ g, g ∈ requiredGuarantees ↔
    Demanded resources environment limits cancellation g
  identified : identity = (requestPreimage program purpose interpreter rootView resources
    environment credentials limits cancellation requiredGuarantees).finish

/-- What a derivation returns is strictly increasing and demanded. -/
theorem deriveRequiredGuarantees_spec {resources : ResourceLayout} {environment : EnvironmentPolicy}
    {limits : ResourceLimits} {cancellation : CancellationPolicy}
    {additional : List (Raw ExecutionGuarantee)} {guarantees : List ExecutionGuarantee}
    (h : deriveRequiredGuarantees resources environment limits cancellation additional =
      .ok guarantees) :
    guarantees.Pairwise (· < ·) ∧
      ∀ g, g ∈ guarantees ↔ Demanded resources environment limits cancellation g := by
  by_cases hall : ∀ a ∈ additional, ∃ g, a = .of g ∧
      Demanded resources environment limits cancellation g
  · rw [deriveRequiredGuarantees_ok hall] at h
    obtain rfl := Except.ok.inj h
    exact ⟨normalize_strict _, mem_normalize_derivedGuarantees⟩
  · obtain ⟨e, he, -⟩ := deriveRequiredGuarantees_raises hall
    rw [he] at h
    exact absurd h (by simp)

/-- `execution_request::seal`. -/
def ExecutionRequest.seal (program : Program) (purpose : ExecutionPurpose)
    (interpreter : InterpreterIdentity) (rootView : RootViewIdentity) (resources : ResourceLayout)
    (environment : EnvironmentPolicy) (credentials : CredentialPolicy) (limits : ResourceLimits)
    (cancellation : CancellationPolicy)
    (additionalRequiredGuarantees : List (Raw ExecutionGuarantee)) :
    Except Error ExecutionRequest :=
  match h : deriveRequiredGuarantees resources environment limits cancellation
      additionalRequiredGuarantees with
  | .error e => .error e
  | .ok guarantees => .ok {
      program, purpose, interpreter, rootView, resources, environment, credentials, limits,
      cancellation
      requiredGuarantees := guarantees
      identity := (requestPreimage program purpose interpreter rootView resources environment
        credentials limits cancellation guarantees).finish
      required_strict := (deriveRequiredGuarantees_spec h).1
      mem_required := (deriveRequiredGuarantees_spec h).2
      identified := rfl }

namespace ExecutionRequest

/-- The request with these declared arguments: what it requires and its identity follow. -/
def ofPolicies (program : Program) (purpose : ExecutionPurpose) (interpreter : InterpreterIdentity)
    (rootView : RootViewIdentity) (resources : ResourceLayout) (environment : EnvironmentPolicy)
    (credentials : CredentialPolicy) (limits : ResourceLimits)
    (cancellation : CancellationPolicy) : ExecutionRequest where
  program := program
  purpose := purpose
  interpreter := interpreter
  rootView := rootView
  resources := resources
  environment := environment
  credentials := credentials
  limits := limits
  cancellation := cancellation
  requiredGuarantees := normalize (derivedGuarantees resources environment limits cancellation)
  identity := (requestPreimage program purpose interpreter rootView resources environment
    credentials limits cancellation
    (normalize (derivedGuarantees resources environment limits cancellation))).finish
  required_strict := normalize_strict _
  mem_required := mem_normalize_derivedGuarantees
  identified := rfl

/-- A request is sealed when its guarantees can be derived, -/
theorem seal_of_derive {program : Program} {purpose : ExecutionPurpose}
    {interpreter : InterpreterIdentity} {rootView : RootViewIdentity} {resources : ResourceLayout}
    {environment : EnvironmentPolicy} {credentials : CredentialPolicy} {limits : ResourceLimits}
    {cancellation : CancellationPolicy} {additional : List (Raw ExecutionGuarantee)}
    {guarantees : List ExecutionGuarantee}
    (h : deriveRequiredGuarantees resources environment limits cancellation additional =
      .ok guarantees) :
    ∃ q, ExecutionRequest.seal program purpose interpreter rootView resources environment
      credentials limits cancellation additional = .ok q := by
  unfold ExecutionRequest.seal
  split
  · rename_i herr
    rw [h] at herr
    exact absurd herr (by simp)
  · exact ⟨_, rfl⟩

/-- and refused with the error of the derivation otherwise. -/
theorem seal_of_derive_error {program : Program} {purpose : ExecutionPurpose}
    {interpreter : InterpreterIdentity} {rootView : RootViewIdentity} {resources : ResourceLayout}
    {environment : EnvironmentPolicy} {credentials : CredentialPolicy} {limits : ResourceLimits}
    {cancellation : CancellationPolicy} {additional : List (Raw ExecutionGuarantee)} {e : Error}
    (h : deriveRequiredGuarantees resources environment limits cancellation additional =
      .error e) :
    ExecutionRequest.seal program purpose interpreter rootView resources environment
      credentials limits cancellation additional = .error e := by
  unfold ExecutionRequest.seal
  split
  · rename_i herr
    rw [h] at herr
    rw [Except.error.inj herr]
  · rename_i hok
    rw [h] at hok
    exact absurd hok (by simp)

/-- The declared arguments of a sealed request are its fields. -/
theorem seal_ok {program : Program} {purpose : ExecutionPurpose}
    {interpreter : InterpreterIdentity} {rootView : RootViewIdentity} {resources : ResourceLayout}
    {environment : EnvironmentPolicy} {credentials : CredentialPolicy} {limits : ResourceLimits}
    {cancellation : CancellationPolicy} {additional : List (Raw ExecutionGuarantee)}
    {q : ExecutionRequest}
    (h : ExecutionRequest.seal program purpose interpreter rootView resources environment
      credentials limits cancellation additional = .ok q) :
    q.program = program ∧ q.purpose = purpose ∧ q.interpreter = interpreter ∧
      q.rootView = rootView ∧ q.resources = resources ∧ q.environment = environment ∧
      q.credentials = credentials ∧ q.limits = limits ∧ q.cancellation = cancellation := by
  unfold ExecutionRequest.seal at h
  split at h
  · exact absurd h (by simp)
  · obtain rfl := Except.ok.inj h
    exact ⟨rfl, rfl, rfl, rfl, rfl, rfl, rfl, rfl, rfl⟩

/-- Two requests with the same declared arguments are the same request: what they require and
their identity follow. -/
theorem eq_of_fields {q r : ExecutionRequest} (hprogram : q.program = r.program)
    (hpurpose : q.purpose = r.purpose) (hinterpreter : q.interpreter = r.interpreter)
    (hroot : q.rootView = r.rootView) (hresources : q.resources = r.resources)
    (henvironment : q.environment = r.environment) (hcredentials : q.credentials = r.credentials)
    (hlimits : q.limits = r.limits) (hcancellation : q.cancellation = r.cancellation) : q = r := by
  obtain ⟨qp, qu, qi, qv, qr, qe, qc, ql, qn, qg, qid, qstrict, qmem, qident⟩ := q
  obtain ⟨rp, ru, ri, rv, rr, re, rc, rl, rn, rg, rid, rstrict, rmem, rident⟩ := r
  obtain rfl : qp = rp := hprogram
  obtain rfl : qu = ru := hpurpose
  obtain rfl : qi = ri := hinterpreter
  obtain rfl : qv = rv := hroot
  obtain rfl : qr = rr := hresources
  obtain rfl : qe = re := henvironment
  obtain rfl : qc = rc := hcredentials
  obtain rfl : ql = rl := hlimits
  obtain rfl : qn = rn := hcancellation
  obtain rfl : qg = rg := eq_of_mem_iff qstrict rstrict (fun g => (qmem g).trans (rmem g).symm)
  obtain rfl : qid = rid := qident.trans rident.symm
  rfl

/-- **Every request is a sealed one**, and additional guarantees add nothing to it. -/
theorem seal_eq_self (q : ExecutionRequest) {additional : List (Raw ExecutionGuarantee)}
    (h : ∀ a ∈ additional, ∃ g, a = .of g ∧
      Demanded q.resources q.environment q.limits q.cancellation g) :
    ExecutionRequest.seal q.program q.purpose q.interpreter q.rootView q.resources q.environment
      q.credentials q.limits q.cancellation additional = .ok q := by
  obtain ⟨r, hseal⟩ : ∃ r, ExecutionRequest.seal q.program q.purpose q.interpreter q.rootView
      q.resources q.environment q.credentials q.limits q.cancellation additional = .ok r :=
    seal_of_derive (deriveRequiredGuarantees_ok h)
  obtain ⟨h1, h2, h3, h4, h5, h6, h7, h8, h9⟩ := seal_ok hseal
  rw [hseal, eq_of_fields h1 h2 h3 h4 h5 h6 h7 h8 h9]

end ExecutionRequest

end Guarantees

end Pkgexec
