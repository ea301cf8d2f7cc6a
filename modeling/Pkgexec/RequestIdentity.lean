/-
# What the identity of a request says

Every preimage is a sequence of fields that can be cut off its front one after the other, so
equal preimages have equal fields.  The identity of a request therefore determines the request,
as long as SHA-256 does not collide on the preimages involved
(`ExecutionRequest.eq_of_identity`).

A request is sealed from declared arguments, in whatever order lists are declared, and the
factories sort what they are given.  So two requests have one identity exactly when their
declarations have one content (`request_identity_exact`).
-/
import Pkgexec.Acceptance

namespace Pkgexec

open Bytes Ranges IdentityBuilder

/-! ## 1. The fields of lists

The elements of a list are hashed after their count, so each element needs to be a prefix code. -/

/-- The fields of a binding, -/
def bindingField (b : ResourceBinding) : Bytes :=
  [enumByte b.slot.role] ++ (stringField b.slot.name.val ++ (stringField b.resource.hex.val ++
    ([enumByte b.access] ++ stringField b.mountPoint.value.val)))

/-- and of a variable. -/
def variableField (v : EnvironmentVariable) : Bytes :=
  stringField v.name.val ++ stringField v.value.val

theorem preimage_binding (hash : IdentityBuilder) (b : ResourceBinding) :
    (((((hash.addU8 (enumByte b.slot.role)).addString b.slot.name.val).addString
      b.resource.hex.val).addU8 (enumByte b.access)).addString b.mountPoint.value.val).preimage
      = hash.preimage ++ bindingField b := by
  simp only [preimage_addString, preimage_addU8, bindingField, List.append_assoc]

theorem preimage_variable (hash : IdentityBuilder) (v : EnvironmentVariable) :
    ((hash.addString v.name.val).addString v.value.val).preimage
      = hash.preimage ++ variableField v := by
  simp only [preimage_addString, variableField, List.append_assoc]

theorem prefixCode_path : PrefixCode (fun p : LogicalPath => stringField p.value.val) :=
  prefixCode_string.comp LogicalPath.value_injective

theorem prefixCode_binding : PrefixCode bindingField := by
  intro a b r s h
  simp only [bindingField, List.append_assoc] at h
  obtain ⟨hrole, h⟩ := prefixCode_enumByte h
  obtain ⟨hname, h⟩ := prefixCode_string h
  obtain ⟨hresource, h⟩ := prefixCode_identity h
  obtain ⟨haccess, h⟩ := prefixCode_enumByte h
  obtain ⟨hmount, h⟩ := prefixCode_path h
  exact ⟨ResourceBinding.ext (ResourceSlot.ext hrole hname) hresource haccess hmount, h⟩

theorem prefixCode_variable : PrefixCode variableField := by
  intro a b r s h
  simp only [variableField, List.append_assoc] at h
  obtain ⟨hname, h⟩ := prefixCode_string h
  obtain ⟨hvalue, h⟩ := prefixCode_string h
  exact ⟨EnvironmentVariable.ext hname hvalue, h⟩

section RequestIdentity

variable [External]

/-! ## 2. Policies

The bytes that the four policies are hashed from, each with the name of its domain in front. -/

/-- The bytes a layout is hashed from. -/
def ResourceLayout.preimage (l : ResourceLayout) : Bytes :=
  (layoutPreimage l.bindings.val l.workingDirectory).preimage

def EnvironmentPolicy.preimage (e : EnvironmentPolicy) : Bytes :=
  (environmentPreimage e.toEnvironmentFields).preimage

def CredentialPolicy.preimage (c : CredentialPolicy) : Bytes :=
  (credentialPreimage c.userId c.groupId c.supplementaryGroups.val c.noNewPrivileges).preimage

def ResourceLimits.preimage (l : ResourceLimits) : Bytes :=
  (limitsPreimage l.cpuTimeMilliseconds l.addressSpaceBytes l.fileSizeBytes l.openFiles
    l.processCount).preimage

/-! ### Equal preimages have equal fields

The name of the domain is the same on both sides and is cut off; after it the fields follow in the
order of the source. -/

/-- Equal bytes were hashed from equal layouts. -/
theorem ResourceLayout.eq_of_preimage {l m : ResourceLayout} (h : l.preimage = m.preimage) :
    l = m := by
  simp only [ResourceLayout.preimage, layoutPreimage, preimage_addString, preimage_addU8,
    preimage_addCounted preimage_binding, List.append_assoc] at h
  obtain ⟨hbindings, h⟩ := prefixCode_vec prefixCode_binding (List.append_cancel_left h)
  obtain ⟨hrole, h⟩ := prefixCode_enumByte h
  have hname := prefixCode_string.injective h
  exact ResourceLayout.eq_of_fields hbindings (ResourceSlot.ext hrole hname)

theorem EnvironmentPolicy.eq_of_preimage {e f : EnvironmentPolicy} (h : e.preimage = f.preimage) :
    e = f := by
  simp only [EnvironmentPolicy.preimage, environmentPreimage, preimage_addString, preimage_addU8,
    preimage_addU32, preimage_addOptionalI64, preimage_addCounted preimage_variable,
    preimage_addCounted (fun hash (p : LogicalPath) => preimage_addString hash p.value),
    List.append_assoc] at h
  have h := List.append_cancel_left (List.append_cancel_left (List.append_cancel_left
    (List.append_cancel_left h)))
  obtain ⟨hnetwork, h⟩ := prefixCode_enumByte h
  obtain ⟨hinput, h⟩ := prefixCode_enumByte h
  obtain ⟨houtput, h⟩ := prefixCode_enumByte h
  obtain ⟨herror, h⟩ := prefixCode_enumByte h
  obtain ⟨hpath, h⟩ := prefixCode_vec prefixCode_path h
  obtain ⟨hhome, h⟩ := prefixCode_path h
  obtain ⟨htmp, h⟩ := prefixCode_path h
  obtain ⟨hparallelism, h⟩ := PrefixCode.word32 h
  obtain ⟨hmask, h⟩ := PrefixCode.word32 h
  obtain ⟨hepoch, h⟩ := prefixCode_option prefixCode_i64 h
  have hvars := (prefixCode_vec prefixCode_variable).injective h
  exact EnvironmentPolicy.eq_of_fields (EnvironmentFields.ext hpath hhome htmp hparallelism hmask
    hepoch hnetwork hinput houtput herror hvars)

theorem CredentialPolicy.eq_of_preimage {c d : CredentialPolicy} (h : c.preimage = d.preimage) :
    c = d := by
  simp only [CredentialPolicy.preimage, credentialPreimage, preimage_addU64, preimage_addBool,
    preimage_addCounted preimage_addU64, List.append_assoc] at h
  obtain ⟨huser, h⟩ := PrefixCode.word64 (List.append_cancel_left h)
  obtain ⟨hgroup, h⟩ := PrefixCode.word64 h
  obtain ⟨hgroups, h⟩ := prefixCode_vec PrefixCode.word64 h
  have hprivileges := PrefixCode.bool.injective h
  exact CredentialPolicy.eq_of_fields huser hgroup hgroups hprivileges

theorem ResourceLimits.eq_of_preimage {l m : ResourceLimits} (h : l.preimage = m.preimage) :
    l = m := by
  simp only [ResourceLimits.preimage, limitsPreimage, preimage_addOptionalU64,
    List.append_assoc] at h
  have hoption := prefixCode_option PrefixCode.word64
  obtain ⟨hcpu, h⟩ := hoption (List.append_cancel_left h)
  obtain ⟨haddress, h⟩ := hoption h
  obtain ⟨hfile, h⟩ := hoption h
  obtain ⟨hopen, h⟩ := hoption h
  have hprocess := hoption.injective h
  exact ResourceLimits.eq_of_fields hcpu haddress hfile hopen hprocess

/-! ## 3. Requests

A request is hashed from the identities of its policies, so equal bytes give equal policies only
where SHA-256 tells their preimages apart.  That is what `hashed` collects. -/

namespace ExecutionRequest

/-- The bytes a request is hashed from. -/
def preimage (q : ExecutionRequest) : Bytes :=
  (requestPreimage q.program q.purpose q.interpreter q.rootView q.resources q.environment
    q.credentials q.limits q.cancellation q.requiredGuarantees).preimage

/-- What SHA-256 is applied to for a request and its policies. -/
def hashed (q : ExecutionRequest) : Set Bytes :=
  {q.preimage, q.resources.preimage, q.environment.preimage, q.credentials.preimage,
    q.limits.preimage}

/-- Equal bytes were hashed from requests that agree, in their policies as far as the identities
of these tell. -/
theorem fields_of_preimage {q r : ExecutionRequest}
    (hlanguage : Function.Injective External.programLanguageToString)
    (haction : Function.Injective External.lifecycleActionToString)
    (h : q.preimage = r.preimage) :
    q.program = r.program ∧ q.purpose = r.purpose ∧ q.interpreter = r.interpreter ∧
      q.rootView = r.rootView ∧ q.resources.identity = r.resources.identity ∧
      q.environment.identity = r.environment.identity ∧
      q.credentials.identity = r.credentials.identity ∧ q.limits.identity = r.limits.identity ∧
      q.cancellation = r.cancellation := by
  simp only [ExecutionRequest.preimage, requestPreimage, preimage_addU16, preimage_addString,
    preimage_addU8, preimage_addU64, preimage_addOptional preimage_addU64,
    preimage_addOptional (fun hash (action : LifecycleAction) =>
      preimage_addString hash (External.lifecycleActionToString action)),
    preimage_addEach (fun hash (g : ExecutionGuarantee) => preimage_addU8 hash (enumByte g)),
    List.append_assoc] at h
  have h := List.append_cancel_left (List.append_cancel_left h)
  obtain ⟨hlang, h⟩ := (prefixCode_string.comp hlanguage) h
  obtain ⟨hdigest, h⟩ := prefixCode_string h
  obtain ⟨hkind, h⟩ := prefixCode_enumByte h
  obtain ⟨hact, h⟩ := (prefixCode_option (prefixCode_string.comp haction)) h
  obtain ⟨hinterpreter, h⟩ := prefixCode_identity h
  obtain ⟨hroot, h⟩ := prefixCode_identity h
  obtain ⟨hresources, h⟩ := prefixCode_identity h
  obtain ⟨henvironment, h⟩ := prefixCode_identity h
  obtain ⟨hcredentials, h⟩ := prefixCode_identity h
  obtain ⟨hlimits, h⟩ := prefixCode_identity h
  obtain ⟨hmode, h⟩ := prefixCode_enumByte h
  obtain ⟨hgrace, -⟩ := (prefixCode_option PrefixCode.word64) h
  exact ⟨Program.ext hlang hdigest, ExecutionPurpose.ext hkind hact, hinterpreter, hroot,
    hresources, henvironment, hcredentials, hlimits, CancellationPolicy.ext hmode hgrace⟩

/-- **The identity of a request determines the request.** -/
theorem eq_of_identity {q r : ExecutionRequest}
    (hlanguage : Function.Injective External.programLanguageToString)
    (haction : Function.Injective External.lifecycleActionToString)
    (hsha : Set.InjOn External.sha256 (q.hashed ∪ r.hashed)) (h : q.identity = r.identity) :
    q = r := by
  rw [q.identified, r.identified] at h
  obtain ⟨hprogram, hpurpose, hinterpreter, hroot, hresources, henvironment, hcredentials,
    hlimits, hcancellation⟩ := fields_of_preimage hlanguage haction
      (finish_inj hsha (by simp [hashed, preimage]) (by simp [hashed, preimage]) h)
  rw [q.resources.identified, r.resources.identified] at hresources
  rw [q.environment.identified, r.environment.identified] at henvironment
  rw [q.credentials.identified, r.credentials.identified] at hcredentials
  rw [q.limits.identified, r.limits.identified] at hlimits
  exact eq_of_fields hprogram hpurpose hinterpreter hroot
    (ResourceLayout.eq_of_preimage (finish_inj hsha
      (by simp [hashed, ResourceLayout.preimage]) (by simp [hashed, ResourceLayout.preimage])
      hresources))
    (EnvironmentPolicy.eq_of_preimage (finish_inj hsha
      (by simp [hashed, EnvironmentPolicy.preimage])
      (by simp [hashed, EnvironmentPolicy.preimage]) henvironment))
    (CredentialPolicy.eq_of_preimage (finish_inj hsha
      (by simp [hashed, CredentialPolicy.preimage]) (by simp [hashed, CredentialPolicy.preimage])
      hcredentials))
    (ResourceLimits.eq_of_preimage (finish_inj hsha
      (by simp [hashed, ResourceLimits.preimage]) (by simp [hashed, ResourceLimits.preimage])
      hlimits))
    hcancellation

end ExecutionRequest

/-! ## 4. Declarations

A caller declares a request in one go: the arguments of the five factories, without what they
make. -/

/-- **What a request is declared by**: the arguments of `resource_layout::seal`,
`environment_policy::hermetic`, `credential_policy::fixed`, `resource_limits::make` and
`execution_request::seal`. -/
structure Declaration where
  program : Program
  purpose : ExecutionPurpose
  interpreter : InterpreterIdentity
  rootView : RootViewIdentity
  bindings : Vec ResourceBinding
  workingDirectory : ResourceSlot
  executableSearchPath : Vec LogicalPath
  homeDirectory : LogicalPath
  temporaryDirectory : LogicalPath
  parallelism : UInt32
  fileCreationMask : UInt32
  sourceDateEpoch : Option Int64
  network : Raw NetworkPolicy
  standardInput : Raw StdinPolicy
  standardOutput : Raw StreamPolicy
  standardError : Raw StreamPolicy
  additionalVariables : Vec EnvironmentVariable
  userId : UInt64
  groupId : UInt64
  supplementaryGroups : Vec UInt64
  noNewPrivileges : Bool
  cpuTimeMilliseconds : Option UInt64
  addressSpaceBytes : Option UInt64
  fileSizeBytes : Option UInt64
  openFiles : Option UInt64
  processCount : Option UInt64
  cancellation : CancellationPolicy
  additionalRequiredGuarantees : List (Raw ExecutionGuarantee)

/-- Every policy from its factory, and the request from the policies. -/
def Declaration.seal (a : Declaration) : Except Error ExecutionRequest := do
  let resources ← ResourceLayout.seal a.bindings a.workingDirectory
  let environment ← EnvironmentPolicy.hermetic a.executableSearchPath a.homeDirectory
    a.temporaryDirectory a.parallelism a.fileCreationMask a.sourceDateEpoch a.network
    a.standardInput a.standardOutput a.standardError a.additionalVariables
  let credentials ← CredentialPolicy.fixed a.userId a.groupId a.supplementaryGroups
    a.noNewPrivileges
  let limits ← ResourceLimits.make a.cpuTimeMilliseconds a.addressSpaceBytes a.fileSizeBytes
    a.openFiles a.processCount
  ExecutionRequest.seal a.program a.purpose a.interpreter a.rootView resources environment
    credentials limits a.cancellation a.additionalRequiredGuarantees

/-! ## 5. Content

Content forgets what sealing sorts: the order of bindings, of variables and of groups, and the
additional guarantees.  It is kept by sealing and determines the request, so it stands between a
declaration and an identity. -/

/-- **The semantic content of a request**: the search path is a list, the bindings, the variables
and the supplementary groups are sets, and additional guarantees are not part of it. -/
@[ext] structure Content where
  program : Program
  purpose : ExecutionPurpose
  interpreter : InterpreterIdentity
  rootView : RootViewIdentity
  bindings : Set ResourceBinding
  workingDirectory : ResourceSlot
  executableSearchPath : Vec LogicalPath
  homeDirectory : LogicalPath
  temporaryDirectory : LogicalPath
  parallelism : UInt32
  fileCreationMask : UInt32
  sourceDateEpoch : Option Int64
  network : Raw NetworkPolicy
  standardInput : Raw StdinPolicy
  standardOutput : Raw StreamPolicy
  standardError : Raw StreamPolicy
  additionalVariables : Set EnvironmentVariable
  userId : UInt64
  groupId : UInt64
  supplementaryGroups : Set UInt64
  noNewPrivileges : Bool
  cpuTimeMilliseconds : Option UInt64
  addressSpaceBytes : Option UInt64
  fileSizeBytes : Option UInt64
  openFiles : Option UInt64
  processCount : Option UInt64
  cancellation : CancellationPolicy

/-- What a declaration says, -/
def Declaration.content (a : Declaration) : Content where
  program := a.program
  purpose := a.purpose
  interpreter := a.interpreter
  rootView := a.rootView
  bindings := {b | b ∈ a.bindings.val}
  workingDirectory := a.workingDirectory
  executableSearchPath := a.executableSearchPath
  homeDirectory := a.homeDirectory
  temporaryDirectory := a.temporaryDirectory
  parallelism := a.parallelism
  fileCreationMask := a.fileCreationMask
  sourceDateEpoch := a.sourceDateEpoch
  network := a.network
  standardInput := a.standardInput
  standardOutput := a.standardOutput
  standardError := a.standardError
  additionalVariables := {v | v ∈ a.additionalVariables.val}
  userId := a.userId
  groupId := a.groupId
  supplementaryGroups := {g | g ∈ a.supplementaryGroups.val}
  noNewPrivileges := a.noNewPrivileges
  cpuTimeMilliseconds := a.cpuTimeMilliseconds
  addressSpaceBytes := a.addressSpaceBytes
  fileSizeBytes := a.fileSizeBytes
  openFiles := a.openFiles
  processCount := a.processCount
  cancellation := a.cancellation

/-- and what a request says. -/
def ExecutionRequest.content (q : ExecutionRequest) : Content where
  program := q.program
  purpose := q.purpose
  interpreter := q.interpreter
  rootView := q.rootView
  bindings := {b | b ∈ q.resources.bindings.val}
  workingDirectory := q.resources.workingDirectory
  executableSearchPath := q.environment.executableSearchPath
  homeDirectory := q.environment.homeDirectory
  temporaryDirectory := q.environment.temporaryDirectory
  parallelism := q.environment.parallelism
  fileCreationMask := q.environment.fileCreationMask
  sourceDateEpoch := q.environment.sourceDateEpoch
  network := .of q.environment.network
  standardInput := .of q.environment.standardInput
  standardOutput := .of q.environment.standardOutput
  standardError := .of q.environment.standardError
  additionalVariables := {v | v ∈ q.environment.additionalVariables.val}
  userId := q.credentials.userId
  groupId := q.credentials.groupId
  supplementaryGroups := {g | g ∈ q.credentials.supplementaryGroups.val}
  noNewPrivileges := q.credentials.noNewPrivileges
  cpuTimeMilliseconds := q.limits.cpuTimeMilliseconds
  addressSpaceBytes := q.limits.addressSpaceBytes
  fileSizeBytes := q.limits.fileSizeBytes
  openFiles := q.limits.openFiles
  processCount := q.limits.processCount
  cancellation := q.cancellation

/-- **Sealing keeps the content.** -/
theorem Declaration.content_seal {a : Declaration} {q : ExecutionRequest} (h : a.seal = .ok q) :
    q.content = a.content := by
  unfold Declaration.seal at h
  obtain ⟨resources, hresources, h⟩ := bind_ok h
  obtain ⟨environment, henvironment, h⟩ := bind_ok h
  obtain ⟨credentials, hcredentials, h⟩ := bind_ok h
  obtain ⟨limits, hlimits, h⟩ := bind_ok h
  obtain ⟨hprogram, hpurpose, hinterpreter, hroot, rfl, rfl, rfl, rfl, hcancellation⟩ :=
    ExecutionRequest.seal_ok h
  obtain ⟨hbindings, hwd⟩ := ResourceLayout.seal_ok hresources
  obtain ⟨hpath, hhome, htmp, hpar, hmask, hepoch, hnetwork, hinput, houtput, herror, hvars⟩ :=
    EnvironmentPolicy.hermetic_ok henvironment
  obtain ⟨huser, hgroup, hprivileges, hgroups⟩ := CredentialPolicy.fixed_ok hcredentials
  obtain ⟨hcpu, haddress, hfile, hopen, hprocess⟩ := ResourceLimits.make_ok hlimits
  exact Content.ext hprogram hpurpose hinterpreter hroot (Set.ext hbindings) hwd hpath hhome htmp
    hpar hmask hepoch hnetwork.symm hinput.symm houtput.symm herror.symm (Set.ext hvars) huser
    hgroup (Set.ext hgroups) hprivileges hcpu haddress hfile hopen hprocess hcancellation

/-- **The content determines the request**: its lists are in order. -/
theorem ExecutionRequest.content_injective :
    Function.Injective ExecutionRequest.content := by
  intro q r h
  have hbindings : q.resources.bindings = r.resources.bindings :=
    Subtype.ext (eq_of_mem_iff q.resources.strict r.resources.strict
      (Set.ext_iff.mp (congrArg Content.bindings h)))
  have hvars : q.environment.additionalVariables = r.environment.additionalVariables :=
    Subtype.ext (eq_of_mem_iff q.environment.strict r.environment.strict
      (Set.ext_iff.mp (congrArg Content.additionalVariables h)))
  have hgroups : q.credentials.supplementaryGroups = r.credentials.supplementaryGroups :=
    Subtype.ext (eq_of_mem_iff q.credentials.groups_strict r.credentials.groups_strict
      (Set.ext_iff.mp (congrArg Content.supplementaryGroups h)))
  simp only [ExecutionRequest.content, Content.mk.injEq, Raw.of_injective.eq_iff] at h
  obtain ⟨hprogram, hpurpose, hinterpreter, hroot, -, hwd, hpath, hhome, htmp, hpar, hmask, hepoch,
    hnetwork, hinput, houtput, herror, -, huser, hgroup, -, hprivileges, hcpu, haddress, hfile,
    hopen, hprocess, hcancellation⟩ := h
  exact ExecutionRequest.eq_of_fields hprogram hpurpose hinterpreter hroot
    (ResourceLayout.eq_of_fields hbindings hwd)
    (EnvironmentPolicy.eq_of_fields (EnvironmentFields.ext hpath hhome htmp hpar hmask hepoch
      hnetwork hinput houtput herror hvars))
    (CredentialPolicy.eq_of_fields huser hgroup hgroups hprivileges)
    (ResourceLimits.eq_of_fields hcpu haddress hfile hopen hprocess) hcancellation

/-- **The identity of a request is exactly its content.** -/
theorem request_identity_exact {a b : Declaration} {q r : ExecutionRequest}
    (ha : a.seal = .ok q) (hb : b.seal = .ok r)
    (hlanguage : Function.Injective External.programLanguageToString)
    (haction : Function.Injective External.lifecycleActionToString)
    (hsha : Set.InjOn External.sha256 (q.hashed ∪ r.hashed)) :
    q.identity = r.identity ↔ a.content = b.content := by
  rw [← Declaration.content_seal ha, ← Declaration.content_seal hb]
  constructor
  · intro h
    rw [ExecutionRequest.eq_of_identity hlanguage haction hsha h]
  · intro h
    rw [ExecutionRequest.content_injective h]

end RequestIdentity

namespace Sample

/-- The declaration of the request that discards both streams, with the groups and additional
guarantees given. -/
def declaration (groups : Vec UInt64) (additional : List (Raw ExecutionGuarantee)) :
    Declaration where
  program := (request .discard).program
  purpose := .build
  interpreter := (request .discard).interpreter
  rootView := (request .discard).rootView
  bindings := layout.bindings
  workingDirectory := workspaceSlot
  executableSearchPath := (environmentFields .discard).executableSearchPath
  homeDirectory := rootPath
  temporaryDirectory := rootPath
  parallelism := 4
  fileCreationMask := 0o022
  sourceDateEpoch := some 1
  network := .of .denied
  standardInput := .of .closed
  standardOutput := .of .discard
  standardError := .of .discard
  additionalVariables := .nil
  userId := 1000
  groupId := 1000
  supplementaryGroups := groups
  noNewPrivileges := true
  cpuTimeMilliseconds := none
  addressSpaceBytes := none
  fileSizeBytes := none
  openFiles := none
  processCount := none
  cancellation := .disabled
  additionalRequiredGuarantees := additional

theorem seal_declaration {groups : Vec UInt64} {additional : List (Raw ExecutionGuarantee)}
    (hgroups : CredentialPolicy.fixed 1000 1000 groups true = .ok credentials)
    (hadditional : ∀ a ∈ additional, ∃ g, a = .of g ∧
      Demanded layout (environment .discard) noLimits .disabled g) :
    (declaration groups additional).seal = .ok (request .discard) :=
  bind_eq_ok.mpr ⟨layout, rfl, bind_eq_ok.mpr ⟨environment .discard, rfl,
    bind_eq_ok.mpr ⟨credentials, hgroups, bind_eq_ok.mpr ⟨noLimits, rfl,
      (request .discard).seal_eq_self hadditional⟩⟩⟩⟩

/-- SHA-256 tells the five preimages of the request apart. -/
theorem sha256_injOn_hashed : Set.InjOn External.sha256 (request .discard).hashed := by
  have hnodup : ([(request .discard).preimage, (request .discard).resources.preimage,
      (request .discard).environment.preimage, (request .discard).credentials.preimage,
      (request .discard).limits.preimage].map External.sha256).Nodup := by
    decide +kernel
  intro x hx y hy h
  exact List.inj_on_of_nodup_map hnodup (by simpa [ExecutionRequest.hashed] using hx)
    (by simpa [ExecutionRequest.hashed] using hy) h

theorem lifecycleActionToString_injective :
    Function.Injective External.lifecycleActionToString := by
  intro a b h
  cases a <;> cases b <;> first | rfl | exact absurd h (by decide)

end Sample

open Sample in
/-- Groups in another order, and a guarantee that is required anyway. -/
theorem request_identity_exact_reordered :
    (declaration ⟨[27, 44], by decide⟩ []).content =
      (declaration ⟨[44, 27], by decide⟩ [.of .rootView]).content :=
  (request_identity_exact (seal_declaration rfl (by simp))
    (seal_declaration rfl (fun _ ha => ⟨.rootView, List.mem_singleton.mp ha, trivial⟩))
    (fun _ _ _ => rfl) lifecycleActionToString_injective
    (by rw [Set.union_self]; exact sha256_injOn_hashed)).mp rfl

end Pkgexec
