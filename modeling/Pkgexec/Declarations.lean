/-
# What is refused, and with which error

The factories of `src/model.cpp` and `src/request.cpp` sort what they are given and search the
sorted lists.  What they refuse is said here without either: a declaration is a list of checks on
its arguments, in the order in which the factories make them, and a check that names what is
wrong names the least of what is repeated, or the guarantee that comes first.

* Sections 1 to 5: the checks of the vocabulary, of the four policies and of the additional
  guarantees, each factory failing exactly as its checks say.
* Section 6: the checks of a declaration, and what it is sealed as (`declarations_exact`).
* Section 7: a request declared again from what it holds (`redeclared`).
-/
import Pkgexec.Lib.Checks
import Pkgexec.RequestIdentity

namespace Pkgexec

open Bytes Ranges Checks

/-! ## 1. Vocabulary

For an enumeration a caller may pass any integer, so the check is on the raw value.  The factories
make it for single values and, for guarantees, for a whole list at once. -/

section Vocabulary

variable {E : Type} [DecidableEq E] [Enumeration E]

/-- `if (!detail::valid(value)) ...` -/
def Raw.checks (value : Raw E) (code : ErrorCode) (message : Bytes) : List (Check Error) :=
  [.when (∀ e, value ≠ .of e) ⟨code, message⟩]

/-- The check on one value. -/
theorem Raw.require_checked {value : Raw E} {code : ErrorCode} {message : Bytes} :
    Checked (value.require code message) (value.checks code message) := by
  by_cases h : ∃ e, value = .of e
  · obtain ⟨e, rfl⟩ := h
    rw [Raw.require_of]
    exact .pass_when (fun hno => hno e rfl) .ok
  · have hno : ∀ e, value ≠ .of e := fun e he => h ⟨e, he⟩
    rw [Raw.require_eq_error hno]
    exact .fail_when hno

/-- The same for every value of a list. -/
theorem Raw.requireAll_checked {values : List (Raw E)} {code : ErrorCode} {message : Bytes} :
    Checked (Raw.requireAll values code message)
      [.when (∃ v ∈ values, ∀ e, v ≠ .of e) ⟨code, message⟩] := by
  rcases Raw.forall_of_or_exists values with ⟨es, rfl⟩ | hbad
  · rw [Raw.requireAll_map_of]
    refine .pass_when ?_ .ok
    rintro ⟨v, hv, hno⟩
    obtain ⟨e, -, rfl⟩ := List.mem_map.mp hv
    exact hno e rfl
  · rw [Raw.requireAll_eq_error hbad]
    exact .fail_when hbad

end Vocabulary

section Declarations

variable [External]

/-! ## 2. Layouts

`resource_layout::seal` sorts the bindings, looks for two neighbours with one slot, and then goes
through the slots for a mount point that was used before.  Of the list as it was given this says:
the repeated slot that is named is the least one, and the mount point that is named is that of the
first binding, by slot, to use one a second time. -/

namespace ResourceBinding

/-- A binding of an earlier slot has its mount point. -/
def Remounted (bindings : List ResourceBinding) (b : ResourceBinding) : Prop :=
  b ∈ bindings ∧ ∃ b' ∈ bindings, b'.slot < b.slot ∧ b'.mountPoint = b.mountPoint

/-- The first such binding, in the order of the slots. -/
def FirstRemounted (bindings : List ResourceBinding) (b : ResourceBinding) : Prop :=
  Remounted bindings b ∧ ∀ c, Remounted bindings c → b.slot ≤ c.slot

omit [External] in
/-- Neither depends on the order of the list, -/
theorem remounted_congr {l l' : List ResourceBinding} (h : l.Perm l') {b : ResourceBinding} :
    Remounted l b ↔ Remounted l' b := by
  simp only [Remounted, h.mem_iff]

omit [External] in
/-- so the sorted list may stand for the one that was given. -/
theorem firstRemounted_congr {l l' : List ResourceBinding} (h : l.Perm l')
    {b : ResourceBinding} : FirstRemounted l b ↔ FirstRemounted l' b := by
  simp only [FirstRemounted, remounted_congr h]

omit [External] in
/-- Different mount points, -/
theorem not_remounted {l : List ResourceBinding} (h : (l.map (·.mountPoint)).Nodup)
    (b : ResourceBinding) : ¬ Remounted l b := by
  rintro ⟨hb, b', hb', hslot, hmount⟩
  obtain rfl := List.inj_on_of_nodup_map h hb' hb hmount
  exact absurd hslot (lt_irrefl _)

omit [External] in
/-- and one that is used twice: the loop stops at the first binding in order. -/
theorem firstRemounted_of_find {l : List ResourceBinding} {b : ResourceBinding}
    (hslots : l.Pairwise (fun a b => a.slot < b.slot))
    (h : firstRepeated (·.mountPoint) [] l = some b) : FirstRemounted l b := by
  obtain ⟨pre, post, rfl, hkey, hnodup, -⟩ := firstRepeated_eq_some h
  rw [List.pairwise_append, List.pairwise_cons] at hslots
  obtain ⟨-, ⟨hpost, -⟩, hpre⟩ := hslots
  obtain ⟨b', hb', hmount⟩ : ∃ b' ∈ pre, b'.mountPoint = b.mountPoint := by
    rcases hkey with hkey | hkey
    · exact absurd hkey (by simp)
    · exact List.mem_map.mp hkey
  refine ⟨⟨by simp, b', by simp [hb'], hpre b' hb' b List.mem_cons_self, hmount⟩, ?_⟩
  rintro c ⟨hc, c', hc', hslot, hmount'⟩
  rcases List.mem_append.mp hc with hc | hc
  · -- a binding before the first one would repeat a mount point there
    rcases List.mem_append.mp hc' with hc' | hc'
    · obtain rfl := List.inj_on_of_nodup_map hnodup hc' hc hmount'
      exact absurd hslot (lt_irrefl _)
    · exact absurd hslot (not_lt_of_gt (hpre c hc c' hc'))
  · rcases List.mem_cons.mp hc with rfl | hc
    · exact le_rfl
    · exact (hpost c hc).le

end ResourceBinding

namespace ResourceLayout

/-- The checks of `resource_layout::seal`. -/
def checks (bindings : Vec ResourceBinding) (workingDirectory : ResourceSlot) :
    List (Check Error) :=
  [.when (bindings.val = [])
      ⟨.missingWorkingDirectory, text "execution resource layouts cannot be empty"⟩,
    .naming (LeastRepeated (bindings.val.map (·.slot)))
      (fun slot => ⟨.duplicateResource, text "duplicate execution resource slot " ++ slot.text⟩),
    .naming (ResourceBinding.FirstRemounted bindings.val)
      (fun b => ⟨.duplicateMountPoint,
        text "multiple execution resources use mount point " ++ b.mountPoint.value.val⟩),
    .when (∀ b ∈ bindings.val, b.slot ≠ workingDirectory)
      ⟨.missingWorkingDirectory,
        text "working-directory resource is absent from the resource layout"⟩]

theorem seal_checked {bindings : Vec ResourceBinding} {wd : ResourceSlot} :
    Checked (ResourceLayout.seal bindings wd) (checks bindings wd) := by
  have hperm : (Vec.sorted bindings).val.Perm bindings.val := sort_perm bindings.val
  have hslot_le : (Vec.sorted bindings).val.Pairwise (fun a b => a.slot ≤ b.slot) :=
    (sort_sorted bindings.val).imp ResourceBinding.slot_le
  unfold ResourceLayout.seal
  split
  · rename_i hempty
    exact .fail_when hempty
  rename_i hempty
  refine .pass_when hempty ?_
  split
  · rename_i b hfind
    have hleast : LeastRepeated (bindings.val.map (·.slot)) b.slot :=
      (leastRepeated_congr (hperm.map _)).mp
        (leastRepeated_of_adjacentFind (fun _ _ => decide_eq_true_iff) hslot_le hfind)
    exact .fail_naming hleast rfl (fun slot hslot => by rw [hslot.unique hleast])
  rename_i hfind
  have hstrict := ResourceBinding.slots_strict_of_sorted hfind
  have hslots : (bindings.val.map (·.slot)).Nodup :=
    (hperm.map _).nodup_iff.mp ((strict_iff_nodup hslot_le).mp hstrict)
  refine .pass_naming (not_leastRepeated hslots) ?_
  split
  · rename_i b hfirst
    have hremounted : ResourceBinding.FirstRemounted bindings.val b :=
      (ResourceBinding.firstRemounted_congr hperm).mp
        (ResourceBinding.firstRemounted_of_find hstrict hfirst)
    refine .fail_naming hremounted rfl (fun c hc => ?_)
    have hslot : c.slot = b.slot := le_antisymm (hc.2 b hremounted.1) (hremounted.2 c hc.1)
    rw [List.inj_on_of_nodup_map hslots hc.1.1 hremounted.1.1 hslot]
  rename_i hfirst
  have hmounts : (bindings.val.map (·.mountPoint)).Nodup :=
    (hperm.map _).nodup_iff.mp (nodup_of_firstRepeated hfirst).1
  refine .pass_naming (fun b hb => ResourceBinding.not_remounted hmounts b hb.1) ?_
  split
  · rename_i hfound
    obtain ⟨b, hb, hslot⟩ := hfound
    exact .pass_when (fun hno => hno b (hperm.mem_iff.mp hb) hslot) .ok
  · rename_i hfound
    exact .fail_when (fun b hb hslot => hfound ⟨b, hperm.mem_iff.mpr hb, hslot⟩)

end ResourceLayout

/-! ## 3. Environments

The vocabulary comes first, four values with one message between them, and then the checks of
`hermetic` in the order of the source.  An entry of the search path is not named when it is
repeated; a variable is, and it is the least that is repeated. -/

namespace EnvironmentPolicy

/-- The checks of `environment_policy::hermetic`. -/
def checks (executableSearchPath : Vec LogicalPath) (parallelism fileCreationMask : UInt32)
    (sourceDateEpoch : Option Int64) (network : Raw NetworkPolicy)
    (standardInput : Raw StdinPolicy) (standardOutput standardError : Raw StreamPolicy)
    (additionalVariables : Vec EnvironmentVariable) : List (Check Error) :=
  let unsupported := text "unsupported execution environment policy vocabulary"
  network.checks .invalidPolicy unsupported ++
    (standardInput.checks .invalidPolicy unsupported ++
    (standardOutput.checks .invalidPolicy unsupported ++
    (standardError.checks .invalidPolicy unsupported ++
  [.when (executableSearchPath.val = [])
      ⟨.invalidPolicy, text "closed execution PATH cannot be empty"⟩,
    .when (parallelism = 0)
      ⟨.invalidPolicy, text "execution parallelism must be greater than zero"⟩,
    .when (fileCreationMask > 0o777)
      ⟨.invalidPolicy, text "file creation mask must fit POSIX permission bits"⟩,
    .when (∃ t ∈ sourceDateEpoch, t < 0)
      ⟨.invalidPolicy, text "SOURCE_DATE_EPOCH cannot be negative"⟩,
    .when (¬ executableSearchPath.val.Nodup)
      ⟨.invalidPolicy, text "closed execution PATH contains a duplicate entry"⟩,
    .naming (LeastRepeated (additionalVariables.val.map (·.name)))
      (fun name => ⟨.duplicateEnvironmentVariable,
        text "duplicate admitted environment variable " ++ name.val⟩)])))

/-- Each branch of the source is one check of the list. -/
theorem hermetic_checked {path : Vec LogicalPath} {home tmp : LogicalPath} {par mask : UInt32}
    {epoch : Option Int64} {network : Raw NetworkPolicy} {input : Raw StdinPolicy}
    {output error : Raw StreamPolicy} {vars : Vec EnvironmentVariable} :
    Checked (hermetic path home tmp par mask epoch network input output error vars)
      (checks path par mask epoch network input output error vars) := by
  have hperm : (Vec.sorted vars).val.Perm vars.val := sort_perm vars.val
  have hname_le : (Vec.sorted vars).val.Pairwise (fun a b => a.name ≤ b.name) :=
    (sort_sorted vars.val).imp EnvironmentVariable.name_le
  refine Raw.require_checked.bind (fun network' _ => ?_)
  refine Raw.require_checked.bind (fun input' _ => ?_)
  refine Raw.require_checked.bind (fun output' _ => ?_)
  refine Raw.require_checked.bind (fun error' _ => ?_)
  split
  · rename_i hpath
    exact .fail_when hpath
  rename_i hpath
  refine .pass_when hpath ?_
  split
  · rename_i hpar
    exact .fail_when hpar
  rename_i hpar
  refine .pass_when hpar ?_
  split
  · rename_i hmask
    exact .fail_when hmask
  rename_i hmask
  refine .pass_when hmask ?_
  split
  · rename_i hepoch
    exact .fail_when hepoch
  rename_i hepoch
  refine .pass_when hepoch ?_
  split
  · rename_i repeated hdup
    refine .fail_when (fun hnodup => ?_)
    have hnone : firstRepeated id [] path.val = none :=
      firstRepeated_eq_none (by rwa [List.map_id]) (by simp)
    rw [hnone] at hdup
    exact absurd hdup (by simp)
  rename_i hdup
  refine .pass_when (not_not.mpr (LogicalPath.nodup_of_firstRepeated hdup)) ?_
  split
  · rename_i v hfind
    have hleast : LeastRepeated (vars.val.map (·.name)) v.name :=
      (leastRepeated_congr (hperm.map _)).mp
        (leastRepeated_of_adjacentFind (fun _ _ => decide_eq_true_iff) hname_le hfind)
    exact .fail_naming hleast rfl (fun name hname => by rw [hname.unique hleast])
  · rename_i hfind
    have hnames : (vars.val.map (·.name)).Nodup :=
      (hperm.map _).nodup_iff.mp ((strict_iff_nodup hname_le).mp
        (EnvironmentVariable.names_strict_of_sorted hfind))
    exact .pass_naming (not_leastRepeated hnames) .ok

end EnvironmentPolicy

/-! ## 4. Credentials and limits

Supplementary groups are sorted, searched for neighbours, and searched again for the primary group.
Of the list as it was given these are two questions: whether it has repetitions, and whether the
primary group is in it. -/

namespace CredentialPolicy

/-- The checks of `credential_policy::fixed`. -/
def checks (groupId : UInt64) (supplementaryGroups : Vec UInt64) : List (Check Error) :=
  [.when (¬ supplementaryGroups.val.Nodup)
      ⟨.invalidPolicy, text "supplementary credential groups must be unique"⟩,
    .when (groupId ∈ supplementaryGroups.val)
      ⟨.invalidPolicy, text "primary group must not be repeated as a supplementary group"⟩]

/-- Sorting changes neither answer. -/
theorem fixed_checked {uid gid : UInt64} {groups : Vec UInt64} {nnp : Bool} :
    Checked (fixed uid gid groups nnp) (checks gid groups) := by
  have hperm : (Vec.sorted groups).val.Perm groups.val := sort_perm groups.val
  have hsorted : (Vec.sorted groups).val.Pairwise (fun a b => id a ≤ id b) :=
    sort_sorted groups.val
  have hunique : adjacentFind (· == ·) (Vec.sorted groups).val = none ↔ groups.val.Nodup := by
    rw [adjacentFind_eq_none_iff (by simp) hsorted, List.map_id]
    exact hperm.nodup_iff
  unfold fixed
  split
  · rename_i hfind
    refine .fail_when (fun hnodup => ?_)
    rw [hunique.mpr hnodup] at hfind
    exact absurd hfind (by simp)
  rename_i hfind
  refine .pass_when (not_not.mpr (hunique.mp hfind)) ?_
  have hmember : binarySearch (Vec.sorted groups).val gid = true ↔ gid ∈ groups.val :=
    (binarySearch_iff (sort_sorted groups.val)).trans mem_sort
  split
  · rename_i hgroup
    exact .fail_when (hmember.mp hgroup)
  · rename_i hgroup
    exact .pass_when (fun hmem => hgroup (hmember.mpr hmem)) .ok

end CredentialPolicy

/-- The check of `require_positive`. -/
def positiveChecks (value : Option UInt64) (field : String) : List (Check Error) :=
  [.when (value = some 0) ⟨.invalidPolicy, text field ++ text " must be greater than zero"⟩]

omit [External] in
/-- An absent limit is never refused. -/
theorem requirePositive_checked {value : Option UInt64} {field : String} :
    Checked (requirePositive value field) (positiveChecks value field) := by
  unfold requirePositive
  split
  · rename_i hzero
    exact .fail_when hzero
  · rename_i hpositive
    exact .pass_when hpositive .ok

namespace ResourceLimits

/-- Some limit is set. -/
theorem exists_limit (l : ResourceLimits) : (∃ kind, (l.limit kind).isSome = true) ↔
    l.cpuTimeMilliseconds.isSome = true ∨ l.addressSpaceBytes.isSome = true ∨
      l.fileSizeBytes.isSome = true ∨ l.openFiles.isSome = true ∨
      l.processCount.isSome = true := by
  constructor
  · rintro ⟨kind, hkind⟩
    cases kind <;> simp_all
  · rintro (h | h | h | h | h)
    · exact ⟨.cpuTime, h⟩
    · exact ⟨.addressSpace, h⟩
    · exact ⟨.fileSize, h⟩
    · exact ⟨.openFiles, h⟩
    · exact ⟨.processCount, h⟩

/-- The checks of `resource_limits::make`. -/
def checks (cpuTimeMilliseconds addressSpaceBytes fileSizeBytes openFiles
    processCount : Option UInt64) : List (Check Error) :=
  positiveChecks cpuTimeMilliseconds "CPU time limit" ++
    (positiveChecks addressSpaceBytes "address-space limit" ++
    (positiveChecks fileSizeBytes "file-size limit" ++
    (positiveChecks openFiles "open-file limit" ++
    positiveChecks processCount "process-count limit")))

/-- The fields are checked in the order of the parameters, each under its own name. -/
theorem make_checked {cpu address file files processes : Option UInt64} :
    Checked (make cpu address file files processes)
      (checks cpu address file files processes) := by
  refine requirePositive_checked.bind (fun ⟨_⟩ _ => ?_)
  refine requirePositive_checked.bind (fun ⟨_⟩ _ => ?_)
  refine requirePositive_checked.bind (fun ⟨_⟩ _ => ?_)
  refine requirePositive_checked.bind (fun ⟨_⟩ _ => ?_)
  exact requirePositive_checked.bind_nil (fun ⟨_⟩ _ => .ok)

end ResourceLimits

/-! ## 5. Additional guarantees

A caller may ask for guarantees besides those that the policies demand, but only for such as a
policy does demand.  The source pushes both onto one list, sorts it, and stops at the first
guarantee that is in conflict: that is the least one that was asked for and is not demanded, since
what was derived is demanded. -/

/-- What `require_consistent_guarantee` throws. -/
def conflict (guarantee : ExecutionGuarantee) : Error :=
  ⟨.invalidPolicy, text "required execution guarantee conflicts with the request policy: "
    ++ guarantee.toString⟩

section Guarantees

variable {resources : ResourceLayout} {environment : EnvironmentPolicy} {limits : ResourceLimits}
  {cancellation : CancellationPolicy}

/-- A list in order is searched for the least guarantee that is not demanded. -/
theorem requireConsistent_checked {gs : List ExecutionGuarantee} (h : gs.Pairwise (· < ·)) :
    Checked (requireConsistent resources environment limits cancellation gs)
      [.naming (IsLeast {g | g ∈ gs ∧ ¬ Demanded resources environment limits cancellation g})
        conflict] := by
  induction gs with
  | nil =>
    refine .pass_naming ?_ .ok
    rintro g ⟨⟨hg, -⟩, -⟩
    exact absurd hg (by simp)
  | cons a gs ih =>
    obtain ⟨hlt, hgs⟩ := List.pairwise_cons.mp h
    by_cases ha : Demanded resources environment limits cancellation a
    · have hsame : {g | g ∈ a :: gs ∧ ¬ Demanded resources environment limits cancellation g} =
          {g | g ∈ gs ∧ ¬ Demanded resources environment limits cancellation g} := by
        ext g
        constructor
        · rintro ⟨hg, hno⟩
          rcases List.mem_cons.mp hg with rfl | hg
          · exact absurd ha hno
          · exact ⟨hg, hno⟩
        · rintro ⟨hg, hno⟩
          exact ⟨List.mem_cons_of_mem a hg, hno⟩
      rw [requireConsistent, requireConsistentGuarantee_eq_ok.mpr ha, hsame]
      exact ih hgs
    · have hno : consistentGuarantee resources environment limits cancellation a = false := by
        rwa [← Bool.not_eq_true, consistentGuarantee_iff]
      have hleast : IsLeast
          {g | g ∈ a :: gs ∧ ¬ Demanded resources environment limits cancellation g} a := by
        refine ⟨⟨List.mem_cons_self, ha⟩, ?_⟩
        rintro g ⟨hg, -⟩
        rcases List.mem_cons.mp hg with rfl | hg
        · exact le_rfl
        · exact (hlt g hg).le
      rw [requireConsistent, requireConsistentGuarantee, hno]
      exact .fail_naming hleast rfl (fun g hg => by rw [hg.unique hleast])

/-- The checks of `derive_required_guarantees` on the additional guarantees. -/
def guaranteeChecks (demanded : ExecutionGuarantee → Prop)
    (additional : List (Raw ExecutionGuarantee)) : List (Check Error) :=
  [.when (∃ v ∈ additional, ∀ g, v ≠ .of g)
      ⟨.invalidPolicy, text "unsupported required execution guarantee"⟩,
    .naming (IsLeast {g | .of g ∈ additional ∧ ¬ demanded g}) conflict]

/-- First the vocabulary of the whole list, then the least conflict. -/
theorem deriveRequiredGuarantees_checked {additional : List (Raw ExecutionGuarantee)} :
    Checked (deriveRequiredGuarantees resources environment limits cancellation additional)
      (guaranteeChecks (Demanded resources environment limits cancellation) additional) := by
  refine Raw.requireAll_checked.bind (fun es hes => ?_)
  obtain rfl := Raw.requireAll_eq_ok.mp hes
  -- what is pushed is demanded, so only an additional guarantee can be in conflict
  have hsame : {g | g ∈ normalize
        (es ++ derivedGuarantees resources environment limits cancellation) ∧
        ¬ Demanded resources environment limits cancellation g} =
      {g | .of g ∈ es.map Raw.of ∧ ¬ Demanded resources environment limits cancellation g} := by
    ext g
    simp only [Set.mem_ofPred_eq, mem_normalize, List.mem_append, mem_derivedGuarantees,
      List.mem_map_of_injective Raw.of_injective]
    constructor
    · rintro ⟨hg | hg, hno⟩
      · exact ⟨hg, hno⟩
      · exact absurd hg hno
    · rintro ⟨hg, hno⟩
      exact ⟨.inl hg, hno⟩
  rw [← hsame]
  exact (requireConsistent_checked (normalize_strict _)).bind_nil (fun _ _ => .ok)

end Guarantees

/-- `execution_request::seal` can only fail where the guarantees are derived. -/
theorem ExecutionRequest.seal_checked {program : Program} {purpose : ExecutionPurpose}
    {interpreter : InterpreterIdentity} {rootView : RootViewIdentity} {resources : ResourceLayout}
    {environment : EnvironmentPolicy} {credentials : CredentialPolicy} {limits : ResourceLimits}
    {cancellation : CancellationPolicy} {additional : List (Raw ExecutionGuarantee)} :
    Checked (ExecutionRequest.seal program purpose interpreter rootView resources environment
        credentials limits cancellation additional)
      (guaranteeChecks (Demanded resources environment limits cancellation) additional) := by
  intro e
  rw [← deriveRequiredGuarantees_checked e]
  constructor
  · intro h
    cases hderive : deriveRequiredGuarantees resources environment limits cancellation
        additional with
    | ok guarantees =>
      obtain ⟨q, hq⟩ : ∃ q, ExecutionRequest.seal program purpose interpreter rootView resources
          environment credentials limits cancellation additional = .ok q :=
        ExecutionRequest.seal_of_derive hderive
      rw [hq] at h
      exact absurd h (by simp)
    | error e' =>
      rw [ExecutionRequest.seal_of_derive_error hderive] at h
      rw [Except.error.inj h]
  · exact ExecutionRequest.seal_of_derive_error

/-! ## 6. Declarations

A declaration is all that the factories of a request and of its policies are given.  It demands
guarantees by its own arguments (`Demands`), and the policies it is sealed to demand the same, so
its checks can be written down before anything is sealed. -/

namespace Declaration

/-- What a declaration demands of an executor, from its own arguments. -/
def Demands (a : Declaration) : ExecutionGuarantee → Prop
  | .exactInterpreter | .closedEnvironment | .rootView | .fixedCredentials
  | .cleanupVerified => True
  | .readOnlyResources => ∃ b ∈ a.bindings.val, b.access = .readOnly
  | .writableResources => ∃ b ∈ a.bindings.val, b.access = .writable
  | .networkDenied => a.network = .of .denied
  | .loopbackIsolated => a.network = .of .loopbackOnly
  | .resourceLimits => a.cpuTimeMilliseconds.isSome = true ∨ a.addressSpaceBytes.isSome = true ∨
      a.fileSizeBytes.isSome = true ∨ a.openFiles.isSome = true ∨ a.processCount.isSome = true
  | .cpuTimeLimit => a.cpuTimeMilliseconds.isSome = true
  | .addressSpaceLimit => a.addressSpaceBytes.isSome = true
  | .fileSizeLimit => a.fileSizeBytes.isSome = true
  | .openFilesLimit => a.openFiles.isSome = true
  | .processCountLimit => a.processCount.isSome = true
  | .cancellation => a.cancellation.mode ≠ .disabled
  | .completeStdoutCapture => a.standardOutput = .of .captureComplete
  | .completeStderrCapture => a.standardError = .of .captureComplete

/-- **The checks on a declaration**, in the order in which they are made. -/
def checks (a : Declaration) : List (Check Error) :=
  ResourceLayout.checks a.bindings a.workingDirectory ++
    (EnvironmentPolicy.checks a.executableSearchPath a.parallelism a.fileCreationMask
      a.sourceDateEpoch a.network a.standardInput a.standardOutput a.standardError
      a.additionalVariables ++
    (CredentialPolicy.checks a.groupId a.supplementaryGroups ++
    (ResourceLimits.checks a.cpuTimeMilliseconds a.addressSpaceBytes a.fileSizeBytes a.openFiles
      a.processCount ++
    guaranteeChecks a.Demands a.additionalRequiredGuarantees)))

variable {a : Declaration} {q : ExecutionRequest}

/-- The policies that a declaration is sealed to demand what it demands. -/
theorem demanded_eq {resources : ResourceLayout} {environment : EnvironmentPolicy}
    {limits : ResourceLimits}
    (hresources : ResourceLayout.seal a.bindings a.workingDirectory = .ok resources)
    (henvironment : EnvironmentPolicy.hermetic a.executableSearchPath a.homeDirectory
      a.temporaryDirectory a.parallelism a.fileCreationMask a.sourceDateEpoch a.network
      a.standardInput a.standardOutput a.standardError a.additionalVariables = .ok environment)
    (hlimits : ResourceLimits.make a.cpuTimeMilliseconds a.addressSpaceBytes a.fileSizeBytes
      a.openFiles a.processCount = .ok limits) :
    Demanded resources environment limits a.cancellation = a.Demands := by
  obtain ⟨hbindings, -⟩ := ResourceLayout.seal_ok hresources
  obtain ⟨-, -, -, -, -, -, hnetwork, -, houtput, herror, -⟩ :=
    EnvironmentPolicy.hermetic_ok henvironment
  obtain ⟨hcpu, haddress, hfile, hopen, hprocess⟩ := ResourceLimits.make_ok hlimits
  funext g
  apply propext
  cases g <;> simp only [Demanded, Demands, hbindings, hnetwork, houtput, herror,
    ResourceLimits.exists_limit, ResourceLimits.limit_cpuTime, ResourceLimits.limit_addressSpace,
    ResourceLimits.limit_fileSize, ResourceLimits.limit_openFiles,
    ResourceLimits.limit_processCount, hcpu, haddress, hfile, hopen, hprocess,
    Raw.of_injective.eq_iff]

theorem seal_checked : Checked a.seal a.checks := by
  refine ResourceLayout.seal_checked.bind (fun resources hresources => ?_)
  refine EnvironmentPolicy.hermetic_checked.bind (fun environment henvironment => ?_)
  refine CredentialPolicy.fixed_checked.bind (fun credentials _ => ?_)
  refine ResourceLimits.make_checked.bind (fun limits hlimits => ?_)
  rw [← demanded_eq hresources henvironment hlimits]
  exact ExecutionRequest.seal_checked

/-- A declaration that passes every check is sealed to the request of its content. -/
theorem seal_of_passes (h : ∀ c ∈ a.checks, c.Passes) (hcontent : q.content = a.content) :
    a.seal = .ok q := by
  obtain ⟨q', hq'⟩ := seal_checked.ok_iff.mpr h
  have hsame : q' = q :=
    ExecutionRequest.content_injective ((content_seal hq').trans hcontent.symm)
  rw [hq', hsame]

/-- **Declarations are refused with the error of their first failing check, and sealed to their
content otherwise.**  Neither depends on how lists are sorted or searched: the checks speak of
the declared lists, and a repeated slot, variable or mount point that is named is the least. -/
theorem declarations_exact (a : Declaration) :
    (∀ e, a.seal = .error e ↔ First a.checks e) ∧
      ∀ q, a.seal = .ok q ↔ (∀ c ∈ a.checks, c.Passes) ∧ q.content = a.content := by
  refine ⟨seal_checked, fun q => ⟨fun h => ?_, fun ⟨hpass, hcontent⟩ => ?_⟩⟩
  · exact ⟨seal_checked.ok_iff.mp ⟨q, h⟩, content_seal h⟩
  · exact seal_of_passes hpass hcontent

end Declaration

/-! ## 7. Declared again

What a request holds was sealed, so it passes the checks that it passed before; the sorted lists of
a sealed policy are as good as those it was made from.  Only the checks on the additional
guarantees can fail, and they ask for what the request requires. -/

/-- A sealed layout passes the checks on a layout, -/
theorem ResourceLayout.passes (l : ResourceLayout) :
    ∀ c ∈ ResourceLayout.checks l.bindings l.workingDirectory, c.Passes := by
  have hslots : (l.bindings.val.map (·.slot)).Nodup :=
    List.pairwise_map.mpr (l.slots_strict.imp ne_of_lt)
  obtain ⟨b, hb, hslot⟩ := l.working_found
  simp only [ResourceLayout.checks, List.forall_mem_cons, Check.passes_when, Check.passes_naming]
  refine ⟨List.ne_nil_of_mem hb, not_leastRepeated hslots, ?_, fun hno => hno b hb hslot, by simp⟩
  intro c hc
  exact ResourceBinding.not_remounted l.mount_points_nodup c hc.1

omit [External] in
/-- an enumerator the check on its vocabulary, -/
theorem Raw.passes_of {E : Type} [DecidableEq E] [Enumeration E] (e : E) (code : ErrorCode)
    (message : Bytes) : ∀ c ∈ (Raw.of e).checks code message, c.Passes := by
  simp only [Raw.checks, List.forall_mem_cons, Check.passes_when]
  exact ⟨fun hno => hno e rfl, by simp⟩

/-- a sealed environment those on an environment, -/
theorem EnvironmentPolicy.passes (e : EnvironmentPolicy) :
    ∀ c ∈ EnvironmentPolicy.checks e.executableSearchPath e.parallelism e.fileCreationMask
      e.sourceDateEpoch (.of e.network) (.of e.standardInput) (.of e.standardOutput)
      (.of e.standardError) e.additionalVariables, c.Passes := by
  have hnames : (e.additionalVariables.val.map (·.name)).Nodup :=
    List.pairwise_map.mpr (e.names_strict.imp ne_of_lt)
  simp only [EnvironmentPolicy.checks, List.forall_mem_append, List.forall_mem_cons,
    Check.passes_when, Check.passes_naming]
  refine ⟨Raw.passes_of _ _ _, Raw.passes_of _ _ _, Raw.passes_of _ _ _, Raw.passes_of _ _ _,
    e.path_nonempty, e.parallelism_positive, UInt32.not_lt.mpr e.mask_fits, ?_,
    not_not.mpr e.path_nodup, not_leastRepeated hnames, by simp⟩
  rintro ⟨t, ht, hneg⟩
  exact Int64.not_lt.mpr (e.epoch_nonneg t ht) hneg

/-- and so do credentials -/
theorem CredentialPolicy.passes (c : CredentialPolicy) :
    ∀ check ∈ CredentialPolicy.checks c.groupId c.supplementaryGroups, check.Passes := by
  simp only [CredentialPolicy.checks, List.forall_mem_cons, Check.passes_when]
  exact ⟨not_not.mpr (c.groups_strict.imp ne_of_lt), c.primary_not_repeated, by simp⟩

/-- and limits. -/
theorem ResourceLimits.passes (l : ResourceLimits) :
    ∀ c ∈ ResourceLimits.checks l.cpuTimeMilliseconds l.addressSpaceBytes l.fileSizeBytes
      l.openFiles l.processCount, c.Passes := by
  simp only [ResourceLimits.checks, positiveChecks, List.forall_mem_append, List.forall_mem_cons,
    Check.passes_when]
  exact ⟨⟨l.cpu_time_positive, by simp⟩, ⟨l.address_space_positive, by simp⟩,
    ⟨l.file_size_positive, by simp⟩, ⟨l.open_files_positive, by simp⟩,
    ⟨l.process_count_positive, by simp⟩⟩

namespace ExecutionRequest

/-- A request as it would be declared: what it holds, with its guarantees as additional ones. -/
def declaration (q : ExecutionRequest) : Declaration where
  program := q.program
  purpose := q.purpose
  interpreter := q.interpreter
  rootView := q.rootView
  bindings := q.resources.bindings
  workingDirectory := q.resources.workingDirectory
  executableSearchPath := q.environment.executableSearchPath
  homeDirectory := q.environment.homeDirectory
  temporaryDirectory := q.environment.temporaryDirectory
  parallelism := q.environment.parallelism
  fileCreationMask := q.environment.fileCreationMask
  sourceDateEpoch := q.environment.sourceDateEpoch
  network := .of q.environment.network
  standardInput := .of q.environment.standardInput
  standardOutput := .of q.environment.standardOutput
  standardError := .of q.environment.standardError
  additionalVariables := q.environment.additionalVariables
  userId := q.credentials.userId
  groupId := q.credentials.groupId
  supplementaryGroups := q.credentials.supplementaryGroups
  noNewPrivileges := q.credentials.noNewPrivileges
  cpuTimeMilliseconds := q.limits.cpuTimeMilliseconds
  addressSpaceBytes := q.limits.addressSpaceBytes
  fileSizeBytes := q.limits.fileSizeBytes
  openFiles := q.limits.openFiles
  processCount := q.limits.processCount
  cancellation := q.cancellation
  additionalRequiredGuarantees := q.requiredGuarantees.map Raw.of

/-- What a request requires is demanded by what it holds. -/
theorem demands_declaration (q : ExecutionRequest) (g : ExecutionGuarantee) :
    q.declaration.Demands g ↔ g ∈ q.requiredGuarantees := by
  rw [q.mem_required]
  cases g <;> simp only [Demanded, Declaration.Demands, declaration, ResourceLimits.exists_limit,
    ResourceLimits.limit_cpuTime, ResourceLimits.limit_addressSpace, ResourceLimits.limit_fileSize,
    ResourceLimits.limit_openFiles, ResourceLimits.limit_processCount, Raw.of_injective.eq_iff]

/-- The declaration, with other additional guarantees. -/
def declarationWith (q : ExecutionRequest) (additional : List (Raw ExecutionGuarantee)) :
    Declaration :=
  { q.declaration with additionalRequiredGuarantees := additional }

/-- Additional guarantees are not part of what is declared. -/
theorem content_declarationWith (q : ExecutionRequest) (additional : List (Raw ExecutionGuarantee)) :
    q.content = (q.declarationWith additional).content := rfl

/-- Only the checks on the additional guarantees are left. -/
theorem check_declarationWith {q : ExecutionRequest} {additional : List (Raw ExecutionGuarantee)}
    {c : Check Error} (hc : c ∈ (q.declarationWith additional).checks) :
    c.Passes ∨ c ∈ guaranteeChecks q.declaration.Demands additional := by
  simp only [Declaration.checks, List.mem_append] at hc
  rcases hc with hc | hc | hc | hc | hc
  · exact .inl (q.resources.passes c hc)
  · exact .inl (q.environment.passes c hc)
  · exact .inl (q.credentials.passes c hc)
  · exact .inl (q.limits.passes c hc)
  · exact .inr hc

/-- They pass on what the request requires. -/
theorem guaranteeChecks_pass_iff {q : ExecutionRequest}
    {additional : List (Raw ExecutionGuarantee)} :
    (∀ c ∈ guaranteeChecks q.declaration.Demands additional, c.Passes) ↔
      ∀ v ∈ additional, ∃ g ∈ q.requiredGuarantees, v = .of g := by
  have hdemands : q.declaration.Demands =
      Demanded q.resources q.environment q.limits q.cancellation :=
    funext (fun g => propext ((q.demands_declaration g).trans (q.mem_required g)))
  have hrequired : (∀ v ∈ additional, ∃ g ∈ q.requiredGuarantees, v = .of g) ↔
      ∀ v ∈ additional, ∃ g, v = .of g ∧
        Demanded q.resources q.environment q.limits q.cancellation g := by
    simp only [q.mem_required, and_comm]
  rw [hdemands, hrequired, ← deriveRequiredGuarantees_checked.ok_iff]
  constructor
  · rintro ⟨guarantees, hguarantees⟩
    by_contra hno
    obtain ⟨e, he, -⟩ := deriveRequiredGuarantees_raises hno
    exact absurd (hguarantees.symm.trans he) (by simp)
  · intro h
    exact ⟨_, deriveRequiredGuarantees_ok h⟩

/-- **A request is what its own fields are sealed to**, with any of its guarantees as additional
ones, in any order and number; with any other guarantee it is an invalid policy. -/
theorem redeclared (q : ExecutionRequest) (additional : List (Raw ExecutionGuarantee)) :
    ((q.declarationWith additional).seal = .ok q ↔
        ∀ v ∈ additional, ∃ g ∈ q.requiredGuarantees, v = .of g) ∧
      ((q.declarationWith additional).seal ≠ .ok q →
        Raises (q.declarationWith additional).seal .invalidPolicy) := by
  have hiff : (q.declarationWith additional).seal = .ok q ↔
      ∀ v ∈ additional, ∃ g ∈ q.requiredGuarantees, v = .of g := by
    rw [← guaranteeChecks_pass_iff]
    constructor
    · intro h c hc
      refine Declaration.seal_checked.ok_iff.mp ⟨q, h⟩ c ?_
      simp only [Declaration.checks, List.mem_append]
      exact .inr (.inr (.inr (.inr hc)))
    · intro h
      refine Declaration.seal_of_passes (fun c hc => ?_) (q.content_declarationWith additional)
      rcases check_declarationWith hc with hpass | hc
      · exact hpass
      · exact h c hc
  refine ⟨hiff, fun hne => ?_⟩
  have hfails : ¬ ∀ c ∈ (q.declarationWith additional).checks, c.Passes :=
    fun hpass => hne (Declaration.seal_of_passes hpass (q.content_declarationWith additional))
  obtain ⟨e, he⟩ := exists_first hfails
  refine ⟨e, (Declaration.seal_checked e).mpr he, ?_⟩
  obtain ⟨c, hc, hreported⟩ := he.exists_check
  rcases check_declarationWith hc with hpass | hc
  · exact absurd hreported (hpass e)
  · simp only [guaranteeChecks, List.mem_cons, List.not_mem_nil, or_false] at hc
    rcases hc with rfl | rfl
    · obtain ⟨-, rfl⟩ := hreported
      rfl
    · obtain ⟨g, -, rfl⟩ := hreported
      rfl

end ExecutionRequest

end Declarations

end Pkgexec
