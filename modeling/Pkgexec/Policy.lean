/-
# Sealed policies and process evidence

The aggregate values of `src/model.cpp`: the resource layout, the environment, credential and
limit policies, each sealed by a factory that checks, sorts and hashes its arguments, and the
process termination and stream captures that a backend reports.

A sealed policy is canonical: its lists are strictly sorted, so two of them with the same
elements are the same list, and its identity is the hash of its preimage.
-/
import Pkgexec.Model

namespace Pkgexec

open Bytes Ranges

/-! ## 1. Bindings in order

A layout keeps its bindings as `std::sort` leaves them.  As no slot occurs twice in what is kept,
the slots are strictly increasing. -/

/-- A vector as `std::sort` leaves it. -/
def Vec.sorted {α : Type} [LinearOrder α] (v : Vec α) : Vec α :=
  ⟨sort v.val, by rw [(sort_perm v.val).length_eq]; exact v.property⟩

namespace ResourceBinding

def sameSlot (a b : ResourceBinding) : Bool := a.slot = b.slot

/-- No two neighbours share a slot, so no two bindings do. -/
theorem slots_strict_of_sorted {bindings : Vec ResourceBinding}
    (h : adjacentFind sameSlot (Vec.sorted bindings).val = none) :
    (Vec.sorted bindings).val.Pairwise (fun a b => a.slot < b.slot) :=
  strict_of_adjacentFind (fun _ _ => decide_eq_true_iff) ((sort_sorted bindings.val).imp slot_le) h

/-- Bindings of increasing slots are increasing. -/
theorem lt_of_slot_lt {a b : ResourceBinding} (h : a.slot < b.slot) : a < b :=
  lt_of_not_ge (fun hba => absurd h (not_lt_of_ge (slot_le hba)))

end ResourceBinding

/-! ## 2. Environment variables

A variable is admitted under the locale of the moment, and stays admitted when the locale
changes. -/

/-- The checks of `environment_variable`'s constructor. -/
def checkEnvironmentVariable (ctype : Ctype) (name val : Bytes) : Except Error Unit :=
  if validEnvironmentName ctype name = false ∨ containsNul val = true then
    raise .invalidPolicy (text "environment variables require a valid name and NUL-free value")
  else if reservedEnvironmentName name = true then
    raise .reservedEnvironmentVariable
      (text "environment variable " ++ name ++ text " is owned by the closed policy")
  else .ok ()

/-- `environment_variable`, admitted under some locale. -/
@[ext] structure EnvironmentVariable where
  name : Str
  value : Str
  admitted : ∃ ctype, checkEnvironmentVariable ctype name.val value.val = .ok ()

namespace EnvironmentVariable

/-- The constructor. -/
def make (ctype : Ctype) (name value : Str) : Except Error EnvironmentVariable :=
  match h : checkEnvironmentVariable ctype name.val value.val with
  | .ok () => .ok ⟨name, value, ctype, h⟩
  | .error e => .error e

theorem key_injective :
    Function.Injective (fun v : EnvironmentVariable => toLex (v.name, v.value)) := by
  intro a b h
  have hkey : (a.name, a.value) = (b.name, b.value) := toLex.injective h
  exact EnvironmentVariable.ext (congrArg Prod.fst hkey) (congrArg Prod.snd hkey)

/-- `operator<` compares the name, then the value. -/
instance : LinearOrder EnvironmentVariable := LinearOrder.lift' _ key_injective

/-- The name is the first component of the order, -/
theorem name_le {a b : EnvironmentVariable} (h : a ≤ b) : a.name ≤ b.name := by
  have hkey : toLex (a.name, a.value) ≤ toLex (b.name, b.value) := h
  rcases Prod.Lex.le_iff.mp hkey with hlt | ⟨heq, -⟩
  · exact le_of_lt hlt
  · exact le_of_eq heq

/-- and decides it where the names differ. -/
theorem lt_of_name_lt {a b : EnvironmentVariable} (h : a.name < b.name) : a < b :=
  lt_of_not_ge (fun hba => absurd h (not_lt_of_ge (name_le hba)))

def sameName (a b : EnvironmentVariable) : Bool := a.name = b.name

/-- No two neighbours share a name, so no two variables do. -/
theorem names_strict_of_sorted {vars : Vec EnvironmentVariable}
    (h : adjacentFind sameName (Vec.sorted vars).val = none) :
    (Vec.sorted vars).val.Pairwise (fun a b => a.name < b.name) :=
  strict_of_adjacentFind (fun _ _ => decide_eq_true_iff) ((sort_sorted vars.val).imp name_le) h

end EnvironmentVariable

/-- A loop that finds no repetition has seen each path once. -/
theorem LogicalPath.nodup_of_firstRepeated {path : Vec LogicalPath}
    (h : firstRepeated id [] path.val = none) : path.val.Nodup := by
  have hnd := (Ranges.nodup_of_firstRepeated h).1
  rwa [List.map_id] at hnd

section Sealed

variable [External]

/-! ## 3. Resource layouts

The fields after the identity are what `resource_layout::seal` checks, and they hold of every
layout; that includes the order of its bindings, which `binding` relies on when it searches them. -/

/-- What `identify_layout` hashes. -/
def layoutPreimage (bindings : List ResourceBinding) (workingDirectory : ResourceSlot) :
    IdentityBuilder :=
  IdentityBuilder.new "pkgexec/resource-layout/v1"
    |>.addU64 (.ofNat bindings.length)
    |>.addEach bindings (fun hash binding => hash
      |>.addU8 (enumByte binding.slot.role)
      |>.addString binding.slot.name.val
      |>.addString binding.resource.hex.val
      |>.addU8 (enumByte binding.access)
      |>.addString binding.mountPoint.value.val)
    |>.addU8 (enumByte workingDirectory.role)
    |>.addString workingDirectory.name.val

/-- `resource_layout`. -/
structure ResourceLayout where
  bindings : Vec ResourceBinding
  workingDirectory : ResourceSlot
  identity : ResourceLayoutIdentity
  slots_strict : bindings.val.Pairwise (fun a b => a.slot < b.slot)
  mount_points_nodup : (bindings.val.map (·.mountPoint)).Nodup
  working_found : ∃ b ∈ bindings.val, b.slot = workingDirectory
  identified : identity = (layoutPreimage bindings.val workingDirectory).finish

/-- `resource_layout::seal`. -/
def ResourceLayout.seal (bindings : Vec ResourceBinding) (workingDirectory : ResourceSlot) :
    Except Error ResourceLayout :=
  if bindings.val = [] then
    raise .missingWorkingDirectory (text "execution resource layouts cannot be empty")
  else
    match hslots : adjacentFind ResourceBinding.sameSlot (Vec.sorted bindings).val with
    | some binding =>
      raise .duplicateResource (text "duplicate execution resource slot " ++ binding.slot.text)
    | none =>
      match hmounts :
          firstRepeated (·.mountPoint) [] (Vec.sorted bindings).val with
      | some binding =>
        raise .duplicateMountPoint
          (text "multiple execution resources use mount point " ++ binding.mountPoint.value.val)
      | none =>
        if hfound : ∃ b ∈ (Vec.sorted bindings).val, b.slot = workingDirectory then
          .ok {
            bindings := Vec.sorted bindings
            workingDirectory := workingDirectory
            identity :=
              (layoutPreimage (Vec.sorted bindings).val workingDirectory).finish
            slots_strict := ResourceBinding.slots_strict_of_sorted hslots
            mount_points_nodup := (nodup_of_firstRepeated hmounts).1
            working_found := hfound
            identified := rfl }
        else
          raise .missingWorkingDirectory
            (text "working-directory resource is absent from the resource layout")

namespace ResourceLayout

theorem strict (l : ResourceLayout) : l.bindings.val.Pairwise (· < ·) :=
  l.slots_strict.imp ResourceBinding.lt_of_slot_lt

/-- The identity follows from the other fields. -/
theorem eq_of_fields {l m : ResourceLayout} (hbindings : l.bindings = m.bindings)
    (hwd : l.workingDirectory = m.workingDirectory) : l = m := by
  obtain ⟨lb, lw, lid, _, _, _, lident⟩ := l
  obtain ⟨mb, mw, mid, _, _, _, mident⟩ := m
  obtain rfl : lb = mb := hbindings
  obtain rfl : lw = mw := hwd
  obtain rfl : lid = mid := lident.trans mident.symm
  rfl

/-- The sealed layout has the bindings it was given. -/
theorem seal_ok {bindings : Vec ResourceBinding} {wd : ResourceSlot} {l : ResourceLayout}
    (h : ResourceLayout.seal bindings wd = .ok l) :
    (∀ b, b ∈ l.bindings.val ↔ b ∈ bindings.val) ∧ l.workingDirectory = wd := by
  unfold ResourceLayout.seal at h
  split at h
  · exact absurd h raise_ne_ok
  split at h
  · exact absurd h raise_ne_ok
  split at h
  · exact absurd h raise_ne_ok
  split at h
  · obtain rfl := Except.ok.inj h
    exact ⟨fun b => mem_sort, rfl⟩
  · exact absurd h raise_ne_ok

end ResourceLayout

/-! ## 4. Environments

The search path keeps its order and the variables are sorted by name.  What is fixed in every
environment, as its locale and its timezone, is part of the preimage. -/

/-- The fields of an environment policy that its factory checks, sorts and hashes. -/
@[ext] structure EnvironmentFields where
  executableSearchPath : Vec LogicalPath
  homeDirectory : LogicalPath
  temporaryDirectory : LogicalPath
  parallelism : UInt32
  fileCreationMask : UInt32
  sourceDateEpoch : Option Int64
  network : NetworkPolicy
  standardInput : StdinPolicy
  standardOutput : StreamPolicy
  standardError : StreamPolicy
  additionalVariables : Vec EnvironmentVariable

/-- What `identify_environment` hashes. -/
def environmentPreimage (e : EnvironmentFields) : IdentityBuilder :=
  IdentityBuilder.new "pkgexec/environment-policy/v1"
    |>.addU8 (enumByte LocalePolicy.cUtf8)
    |>.addU8 (enumByte TimezonePolicy.utc)
    |>.addU8 (enumByte HomePolicy.isolated)
    |>.addU8 (enumByte e.network)
    |>.addU8 (enumByte e.standardInput)
    |>.addU8 (enumByte e.standardOutput)
    |>.addU8 (enumByte e.standardError)
    |>.addU64 (.ofNat e.executableSearchPath.val.length)
    |>.addEach e.executableSearchPath.val (fun hash path => hash.addString path.value.val)
    |>.addString e.homeDirectory.value.val
    |>.addString e.temporaryDirectory.value.val
    |>.addU32 e.parallelism
    |>.addU32 e.fileCreationMask
    |>.addOptionalI64 e.sourceDateEpoch
    |>.addU64 (.ofNat e.additionalVariables.val.length)
    |>.addEach e.additionalVariables.val (fun hash v => hash
      |>.addString v.name.val
      |>.addString v.value.val)

/-- `environment_policy`. -/
structure EnvironmentPolicy extends EnvironmentFields where
  identity : EnvironmentPolicyIdentity
  path_nonempty : executableSearchPath.val ≠ []
  path_nodup : executableSearchPath.val.Nodup
  parallelism_positive : parallelism ≠ 0
  mask_fits : fileCreationMask ≤ 0o777
  epoch_nonneg : ∀ t ∈ sourceDateEpoch, 0 ≤ t
  names_strict : additionalVariables.val.Pairwise (fun a b => a.name < b.name)
  identified : identity = (environmentPreimage toEnvironmentFields).finish

namespace EnvironmentPolicy

/-- `environment_policy::hermetic`. -/
def hermetic (executableSearchPath : Vec LogicalPath) (homeDirectory : LogicalPath)
    (temporaryDirectory : LogicalPath) (parallelism : UInt32) (fileCreationMask : UInt32)
    (sourceDateEpoch : Option Int64) (network : Raw NetworkPolicy)
    (standardInput : Raw StdinPolicy) (standardOutput : Raw StreamPolicy)
    (standardError : Raw StreamPolicy) (additionalVariables : Vec EnvironmentVariable) :
    Except Error EnvironmentPolicy := do
  let unsupported := text "unsupported execution environment policy vocabulary"
  let network ← network.require .invalidPolicy unsupported
  let standardInput ← standardInput.require .invalidPolicy unsupported
  let standardOutput ← standardOutput.require .invalidPolicy unsupported
  let standardError ← standardError.require .invalidPolicy unsupported
  if hpath : executableSearchPath.val = [] then
    raise .invalidPolicy (text "closed execution PATH cannot be empty")
  else if hpar : parallelism = 0 then
    raise .invalidPolicy (text "execution parallelism must be greater than zero")
  else if hmask : fileCreationMask > 0o777 then
    raise .invalidPolicy (text "file creation mask must fit POSIX permission bits")
  else if hepoch : ∃ t ∈ sourceDateEpoch, t < 0 then
    raise .invalidPolicy (text "SOURCE_DATE_EPOCH cannot be negative")
  else
    match hdup : firstRepeated id [] executableSearchPath.val with
    | some _ => raise .invalidPolicy (text "closed execution PATH contains a duplicate entry")
    | none =>
      match hnames : adjacentFind EnvironmentVariable.sameName
          (Vec.sorted additionalVariables).val with
      | some v =>
        raise .duplicateEnvironmentVariable
          (text "duplicate admitted environment variable " ++ v.name.val)
      | none =>
        let fields : EnvironmentFields := {
          executableSearchPath, homeDirectory, temporaryDirectory, parallelism,
          fileCreationMask, sourceDateEpoch, network, standardInput, standardOutput,
          standardError, additionalVariables := Vec.sorted additionalVariables }
        .ok { fields with
          identity := (environmentPreimage fields).finish
          path_nonempty := hpath
          path_nodup := LogicalPath.nodup_of_firstRepeated hdup
          parallelism_positive := hpar
          mask_fits := UInt32.not_lt.mp hmask
          epoch_nonneg := fun t ht => Int64.not_lt.mp (fun hlt => hepoch ⟨t, ht, hlt⟩)
          names_strict := EnvironmentVariable.names_strict_of_sorted hnames
          identified := rfl }

theorem strict (e : EnvironmentPolicy) : e.additionalVariables.val.Pairwise (· < ·) :=
  e.names_strict.imp EnvironmentVariable.lt_of_name_lt

theorem eq_of_fields {e f : EnvironmentPolicy}
    (hfields : e.toEnvironmentFields = f.toEnvironmentFields) : e = f := by
  obtain ⟨ef, eid, _, _, _, _, _, _, eident⟩ := e
  obtain ⟨ff, fid, _, _, _, _, _, _, fident⟩ := f
  obtain rfl : ef = ff := hfields
  obtain rfl : eid = fid := eident.trans fident.symm
  rfl

/-- The sealed policy has the fields it was given, the variables in order. -/
theorem hermetic_ok {path : Vec LogicalPath} {home tmp : LogicalPath} {par mask : UInt32}
    {epoch : Option Int64} {network : Raw NetworkPolicy} {input : Raw StdinPolicy}
    {output error : Raw StreamPolicy} {vars : Vec EnvironmentVariable} {e : EnvironmentPolicy}
    (h : hermetic path home tmp par mask epoch network input output error vars = .ok e) :
    e.executableSearchPath = path ∧ e.homeDirectory = home ∧ e.temporaryDirectory = tmp ∧
      e.parallelism = par ∧ e.fileCreationMask = mask ∧ e.sourceDateEpoch = epoch ∧
      network = .of e.network ∧ input = .of e.standardInput ∧ output = .of e.standardOutput ∧
      error = .of e.standardError ∧
      ∀ v, v ∈ e.additionalVariables.val ↔ v ∈ vars.val := by
  unfold hermetic at h
  obtain ⟨n, hn, h⟩ := bind_ok h
  obtain ⟨i, hi, h⟩ := bind_ok h
  obtain ⟨o, ho, h⟩ := bind_ok h
  obtain ⟨r, hr, h⟩ := bind_ok h
  rw [Raw.require_eq_ok] at hn hi ho hr
  split at h
  · exact absurd h raise_ne_ok
  split at h
  · exact absurd h raise_ne_ok
  split at h
  · exact absurd h raise_ne_ok
  split at h
  · exact absurd h raise_ne_ok
  split at h
  · exact absurd h raise_ne_ok
  split at h
  · exact absurd h raise_ne_ok
  obtain rfl := Except.ok.inj h
  exact ⟨rfl, rfl, rfl, rfl, rfl, rfl, hn, hi, ho, hr, fun v => mem_sort⟩

end EnvironmentPolicy

/-! ## 5. Credentials

The supplementary groups are sorted, and the primary group is not one of them. -/

/-- What `identify_credentials` hashes. -/
def credentialPreimage (userId groupId : UInt64) (supplementaryGroups : List UInt64)
    (noNewPrivileges : Bool) : IdentityBuilder :=
  IdentityBuilder.new "pkgexec/credential-policy/v1"
    |>.addU64 userId
    |>.addU64 groupId
    |>.addU64 (.ofNat supplementaryGroups.length)
    |>.addEach supplementaryGroups (fun hash group => hash.addU64 group)
    |>.addBool noNewPrivileges

/-- `credential_policy`. -/
structure CredentialPolicy where
  userId : UInt64
  groupId : UInt64
  supplementaryGroups : Vec UInt64
  noNewPrivileges : Bool
  identity : CredentialPolicyIdentity
  groups_strict : supplementaryGroups.val.Pairwise (· < ·)
  primary_not_repeated : groupId ∉ supplementaryGroups.val
  identified : identity =
    (credentialPreimage userId groupId supplementaryGroups.val noNewPrivileges).finish

namespace CredentialPolicy

/-- `credential_policy::fixed`. -/
def fixed (userId groupId : UInt64) (supplementaryGroups : Vec UInt64) (noNewPrivileges : Bool) :
    Except Error CredentialPolicy :=
  match hdup : adjacentFind (· == ·) (Vec.sorted supplementaryGroups).val with
  | some _ => raise .invalidPolicy (text "supplementary credential groups must be unique")
  | none =>
    if hgroup : binarySearch (Vec.sorted supplementaryGroups).val groupId = true then
      raise .invalidPolicy (text "primary group must not be repeated as a supplementary group")
    else
      .ok {
        userId, groupId, noNewPrivileges
        supplementaryGroups := Vec.sorted supplementaryGroups
        identity := (credentialPreimage userId groupId (Vec.sorted supplementaryGroups).val
          noNewPrivileges).finish
        groups_strict := strict_of_adjacentFind (k := id) (by simp) (sort_sorted _) hdup
        primary_not_repeated := fun hmem => hgroup ((binarySearch_iff (sort_sorted _)).mpr hmem)
        identified := rfl }

theorem eq_of_fields {c d : CredentialPolicy} (huser : c.userId = d.userId)
    (hgroup : c.groupId = d.groupId) (hgroups : c.supplementaryGroups = d.supplementaryGroups)
    (hprivileges : c.noNewPrivileges = d.noNewPrivileges) : c = d := by
  obtain ⟨cu, cg, cs, cn, cid, _, _, cident⟩ := c
  obtain ⟨du, dg, ds, dn, did, _, _, dident⟩ := d
  obtain rfl : cu = du := huser
  obtain rfl : cg = dg := hgroup
  obtain rfl : cs = ds := hgroups
  obtain rfl : cn = dn := hprivileges
  obtain rfl : cid = did := cident.trans dident.symm
  rfl

/-- The sealed policy has the groups it was given, in order. -/
theorem fixed_ok {uid gid : UInt64} {groups : Vec UInt64} {nnp : Bool} {c : CredentialPolicy}
    (h : fixed uid gid groups nnp = .ok c) :
    c.userId = uid ∧ c.groupId = gid ∧ c.noNewPrivileges = nnp ∧
      ∀ g, g ∈ c.supplementaryGroups.val ↔ g ∈ groups.val := by
  unfold fixed at h
  split at h
  · exact absurd h raise_ne_ok
  split at h
  · exact absurd h raise_ne_ok
  obtain rfl := Except.ok.inj h
  exact ⟨rfl, rfl, rfl, fun g => mem_sort⟩

end CredentialPolicy

/-! ## 6. Limits

Five limits, each of them optional and none of them zero.  `limit` names them by their kind, so
that what holds for every kind is said once. -/

/-- `require_positive`. -/
def requirePositive (value : Option UInt64) (field : String) :
    Except Error (PLift (value ≠ some 0)) :=
  if h : value = some 0 then
    raise .invalidPolicy (text field ++ text " must be greater than zero")
  else .ok ⟨h⟩

/-- What `identify_limits` hashes. -/
def limitsPreimage (cpuTimeMilliseconds addressSpaceBytes fileSizeBytes openFiles
    processCount : Option UInt64) : IdentityBuilder :=
  IdentityBuilder.new "pkgexec/resource-limits/v1"
    |>.addOptionalU64 cpuTimeMilliseconds
    |>.addOptionalU64 addressSpaceBytes
    |>.addOptionalU64 fileSizeBytes
    |>.addOptionalU64 openFiles
    |>.addOptionalU64 processCount

/-- `resource_limits`. -/
structure ResourceLimits where
  cpuTimeMilliseconds : Option UInt64
  addressSpaceBytes : Option UInt64
  fileSizeBytes : Option UInt64
  openFiles : Option UInt64
  processCount : Option UInt64
  identity : ResourceLimitsIdentity
  cpu_time_positive : cpuTimeMilliseconds ≠ some 0
  address_space_positive : addressSpaceBytes ≠ some 0
  file_size_positive : fileSizeBytes ≠ some 0
  open_files_positive : openFiles ≠ some 0
  process_count_positive : processCount ≠ some 0
  identified : identity = (limitsPreimage cpuTimeMilliseconds addressSpaceBytes fileSizeBytes
    openFiles processCount).finish

namespace ResourceLimits

/-- `resource_limits::make`. -/
def make (cpuTimeMilliseconds addressSpaceBytes fileSizeBytes openFiles
    processCount : Option UInt64) : Except Error ResourceLimits := do
  let ⟨hcpu⟩ ← requirePositive cpuTimeMilliseconds "CPU time limit"
  let ⟨haddress⟩ ← requirePositive addressSpaceBytes "address-space limit"
  let ⟨hfile⟩ ← requirePositive fileSizeBytes "file-size limit"
  let ⟨hopen⟩ ← requirePositive openFiles "open-file limit"
  let ⟨hprocess⟩ ← requirePositive processCount "process-count limit"
  return {
    cpuTimeMilliseconds, addressSpaceBytes, fileSizeBytes, openFiles, processCount
    identity := (limitsPreimage cpuTimeMilliseconds addressSpaceBytes fileSizeBytes openFiles
      processCount).finish
    cpu_time_positive := hcpu
    address_space_positive := haddress
    file_size_positive := hfile
    open_files_positive := hopen
    process_count_positive := hprocess
    identified := rfl }

/-- `resource_limits::empty`. -/
def isEmpty (l : ResourceLimits) : Bool :=
  l.cpuTimeMilliseconds.isNone && l.addressSpaceBytes.isNone && l.fileSizeBytes.isNone &&
    l.openFiles.isNone && l.processCount.isNone

/-- The value of the limit of one kind: the field `limit_requested` looks at. -/
def limit (l : ResourceLimits) : ResourceLimitKind → Option UInt64
  | .cpuTime => l.cpuTimeMilliseconds
  | .addressSpace => l.addressSpaceBytes
  | .fileSize => l.fileSizeBytes
  | .openFiles => l.openFiles
  | .processCount => l.processCount

@[simp] theorem limit_cpuTime (l : ResourceLimits) : l.limit .cpuTime = l.cpuTimeMilliseconds := rfl

@[simp] theorem limit_addressSpace (l : ResourceLimits) :
    l.limit .addressSpace = l.addressSpaceBytes := rfl

@[simp] theorem limit_fileSize (l : ResourceLimits) : l.limit .fileSize = l.fileSizeBytes := rfl

@[simp] theorem limit_openFiles (l : ResourceLimits) : l.limit .openFiles = l.openFiles := rfl

@[simp] theorem limit_processCount (l : ResourceLimits) :
    l.limit .processCount = l.processCount := rfl

theorem isEmpty_eq_false_iff {l : ResourceLimits} :
    l.isEmpty = false ↔ ∃ k, (l.limit k).isSome = true := by
  constructor
  · intro h
    by_contra hno
    have hnone : ∀ k, l.limit k = none := by
      intro k
      by_contra hk
      exact hno ⟨k, Option.isSome_iff_ne_none.mpr hk⟩
    have hcpu : l.cpuTimeMilliseconds = none := hnone .cpuTime
    have haddress : l.addressSpaceBytes = none := hnone .addressSpace
    have hfile : l.fileSizeBytes = none := hnone .fileSize
    have hopen : l.openFiles = none := hnone .openFiles
    have hprocess : l.processCount = none := hnone .processCount
    simp [isEmpty, hcpu, haddress, hfile, hopen, hprocess] at h
  · rintro ⟨k, hk⟩
    by_contra hne
    simp only [Bool.not_eq_false, isEmpty, Bool.and_eq_true, Option.isNone_iff_eq_none] at hne
    cases k <;> simp_all

theorem eq_of_fields {l m : ResourceLimits}
    (hcpu : l.cpuTimeMilliseconds = m.cpuTimeMilliseconds)
    (haddress : l.addressSpaceBytes = m.addressSpaceBytes)
    (hfile : l.fileSizeBytes = m.fileSizeBytes) (hopen : l.openFiles = m.openFiles)
    (hprocess : l.processCount = m.processCount) : l = m := by
  obtain ⟨lc, la, lf, lo, lp, lid, _, _, _, _, _, lident⟩ := l
  obtain ⟨mc, ma, mf, mo, mp, mid, _, _, _, _, _, mident⟩ := m
  obtain rfl : lc = mc := hcpu
  obtain rfl : la = ma := haddress
  obtain rfl : lf = mf := hfile
  obtain rfl : lo = mo := hopen
  obtain rfl : lp = mp := hprocess
  obtain rfl : lid = mid := lident.trans mident.symm
  rfl

/-- The sealed limits are the given ones. -/
theorem make_ok {cpu address file files processes : Option UInt64} {l : ResourceLimits}
    (h : make cpu address file files processes = .ok l) :
    l.cpuTimeMilliseconds = cpu ∧ l.addressSpaceBytes = address ∧ l.fileSizeBytes = file ∧
      l.openFiles = files ∧ l.processCount = processes := by
  unfold make at h
  obtain ⟨_, -, h⟩ := bind_ok h
  obtain ⟨_, -, h⟩ := bind_ok h
  obtain ⟨_, -, h⟩ := bind_ok h
  obtain ⟨_, -, h⟩ := bind_ok h
  obtain ⟨_, -, h⟩ := bind_ok h
  obtain rfl := Except.ok.inj h
  exact ⟨rfl, rfl, rfl, rfl, rfl⟩

end ResourceLimits

/-! ## 7. Stream captures

A capture is a size and a digest, and the bytes themselves when they were retained.  Retained bytes
determine the other two. -/

/-- `stream_capture`: retained material is the stream of that size and digest. -/
@[ext] structure StreamCapture where
  byteCount : UInt64
  digest : Sha256Digest
  material : Option Str
  size_eq : ∀ m ∈ material, m.val.length = byteCount.toNat
  digest_eq : ∀ m ∈ material, Sha256Digest.ofBytes m.val = digest

namespace StreamCapture

/-- `stream_capture::observed`. -/
def observed (byteCount : UInt64) (digest : Sha256Digest) : StreamCapture :=
  ⟨byteCount, digest, none, by simp, by simp⟩

/-- `stream_capture::retained`: the constructor's two checks are on values just computed. -/
def retained (material : Str) : StreamCapture where
  byteCount := .ofNat material.val.length
  digest := .ofBytes material.val
  material := some material
  size_eq := by
    rintro m ⟨rfl⟩
    exact (Nat.mod_eq_of_lt material.property).symm
  digest_eq := by
    rintro m ⟨rfl⟩
    rfl

/-- A capture is one of the two. -/
theorem eq_retained {c : StreamCapture} {m : Str} (h : c.material = some m) : c = retained m := by
  have hsize := c.size_eq m h
  have hdigest := c.digest_eq m h
  apply StreamCapture.ext
  · exact (hsize ▸ UInt64.ofNat_toNat : UInt64.ofNat m.val.length = c.byteCount).symm
  · exact hdigest.symm
  · exact h

theorem eq_observed {c : StreamCapture} (h : c.material = none) :
    c = observed c.byteCount c.digest :=
  StreamCapture.ext rfl rfl h

end StreamCapture

end Sealed

/-! ## 8. Process termination

The kind of a termination fixes which other fields are set (`TerminationShape`). -/

/-- The field values of the four factories of `process_termination`. -/
inductive TerminationShape :
    ProcessTerminationKind → Option UInt32 → Option ResourceLimitKind → Prop
  | exited {status : UInt32} (h : status ≤ 255) : TerminationShape .exited (some status) none
  | signaled {signal : UInt32} (h : signal ≠ 0) : TerminationShape .signaled (some signal) none
  | cancelled : TerminationShape .cancelled none none
  | resourceLimited (limit : ResourceLimitKind) :
      TerminationShape .resourceLimited none (some limit)

/-- `process_termination`. -/
@[ext] structure ProcessTermination where
  kind : ProcessTerminationKind
  value : Option UInt32
  limit : Option ResourceLimitKind
  shape : TerminationShape kind value limit
  deriving DecidableEq

namespace ProcessTermination

def exited (status : UInt32) : Except Error ProcessTermination :=
  if h : status > 255 then
    raise .invalidValue (text "process exit status must fit one byte")
  else .ok ⟨.exited, some status, none, .exited (UInt32.not_lt.mp h)⟩

def signaled (signal : UInt32) : Except Error ProcessTermination :=
  if h : signal = 0 then
    raise .invalidValue (text "terminating signal number must be greater than zero")
  else .ok ⟨.signaled, some signal, none, .signaled h⟩

def cancelled : ProcessTermination := ⟨.cancelled, none, none, .cancelled⟩

def resourceLimited (limit : Raw ResourceLimitKind) : Except Error ProcessTermination := do
  let limit ← limit.require .invalidValue (text "unsupported resource-limit termination kind")
  return ⟨.resourceLimited, none, some limit, .resourceLimited limit⟩

/-- `process_termination::exited(0)`. -/
def exitedZero : ProcessTermination := ⟨.exited, some 0, none, .exited (by decide)⟩

theorem exited_zero : exited 0 = .ok exitedZero := rfl

/-- Only a limit termination names a limit. -/
theorem kind_of_limit {t : ProcessTermination} {k : ResourceLimitKind} (h : t.limit = some k) :
    t.kind = .resourceLimited := by
  obtain ⟨kind, value, limit, shape⟩ := t
  cases shape <;> simp_all

/-- An exited process has a status. -/
theorem value_of_exited {t : ProcessTermination} (h : t.kind = .exited) : t.value ≠ none := by
  obtain ⟨kind, value, limit, shape⟩ := t
  cases shape <;> simp_all

/-- An exit with status zero is one value, -/
theorem eq_exitedZero {t : ProcessTermination} (hkind : t.kind = .exited)
    (hvalue : t.value = some 0) : t = exitedZero := by
  obtain ⟨kind, value, limit, shape⟩ := t
  cases shape <;> simp_all [exitedZero]

/-- and so is a cancellation. -/
theorem eq_cancelled {t : ProcessTermination} (hkind : t.kind = .cancelled) : t = cancelled := by
  obtain ⟨kind, value, limit, shape⟩ := t
  cases shape <;> simp_all [cancelled]

/-- Every limit termination names a limit. -/
theorem limit_of_kind {t : ProcessTermination} (h : t.kind = .resourceLimited) :
    ∃ k, t.limit = some k := by
  obtain ⟨kind, value, limit, shape⟩ := t
  cases shape <;> simp_all

end ProcessTermination

end Pkgexec
