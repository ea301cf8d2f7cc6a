/-
# The vocabulary: enumerations, raw enumerator values, errors

The `enum class` types of `include/libpkgexec/model.h` are inductive types.  A C++ enumeration
variable can hold a value outside its enumerators (`static_cast<execution_guarantee>(255)`),
and the factories check for that (`src/vocabulary.h`), so what a caller passes is a `Raw`
value: an integer, which `Raw.get?` reads as an enumerator when it is one.  What a sealed
object stores is always an enumerator.

Every exception the library throws is an `Error`: its `error_code` and its message.
-/
import Pkgexec.Lib.Bytes

namespace Pkgexec

open Bytes

/-! ## 1. Errors (`include/libpkgexec/error.h`)

A computation that can throw is an `Except Error`: a `throw` is `raise`, and a sequence of checks
is a `do` block that ends with the first error.  Most checks of the library have one form,
`refuseIf`, with a condition, a code and a message. -/

inductive ErrorCode
  | invalidIdentity
  | invalidValue
  | invalidPurpose
  | invalidPath
  | duplicateResource
  | duplicateMountPoint
  | missingWorkingDirectory
  | duplicateEnvironmentVariable
  | reservedEnvironmentVariable
  | invalidPolicy
  | invalidCapabilityProfile
  | unsupportedRequest
  | resourceMismatch
  | inconsistentResult
  | invalidFailure
  | identityFailed
  | invalidControl
  | controlMismatch
  | corruptEncoding
  | authorityMismatch
  deriving DecidableEq, Repr

/-- `pkgexec::error`: a code and the text `what()` returns. -/
structure Error where
  code : ErrorCode
  what : Bytes
  deriving DecidableEq

/-- `throw error(code, message)`. -/
def raise {α : Type} (code : ErrorCode) (message : Bytes) : Except Error α := .error ⟨code, message⟩

/-- What throws returns nothing. -/
@[simp] theorem raise_ne_ok {α : Type} {code : ErrorCode} {message : Bytes} {a : α} :
    raise code message ≠ .ok a := by simp [raise]

/-- `x` throws an error with this code. -/
def Raises {α : Type} (x : Except Error α) (code : ErrorCode) : Prop :=
  ∃ e, x = .error e ∧ e.code = code

/-- A sequence of two computations succeeds only if both do. -/
theorem bind_eq_ok {α β : Type} {x : Except Error α} {f : α → Except Error β} {b : β} :
    (x >>= f) = .ok b ↔ ∃ a, x = .ok a ∧ f a = .ok b := by
  cases x with
  | error e => simp [bind, Except.bind]
  | ok a => simp [bind, Except.bind]

/-- The direction that takes a run apart, check by check. -/
theorem bind_ok {α β : Type} {x : Except Error α} {f : α → Except Error β} {b : β}
    (h : (x >>= f) = .ok b) : ∃ a, x = .ok a ∧ f a = .ok b := bind_eq_ok.mp h

/-- `if (c) throw error(code, message);` -/
def refuseIf (c : Prop) [Decidable c] (code : ErrorCode) (message : Bytes) : Except Error Unit :=
  if c then raise code message else .ok ()

/-- The check passes when its condition does not hold. -/
@[simp] theorem refuseIf_eq_ok {c : Prop} [Decidable c] {code : ErrorCode} {message : Bytes}
    {u : Unit} : refuseIf c code message = .ok u ↔ ¬ c := by
  unfold refuseIf
  split <;> simp_all

/-! ## 2. Enumerations

An enumerator is known by its place in the declaration.  `value` is the integer that the compiler
gives it, which is what the library sorts by, hashes and encodes; `ofValue?` is the way back, from
the integers that are the value of one. -/

/-- An `enum class` with its enumerators in the order of their declaration, numbered from 0. -/
class Enumeration (E : Type) [DecidableEq E] where
  enumerators : List E
  complete : ∀ e : E, e ∈ enumerators
  nodup : enumerators.Nodup
  fits : enumerators.length ≤ 256

section Enumeration

variable {E : Type} [DecidableEq E] [Enumeration E]

/-- The integer behind an enumerator. -/
def value (e : E) : Nat := (Enumeration.enumerators (E := E)).idxOf e

/-- `static_cast<E>(n)`, when `n` is the value of an enumerator. -/
def ofValue? (n : Nat) : Option E := (Enumeration.enumerators (E := E))[n]?

/-- An enumerator is read back from its value, -/
@[simp] theorem ofValue?_value (e : E) : ofValue? (value e) = some e := by
  have hlt : value e < (Enumeration.enumerators (E := E)).length :=
    List.idxOf_lt_length_of_mem (Enumeration.complete e)
  exact List.getElem?_eq_some_iff.mpr ⟨hlt, List.getElem_idxOf hlt⟩

/-- and from no other integer. -/
theorem value_of_ofValue? {n : Nat} {e : E} (h : ofValue? n = some e) : value e = n := by
  obtain ⟨hn, rfl⟩ := List.getElem?_eq_some_iff.mp h
  exact List.Nodup.idxOf_getElem Enumeration.nodup n hn

/-- Different enumerators have different values, -/
theorem value_injective : Function.Injective (value : E → Nat) := by
  intro a b h
  have ha := ofValue?_value a
  rw [h, ofValue?_value] at ha
  exact (Option.some.inj ha).symm

/-- each of which fits a byte, -/
theorem value_lt (e : E) : value e < 256 :=
  lt_of_lt_of_le (List.idxOf_lt_length_of_mem (Enumeration.complete e)) Enumeration.fits

/-- `enum_byte`: the enumerator's value as the byte that is hashed and encoded. -/
def enumByte (e : E) : UInt8 := UInt8.ofNat (value e)

@[simp] theorem enumByte_toNat (e : E) : (enumByte e).toNat = value e := by
  simp [enumByte, Nat.mod_eq_of_lt (value_lt e)]

/-- and so they are different bytes in a preimage or an encoding. -/
theorem enumByte_injective : Function.Injective (enumByte : E → UInt8) := by
  intro a b h
  apply value_injective
  rw [← enumByte_toNat, h, enumByte_toNat]

end Enumeration

/-- A value of an enumeration type as a caller passes it: any `int`. -/
structure Raw (E : Type) where
  raw : Int
  deriving DecidableEq

namespace Raw

variable {E : Type} [DecidableEq E] [Enumeration E]

/-- The enumerator a raw value is, if it is one: `detail::valid(value)` is `isSome`. -/
def get? (r : Raw E) : Option E := if r.raw < 0 then none else ofValue? r.raw.toNat

/-- An enumerator, passed as an argument. -/
def of (e : E) : Raw E := ⟨value e⟩

instance : Coe E (Raw E) := ⟨of⟩

/-- Every enumerator passes `detail::valid`, -/
@[simp] theorem get?_of (e : E) : (of e).get? = some e := by
  have hnot : ¬ ((value e : Int) < 0) := by omega
  simp [get?, of, hnot]

/-- and nothing else does. -/
theorem eq_of_get? {r : Raw E} {e : E} (h : r.get? = some e) : r = of e := by
  unfold get? at h
  split at h
  · exact absurd h (by simp)
  · rename_i hpos
    have hv := value_of_ofValue? h
    obtain ⟨n⟩ := r
    simp only [of, Raw.mk.injEq] at hpos hv ⊢
    omega

theorem get?_eq_some {r : Raw E} {e : E} : r.get? = some e ↔ r = of e :=
  ⟨eq_of_get?, fun h => h ▸ get?_of e⟩

theorem of_injective : Function.Injective (of : E → Raw E) := by
  intro a b h
  have := congrArg get? h
  simpa using this

/-- `if (!detail::valid(value)) throw error(code, message);` -/
def require (r : Raw E) (code : ErrorCode) (message : Bytes) : Except Error E :=
  match r.get? with
  | some e => .ok e
  | none => raise code message

@[simp] theorem require_of (e : E) (code : ErrorCode) (message : Bytes) :
    require (of e) code message = .ok e := by simp [require]

/-- The check keeps the enumerator that was passed, -/
theorem require_eq_ok {r : Raw E} {code : ErrorCode} {message : Bytes} {e : E} :
    require r code message = .ok e ↔ r = of e := by
  rw [← get?_eq_some]
  unfold require
  cases r.get? <;> simp

/-- and refuses any other integer. -/
theorem require_eq_error {r : Raw E} {code : ErrorCode} {message : Bytes} (h : ∀ e, r ≠ of e) :
    require r code message = raise code message := by
  unfold require
  cases hr : r.get? with
  | none => rfl
  | some e => exact absurd (eq_of_get? hr) (h e)

/-- The loop that refuses a list at its first value that is not an enumerator. -/
def requireAll (values : List (Raw E)) (code : ErrorCode) (message : Bytes) :
    Except Error (List E) :=
  values.mapM (fun v => v.require code message)

/-- A list of enumerators passes as it is, -/
@[simp] theorem requireAll_map_of (code : ErrorCode) (message : Bytes) (es : List E) :
    requireAll (es.map of) code message = .ok es := by
  induction es with
  | nil => rfl
  | cons e es ih =>
    simp only [requireAll] at ih
    simp only [requireAll, List.map_cons, List.mapM_cons, require_of, ih]
    rfl

/-- and one value that is none refuses the whole list. -/
theorem requireAll_eq_error {code : ErrorCode} {message : Bytes} {values : List (Raw E)}
    (h : ∃ v ∈ values, ∀ e, v ≠ of e) : requireAll values code message = raise code message := by
  induction values with
  | nil => exact absurd h (by simp)
  | cons v values ih =>
    simp only [requireAll, List.mapM_cons] at ih ⊢
    by_cases hv : ∃ e, v = of e
    · obtain ⟨e, rfl⟩ := hv
      obtain ⟨w, hw, hbad⟩ := h
      rcases List.mem_cons.mp hw with rfl | hw
      · exact absurd rfl (hbad e)
      · rw [require_of, ih ⟨w, hw, hbad⟩]
        rfl
    · rw [require_eq_error (fun e he => hv ⟨e, he⟩)]
      rfl

/-- A list is either a list of enumerators or holds a value that is none. -/
theorem forall_of_or_exists (values : List (Raw E)) :
    (∃ es : List E, values = es.map of) ∨ ∃ v ∈ values, ∀ e, v ≠ of e := by
  by_cases h : ∃ v ∈ values, ∀ e, v ≠ of e
  · exact Or.inr h
  · push Not at h
    refine Or.inl ⟨values.filterMap get?, ?_⟩
    induction values with
    | nil => rfl
    | cons v t ih =>
      obtain ⟨e, rfl⟩ := h v List.mem_cons_self
      have hget : get? (of e) = some e := get?_of e
      rw [List.filterMap_cons_some hget, List.map_cons,
        ← ih (fun w hw => h w (List.mem_cons_of_mem _ hw))]

/-- What passes is a list of enumerators, in the order in which they were given. -/
theorem requireAll_eq_ok {values : List (Raw E)} {code : ErrorCode} {message : Bytes} {es : List E} :
    requireAll values code message = .ok es ↔ values = es.map of := by
  constructor
  · intro h
    rcases forall_of_or_exists values with ⟨fs, rfl⟩ | hbad
    · rw [requireAll_map_of] at h
      rw [Except.ok.inj h]
    · rw [requireAll_eq_error hbad] at h
      exact absurd h raise_ne_ok
  · rintro rfl
    exact requireAll_map_of code message es

end Raw

/-! ## 3. The enumerations of `include/libpkgexec/model.h`

The enumerators stand in the order of the header.  That order is part of what is proved later:
sorted guarantees, hashed bytes and encoded bytes all depend on it. -/

/-- Why a program is run. -/
inductive ExecutionPurposeKind
  | build
  | check
  | lifecycle
  deriving DecidableEq, Repr

instance : Enumeration ExecutionPurposeKind where
  enumerators := [.build, .check, .lifecycle]
  complete e := by cases e <;> decide
  nodup := by decide
  fits := by decide

/-- What a resource is to the program. -/
inductive ResourceRole
  | sourceTree
  | buildInputTree
  | checkInputTree
  | buildWorkspace
  | packageOutputRoot
  | managedTargetRoot
  | privateTemporaryRoot
  | packageTree
  deriving DecidableEq, Repr

instance : Enumeration ResourceRole where
  enumerators := [.sourceTree, .buildInputTree, .checkInputTree, .buildWorkspace,
    .packageOutputRoot, .managedTargetRoot, .privateTemporaryRoot, .packageTree]
  complete e := by cases e <;> decide
  nodup := by decide
  fits := by decide

/-- What the program may do with it. -/
inductive ResourceAccess
  | readOnly
  | writable
  deriving DecidableEq, Repr

instance : Enumeration ResourceAccess where
  enumerators := [.readOnly, .writable]
  complete e := by cases e <;> decide
  nodup := by decide
  fits := by decide

/-- There is one locale, one timezone and one kind of home, and an environment says so. -/
inductive LocalePolicy
  | cUtf8
  deriving DecidableEq, Repr

instance : Enumeration LocalePolicy where
  enumerators := [.cUtf8]
  complete e := by cases e; decide
  nodup := by decide
  fits := by decide

inductive TimezonePolicy
  | utc
  deriving DecidableEq, Repr

instance : Enumeration TimezonePolicy where
  enumerators := [.utc]
  complete e := by cases e; decide
  nodup := by decide
  fits := by decide

inductive HomePolicy
  | isolated
  deriving DecidableEq, Repr

instance : Enumeration HomePolicy where
  enumerators := [.isolated]
  complete e := by cases e; decide
  nodup := by decide
  fits := by decide

/-- Which network the program sees. -/
inductive NetworkPolicy
  | denied
  | loopbackOnly
  | allowed
  deriving DecidableEq, Repr

instance : Enumeration NetworkPolicy where
  enumerators := [.denied, .loopbackOnly, .allowed]
  complete e := by cases e <;> decide
  nodup := by decide
  fits := by decide

/-- What the program reads. -/
inductive StdinPolicy
  | closed
  | nullDevice
  deriving DecidableEq, Repr

instance : Enumeration StdinPolicy where
  enumerators := [.closed, .nullDevice]
  complete e := by cases e <;> decide
  nodup := by decide
  fits := by decide

/-- What becomes of an output stream. -/
inductive StreamPolicy
  | captureComplete
  | discard
  deriving DecidableEq, Repr

instance : Enumeration StreamPolicy where
  enumerators := [.captureComplete, .discard]
  complete e := by cases e <;> decide
  nodup := by decide
  fits := by decide

/-- Whether a run may be cancelled, and how. -/
inductive CancellationMode
  | disabled
  | gracefulThenForced
  deriving DecidableEq, Repr

instance : Enumeration CancellationMode where
  enumerators := [.disabled, .gracefulThenForced]
  complete e := by cases e <;> decide
  nodup := by decide
  fits := by decide

/-- The limits a request can set, each with a guarantee of its own. -/
inductive ResourceLimitKind
  | cpuTime
  | addressSpace
  | fileSize
  | openFiles
  | processCount
  deriving DecidableEq, Repr

instance : Enumeration ResourceLimitKind where
  enumerators := [.cpuTime, .addressSpace, .fileSize, .openFiles, .processCount]
  complete e := by cases e <;> decide
  nodup := by decide
  fits := by decide

/-- What an executor can establish about a run.  A request requires some of them, a profile
advertises some, and a result says which were established. -/
inductive ExecutionGuarantee
  | exactInterpreter
  | closedEnvironment
  | rootView
  | readOnlyResources
  | writableResources
  | fixedCredentials
  | networkDenied
  | loopbackIsolated
  | resourceLimits
  | cancellation
  | completeStdoutCapture
  | completeStderrCapture
  | cleanupVerified
  | cpuTimeLimit
  | addressSpaceLimit
  | fileSizeLimit
  | openFilesLimit
  | processCountLimit
  deriving DecidableEq, Repr

instance : Enumeration ExecutionGuarantee where
  enumerators := [.exactInterpreter, .closedEnvironment, .rootView, .readOnlyResources,
    .writableResources, .fixedCredentials, .networkDenied, .loopbackIsolated, .resourceLimits,
    .cancellation, .completeStdoutCapture, .completeStderrCapture, .cleanupVerified,
    .cpuTimeLimit, .addressSpaceLimit, .fileSizeLimit, .openFilesLimit, .processCountLimit]
  complete e := by cases e <;> decide
  nodup := by decide
  fits := by decide

/-- How a process ended. -/
inductive ProcessTerminationKind
  | exited
  | signaled
  | cancelled
  | resourceLimited
  deriving DecidableEq, Repr

instance : Enumeration ProcessTerminationKind where
  enumerators := [.exited, .signaled, .cancelled, .resourceLimited]
  complete e := by cases e <;> decide
  nodup := by decide
  fits := by decide

inductive ExecutionStatus
  | succeeded
  | failed
  deriving DecidableEq, Repr

instance : Enumeration ExecutionStatus where
  enumerators := [.succeeded, .failed]
  complete e := by cases e <;> decide
  nodup := by decide
  fits := by decide

/-- Whether a process was started. -/
inductive ExecutionStartState
  | notStarted
  | started
  deriving DecidableEq, Repr

instance : Enumeration ExecutionStartState where
  enumerators := [.notStarted, .started]
  complete e := by cases e <;> decide
  nodup := by decide
  fits := by decide

/-- What is known of the cleanup after a run. -/
inductive CleanupOutcome
  | notRequired
  | verified
  | failed
  deriving DecidableEq, Repr

instance : Enumeration CleanupOutcome where
  enumerators := [.notRequired, .verified, .failed]
  complete e := by cases e <;> decide
  nodup := by decide
  fits := by decide

/-- Why an execution failed.  The first six come before a process is started; a cancellation may
come before or after. -/
inductive ExecutionFailureKind
  | requestRejected
  | backendUnsupported
  | resourceAdmissionFailed
  | interpreterUnavailable
  | isolationSetupFailed
  | processStartFailed
  | programExitedNonzero
  | programTerminatedBySignal
  | resourceLimitExceeded
  | cancelled
  | logCaptureFailed
  | cleanupFailed
  deriving DecidableEq, Repr

instance : Enumeration ExecutionFailureKind where
  enumerators := [.requestRejected, .backendUnsupported, .resourceAdmissionFailed,
    .interpreterUnavailable, .isolationSetupFailed, .processStartFailed, .programExitedNonzero,
    .programTerminatedBySignal, .resourceLimitExceeded, .cancelled, .logCaptureFailed,
    .cleanupFailed]
  complete e := by cases e <;> decide
  nodup := by decide
  fits := by decide

/-- `pkgsource::lifecycle_action`, by the enumerators `detail::valid` lists. -/
inductive LifecycleAction
  | preInstall
  | postInstall
  | preRemove
  | postRemove
  deriving DecidableEq, Repr

instance : Enumeration LifecycleAction where
  enumerators := [.preInstall, .postInstall, .preRemove, .postRemove]
  complete e := by cases e <;> decide
  nodup := by decide
  fits := by decide

/-! ## 4. Orders and names

The comparison of two enumerators is the comparison of their values. -/

instance : LinearOrder ExecutionGuarantee := LinearOrder.lift' value value_injective
instance : LinearOrder ResourceRole := LinearOrder.lift' value value_injective
instance : LinearOrder ResourceAccess := LinearOrder.lift' value value_injective

/-- `to_string(resource_role)`. -/
def ResourceRole.toString : ResourceRole → Bytes
  | .sourceTree => text "source-tree"
  | .buildInputTree => text "build-input-tree"
  | .checkInputTree => text "check-input-tree"
  | .buildWorkspace => text "build-workspace"
  | .packageOutputRoot => text "package-output-root"
  | .managedTargetRoot => text "managed-target-root"
  | .privateTemporaryRoot => text "private-temporary-root"
  | .packageTree => text "package-tree"

/-- `to_string(execution_guarantee)`. -/
def ExecutionGuarantee.toString : ExecutionGuarantee → Bytes
  | .exactInterpreter => text "exact-interpreter"
  | .closedEnvironment => text "closed-environment"
  | .rootView => text "root-view"
  | .readOnlyResources => text "read-only-resources"
  | .writableResources => text "writable-resources"
  | .fixedCredentials => text "fixed-credentials"
  | .networkDenied => text "network-denied"
  | .loopbackIsolated => text "loopback-isolated"
  | .resourceLimits => text "resource-limits"
  | .cancellation => text "cancellation"
  | .completeStdoutCapture => text "complete-stdout-capture"
  | .completeStderrCapture => text "complete-stderr-capture"
  | .cleanupVerified => text "cleanup-verified"
  | .cpuTimeLimit => text "cpu-time-limit"
  | .addressSpaceLimit => text "address-space-limit"
  | .fileSizeLimit => text "file-size-limit"
  | .openFilesLimit => text "open-files-limit"
  | .processCountLimit => text "process-count-limit"

end Pkgexec
