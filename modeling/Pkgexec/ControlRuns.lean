/-
# Who may cancel, over whole runs

Sources, tokens, the two `execute` overloads of `controlled_execution_backend`
(`src/backend.cpp`) and the two factories for cancelled results, called in any order and any
number of times.  A state here is every cancellation state there is, and which of them each
token shares; every call is one step (`Threads.Step.source` is why that is so for
`request_cancellation`).

The invariant ties a state to the calls that made it what it is: its source was opened for a
request that allows cancellation, and its flag is set exactly when one call of
`request_cancellation` on that source has returned `true`.  What a hook is entered with, and what
a cancelled result is evidence of, follows from it (`cancellation_authority`).
-/
import Pkgexec.Acceptance
import Pkgexec.Resources
import Pkgexec.Lib.Transition

namespace Pkgexec

open Bytes Transition

/-! ## 1. Entering a backend

`execute` without a token refuses a request that allows cancellation, and `execute` with one
refuses a request that does not, or a token of another request.  What is left calls the hook that a
backend implements, with the arguments as they came. -/

section Hooks

variable [Filesystem] [External]

/-- A hook of `controlled_execution_backend`, with what it is called with. -/
inductive HookCall
  | executeUncontrolled (request : ExecutionRequest) (resources : ExecutionResources)
  | executeControlled (request : ExecutionRequest) (resources : ExecutionResources)
      (cancellation : CancellationToken)

namespace ControlledExecutionBackend

/-- `controlled_execution_backend::execute` without a token. -/
def execute (request : ExecutionRequest) (resources : ExecutionResources) :
    Except Error HookCall := do
  refuseIf (request.cancellation.mode ≠ .disabled) .invalidControl
    (text "enabled cancellation requires controlled backend execution")
  return .executeUncontrolled request resources

/-- `controlled_execution_backend::execute` with one. -/
def executeWith (request : ExecutionRequest) (resources : ExecutionResources)
    (cancellation : CancellationToken) : Except Error HookCall := do
  requireCancellationControl request cancellation
  return .executeControlled request resources cancellation

theorem execute_eq_ok {q : ExecutionRequest} {resources : ExecutionResources} {hook : HookCall} :
    execute q resources = .ok hook ↔
      q.cancellation.mode = .disabled ∧ hook = .executeUncontrolled q resources := by
  simp only [execute, bind_eq_ok, refuseIf_eq_ok, not_not]
  constructor
  · rintro ⟨-, hmode, hhook⟩
    exact ⟨hmode, (Except.ok.inj hhook).symm⟩
  · rintro ⟨hmode, rfl⟩
    exact ⟨(), hmode, rfl⟩

theorem executeWith_eq_ok {q : ExecutionRequest} {resources : ExecutionResources}
    {token : CancellationToken} {hook : HookCall} :
    executeWith q resources token = .ok hook ↔
      (q.cancellation.mode ≠ .disabled ∧ token.requestIdentity = q.identity) ∧
        hook = .executeControlled q resources token := by
  simp only [executeWith, requireCancellationControl, bind_eq_ok, refuseIf_eq_ok,
    Bool.not_eq_false, CancellationToken.appliesTo_iff]
  constructor
  · rintro ⟨-, ⟨-, hmode, hbound⟩, hhook⟩
    exact ⟨⟨hmode, hbound.symm⟩, (Except.ok.inj hhook).symm⟩
  · rintro ⟨⟨hmode, hbound⟩, rfl⟩
    exact ⟨(), ⟨(), hmode, hbound.symm⟩, rfl⟩

end ControlledExecutionBackend

end Hooks

/-! ## 2. Calls

A world only grows: a source adds a state, a token or a copy of one adds the state it shares.  A
call that throws leaves the world as it is and has its error in the event. -/

namespace Authority

/-- Every cancellation state, each with its one source, and for each token the state it shares. -/
structure World where
  states : List CancellationSource
  tokens : List Nat

namespace World

def empty : World := ⟨[], []⟩

/-- What a token reports. -/
def report (w : World) (k : Nat) : Option CancellationToken := do
  let i ← w.tokens[k]?
  let state ← w.states[i]?
  return state.token

end World

section Calls

variable [Filesystem] [External]

/-- A call with its outcome.  A source is named by its state, a token by its position. -/
inductive Event
  | forRequest (request : ExecutionRequest) (outcome : Except Error Nat)
  | token (source made : Nat)
  | copyToken (original made : Nat)
  | requestCancellation (source : Nat) (outcome : Bool)
  | execute (request : ExecutionRequest) (outcome : Except Error HookCall)
  | executeWith (request : ExecutionRequest) (token : Nat) (outcome : Except Error HookCall)
  | cancelledBeforeStart (request : ExecutionRequest) (token : Nat)
      (outcome : Except Error ExecutionResult)
  | cancelledAfterStart (request : ExecutionRequest) (token : Nat)
      (outcome : Except Error ExecutionResult)

/-- One call. -/
inductive Step : World → Event → World → Prop
  | forRequest {w : World} {q : ExecutionRequest} {state : CancellationSource}
      (opened : CancellationSource.forRequest q = .ok state) :
      Step w (.forRequest q (.ok w.states.length)) { w with states := w.states ++ [state] }
  | forRequestRefused {w : World} {q : ExecutionRequest} {e : Error}
      (refused : CancellationSource.forRequest q = .error e) :
      Step w (.forRequest q (.error e)) w
  | token {w : World} {i : Nat} (source : i < w.states.length) :
      Step w (.token i w.tokens.length) { w with tokens := w.tokens ++ [i] }
  | copyToken {w : World} {j i : Nat} (original : w.tokens[j]? = some i) :
      Step w (.copyToken j w.tokens.length) { w with tokens := w.tokens ++ [i] }
  | requestCancellation {w : World} {i : Nat} {state : CancellationSource}
      (source : w.states[i]? = some state) :
      Step w (.requestCancellation i state.requestCancellation.1)
        { w with states := w.states.set i state.requestCancellation.2 }
  | execute {w : World} {q : ExecutionRequest} {resources : ExecutionResources} :
      Step w (.execute q (ControlledExecutionBackend.execute q resources)) w
  | executeWith {w : World} {q : ExecutionRequest} {resources : ExecutionResources} {k : Nat}
      {token : CancellationToken} (reported : w.report k = some token) :
      Step w (.executeWith q k (ControlledExecutionBackend.executeWith q resources token)) w
  | cancelledBeforeStart {w : World} {q : ExecutionRequest} {p : BackendCapabilityProfile}
      {k : Nat} {token : CancellationToken} {established : List (Raw ExecutionGuarantee)}
      {d : Str} (reported : w.report k = some token) :
      Step w (.cancelledBeforeStart q k
        (ExecutionResult.cancelledBeforeStart q p token established d)) w
  | cancelledAfterStart {w : World} {q : ExecutionRequest} {p : BackendCapabilityProfile}
      {k : Nat} {token : CancellationToken} {i : InterpreterIdentity}
      {o e : Option StreamCapture} {established : List (Raw ExecutionGuarantee)}
      {cleanup : Raw CleanupOutcome} {d : Str} (reported : w.report k = some token) :
      Step w (.cancelledAfterStart q k
        (ExecutionResult.cancelledAfterStart q p token i o e established cleanup d)) w

namespace Event

/-- A call of `request_cancellation` on a source that returned `true`. -/
def cancels (source : Nat) : Event → Bool
  | requestCancellation i outcome => outcome && decide (i = source)
  | _ => false

/-- The hook a call entered. -/
def entered : Event → Option HookCall
  | execute _ (.ok hook) => some hook
  | executeWith _ _ (.ok hook) => some hook
  | _ => none

theorem eq_of_cancels {i : Nat} {e : Event} (h : e.cancels i = true) :
    e = .requestCancellation i true := by
  cases e with
  | requestCancellation j outcome =>
    obtain ⟨houtcome, hsource⟩ := (Bool.and_eq_true_iff.mp h)
    rw [houtcome, of_decide_eq_true hsource]
  | _ => exact absurd h (by simp [cancels])

theorem cancels_of_ne {i j : Nat} {outcome : Bool} (h : i ≠ j) :
    (requestCancellation i outcome).cancels j = false := by
  simp [cancels, h]

end Event

/-- The token was made by a source, or is a copy of one that was. -/
inductive TokenOf (tr : List Event) (source : Nat) : Nat → Prop
  | made {k : Nat} (made : .token source k ∈ tr) : TokenOf tr source k
  | copied {j k : Nat} (original : TokenOf tr source j) (copied : .copyToken j k ∈ tr) :
      TokenOf tr source k

/-! ## 3. The invariant

Four kinds of step, one lemma each: a call that changes nothing, a new source, a new token, and
a call of `request_cancellation`.  Only the last sets a flag, and only its first success is
counted. -/

variable {tr tr' : List Event} {w w' : World} {e : Event}

/-- **What a state owes to the calls that led to it.** -/
structure Inv (tr : List Event) (w : World) : Prop where
  /-- A source was opened for a request that allows cancellation. -/
  opened : ∀ i s, w.states[i]? = some s → ∃ q, .forRequest q (.ok i) ∈ tr ∧
    q.cancellation.mode ≠ .disabled ∧ s.request = q.identity
  /-- Its flag counts the calls that returned `true`. -/
  counted : ∀ i s, w.states[i]? = some s →
    tr.countP (Event.cancels i) = if s.requested = true then 1 else 0
  unopened : ∀ i, w.states.length ≤ i → tr.countP (Event.cancels i) = 0
  /-- A token shares a state for ever. -/
  shared : ∀ i ∈ w.tokens, i < w.states.length
  made : ∀ i k, .token i k ∈ tr → w.tokens[k]? = some i
  copied : ∀ j k, .copyToken j k ∈ tr → ∃ i, w.tokens[j]? = some i ∧ w.tokens[k]? = some i

omit [Filesystem] [External] in
theorem getElem?_concat {α : Type} {l : List α} {a x : α} {i : Nat}
    (h : (l ++ [a])[i]? = some x) : l[i]? = some x ∨ (i = l.length ∧ x = a) := by
  rcases lt_or_ge i l.length with hlt | hge
  · rw [List.getElem?_append_left hlt] at h
    exact .inl h
  · rw [List.getElem?_append_right hge] at h
    obtain ⟨hzero, hx⟩ := List.getElem?_eq_some_iff.mp h
    simp only [List.length_singleton, Nat.lt_one_iff] at hzero
    right
    refine ⟨by omega, ?_⟩
    simpa [hzero] using hx.symm

omit [Filesystem] [External] in
theorem getElem?_concat_of_some {α : Type} {l : List α} {a x : α} {i : Nat}
    (h : l[i]? = some x) : (l ++ [a])[i]? = some x := by
  obtain ⟨hlt, -⟩ := List.getElem?_eq_some_iff.mp h
  rw [List.getElem?_append_left hlt, h]

theorem countP_concat_of_not {p : Event → Bool} (h : p e = false) :
    (tr ++ [e]).countP p = tr.countP p := by
  rw [List.countP_append, List.countP_singleton, h]
  rfl

theorem Inv.empty : Inv [] World.empty where
  opened := by simp [World.empty]
  counted := by simp [World.empty]
  unopened := by simp
  shared := by simp [World.empty]
  made := by simp
  copied := by simp

/-- A call that changes nothing. -/
theorem Inv.unchanged (h : Inv tr w) (hcancels : ∀ i, e.cancels i = false)
    (htoken : ∀ i k, e ≠ .token i k) (hcopy : ∀ j k, e ≠ .copyToken j k) :
    Inv (tr ++ [e]) w where
  opened i s hs := by
    obtain ⟨q, hq, hmode, hid⟩ := h.opened i s hs
    exact ⟨q, List.mem_append_left _ hq, hmode, hid⟩
  counted i s hs := by
    rw [countP_concat_of_not (hcancels i)]
    exact h.counted i s hs
  unopened i hi := by
    rw [countP_concat_of_not (hcancels i)]
    exact h.unopened i hi
  shared := h.shared
  made i k hmem := by
    rcases List.mem_append.mp hmem with hold | hnew
    · exact h.made i k hold
    · exact absurd (List.mem_singleton.mp hnew).symm (htoken i k)
  copied j k hmem := by
    rcases List.mem_append.mp hmem with hold | hnew
    · exact h.copied j k hold
    · exact absurd (List.mem_singleton.mp hnew).symm (hcopy j k)

theorem Inv.forRequest (h : Inv tr w) {q : ExecutionRequest} {state : CancellationSource}
    (hopen : CancellationSource.forRequest q = .ok state) :
    Inv (tr ++ [.forRequest q (.ok w.states.length)])
      { w with states := w.states ++ [state] } where
  opened i s hs := by
    rcases getElem?_concat hs with hold | ⟨rfl, rfl⟩
    · obtain ⟨q', hq', hmode, hid⟩ := h.opened i s hold
      exact ⟨q', List.mem_append_left _ hq', hmode, hid⟩
    · obtain ⟨hmode, rfl⟩ := CancellationSource.forRequest_eq_ok.mp hopen
      exact ⟨q, by simp, hmode, rfl⟩
  counted i s hs := by
    rw [countP_concat_of_not (p := Event.cancels i) rfl]
    rcases getElem?_concat hs with hold | ⟨rfl, rfl⟩
    · exact h.counted i s hold
    · obtain ⟨-, rfl⟩ := CancellationSource.forRequest_eq_ok.mp hopen
      exact h.unopened _ le_rfl
  unopened i hi := by
    rw [countP_concat_of_not (p := Event.cancels i) rfl]
    rw [List.length_append] at hi
    exact h.unopened i (by omega)
  shared i hi := by
    rw [List.length_append]
    exact Nat.lt_add_right _ (h.shared i hi)
  made i k hmem := h.made i k (by simpa using hmem)
  copied j k hmem := h.copied j k (by simpa using hmem)

/-- A new token, at the end of the list. -/
theorem Inv.newToken (h : Inv tr w) {i : Nat} (hi : i < w.states.length)
    (hcancels : ∀ i, e.cancels i = false)
    (htoken : ∀ i' k, e = .token i' k → i' = i ∧ k = w.tokens.length)
    (hcopy : ∀ j k, e = .copyToken j k → w.tokens[j]? = some i ∧ k = w.tokens.length) :
    Inv (tr ++ [e]) { w with tokens := w.tokens ++ [i] } where
  opened i' s hs := by
    obtain ⟨q, hq, hmode, hid⟩ := h.opened i' s hs
    exact ⟨q, List.mem_append_left _ hq, hmode, hid⟩
  counted i' s hs := by
    rw [countP_concat_of_not (hcancels i')]
    exact h.counted i' s hs
  unopened i' hi' := by
    rw [countP_concat_of_not (hcancels i')]
    exact h.unopened i' hi'
  shared i' hi' := by
    rcases List.mem_append.mp hi' with hold | hnew
    · exact h.shared i' hold
    · obtain rfl := List.mem_singleton.mp hnew
      exact hi
  made i' k hmem := by
    rcases List.mem_append.mp hmem with hold | hnew
    · exact getElem?_concat_of_some (h.made i' k hold)
    · obtain ⟨rfl, rfl⟩ := htoken i' k (List.mem_singleton.mp hnew).symm
      exact List.getElem?_concat_length
  copied j k hmem := by
    rcases List.mem_append.mp hmem with hold | hnew
    · obtain ⟨i', hj, hk⟩ := h.copied j k hold
      exact ⟨i', getElem?_concat_of_some hj, getElem?_concat_of_some hk⟩
    · obtain ⟨hj, rfl⟩ := hcopy j k (List.mem_singleton.mp hnew).symm
      exact ⟨i, getElem?_concat_of_some hj, List.getElem?_concat_length⟩

/-- The one call that sets a flag is the one that is counted. -/
theorem Inv.requestCancellation (h : Inv tr w) {i : Nat} {state : CancellationSource}
    (hstate : w.states[i]? = some state) :
    Inv (tr ++ [.requestCancellation i state.requestCancellation.1])
      { w with states := w.states.set i state.requestCancellation.2 } where
  opened i' s hs := by
    rw [List.getElem?_set] at hs
    split at hs
    · rename_i heq
      subst heq
      obtain ⟨q, hq, hmode, hid⟩ := h.opened i state hstate
      split at hs
      · obtain rfl := Option.some.inj hs
        exact ⟨q, List.mem_append_left _ hq, hmode, by simpa using hid⟩
      · exact absurd hs (by simp)
    · obtain ⟨q, hq, hmode, hid⟩ := h.opened i' s hs
      exact ⟨q, List.mem_append_left _ hq, hmode, hid⟩
  counted i' s hs := by
    rw [List.countP_append, List.countP_singleton]
    rw [List.getElem?_set] at hs
    split at hs
    · rename_i heq
      subst heq
      have hcount := h.counted i state hstate
      split at hs
      · obtain rfl := Option.some.inj hs
        rw [hcount, CancellationSource.requestCancellation_requested]
        by_cases hrequested : state.requested = true
        · simp [CancellationSource.requestCancellation, hrequested, Event.cancels]
        · simp [CancellationSource.requestCancellation, hrequested, Event.cancels]
      · exact absurd hs (by simp)
    · rename_i hne
      rw [Event.cancels_of_ne hne]
      exact h.counted i' s hs
  unopened i' hi' := by
    rw [List.length_set] at hi'
    obtain ⟨hlt, -⟩ := List.getElem?_eq_some_iff.mp hstate
    rw [countP_concat_of_not (Event.cancels_of_ne (by omega))]
    exact h.unopened i' hi'
  shared i' hi' := by
    rw [List.length_set]
    exact h.shared i' hi'
  made i' k hmem := h.made i' k (by simpa using hmem)
  copied j k hmem := h.copied j k (by simpa using hmem)

theorem Inv.step (h : Inv tr w) (hstep : Step w e w') : Inv (tr ++ [e]) w' := by
  cases hstep with
  | forRequest opened => exact h.forRequest opened
  | forRequestRefused refused => exact h.unchanged (fun _ => rfl) (by simp) (by simp)
  | token source =>
    refine h.newToken source (fun _ => rfl) ?_ (by simp)
    rintro i' k heq
    cases heq
    exact ⟨rfl, rfl⟩
  | @copyToken j i original =>
    have hi : i < w.states.length := h.shared i (List.mem_of_getElem? original)
    refine h.newToken hi (fun _ => rfl) (by simp) ?_
    rintro j' k heq
    cases heq
    exact ⟨original, rfl⟩
  | requestCancellation source => exact h.requestCancellation source
  | execute => exact h.unchanged (fun _ => rfl) (by simp) (by simp)
  | executeWith reported => exact h.unchanged (fun _ => rfl) (by simp) (by simp)
  | cancelledBeforeStart reported => exact h.unchanged (fun _ => rfl) (by simp) (by simp)
  | cancelledAfterStart reported => exact h.unchanged (fun _ => rfl) (by simp) (by simp)

theorem Inv.of_run (h : Run Step World.empty tr w) : Inv tr w :=
  h.invariant Inv.empty (fun _ _ _ _ hi hstep => hi.step hstep)

/-! ## 4. What the invariant says

Here a run is read backwards.  A token reports the flag of the source it was made by, and a source
belongs to the request it was opened for; so a report that is set and names a request goes back to
a call that returned `true` on a source of that request. -/

variable {q : ExecutionRequest} {i k : Nat} {token : CancellationToken}

/-- A flag stays set, and a source stays bound. -/
theorem Step.state (h : Step w e w') {s : CancellationSource} (hs : w.states[i]? = some s) :
    ∃ s', w'.states[i]? = some s' ∧ s'.request = s.request ∧
      (s.requested = true → s'.requested = true) := by
  cases h with
  | forRequest opened => exact ⟨s, getElem?_concat_of_some hs, rfl, id⟩
  | @requestCancellation j state source =>
    by_cases hj : j = i
    · subst hj
      obtain rfl := Option.some.inj (source.symm.trans hs)
      obtain ⟨hlt, -⟩ := List.getElem?_eq_some_iff.mp source
      exact ⟨_, List.getElem?_set_self hlt, by simp, by simp⟩
    · exact ⟨s, by rw [List.getElem?_set_ne hj, hs], rfl, id⟩
  | _ => exact ⟨s, hs, rfl, id⟩

theorem state_of_run (h : Run Step w tr w') {s : CancellationSource}
    (hs : w.states[i]? = some s) :
    ∃ s', w'.states[i]? = some s' ∧ s'.request = s.request ∧
      (s.requested = true → s'.requested = true) := by
  refine h.stable (P := fun w' => ∃ s', w'.states[i]? = some s' ∧ s'.request = s.request ∧
    (s.requested = true → s'.requested = true)) ?_ ⟨s, hs, rfl, id⟩
  rintro w₁ _ w₂ ⟨s₁, hs₁, hbound, hset⟩ hstep
  obtain ⟨s₂, hs₂, hbound', hset'⟩ := hstep.state hs₁
  exact ⟨s₂, hs₂, hbound'.trans hbound, fun h => hset' (hset h)⟩

omit [Filesystem] [External] in
theorem report_eq_some : w.report k = some token ↔
    ∃ i s, w.tokens[k]? = some i ∧ w.states[i]? = some s ∧ token = s.token := by
  simp only [World.report, Option.bind_eq_bind, Option.bind_eq_some_iff]
  constructor
  · rintro ⟨i, hi, s, hs, htoken⟩
    exact ⟨i, s, hi, hs, (Option.some.inj htoken).symm⟩
  · rintro ⟨i, s, hi, hs, rfl⟩
    exact ⟨i, hi, s, hs, rfl⟩

/-- A token of a source shares its state, however often it was copied. -/
theorem Inv.tokens_eq (h : Inv tr w) (ht : TokenOf tr i k) : w.tokens[k]? = some i := by
  induction ht with
  | made hmade => exact h.made i _ hmade
  | @copied j k _ hcopied ih =>
    obtain ⟨i', hj, hk⟩ := h.copied j k hcopied
    obtain rfl := Option.some.inj (ih.symm.trans hj)
    exact hk

theorem Inv.report_eq (h : Inv tr w) (ht : TokenOf tr i k) :
    ∃ s, w.states[i]? = some s ∧ w.report k = some s.token := by
  have htoken : w.tokens[k]? = some i := h.tokens_eq ht
  have hlt : i < w.states.length := h.shared i (List.mem_of_getElem? htoken)
  have hs : w.states[i]? = some w.states[i] := List.getElem?_eq_getElem hlt
  exact ⟨_, hs, report_eq_some.mpr ⟨i, _, htoken, hs, rfl⟩⟩

/-- **Control evidence has been given by a source of the request.** -/
theorem Inv.authorized (h : Inv tr w) (hreport : w.report k = some token)
    (hcontrol : ControlEvidence q token) :
    ∃ i q', .requestCancellation i true ∈ tr ∧ .forRequest q' (.ok i) ∈ tr ∧
      q'.identity = q.identity := by
  obtain ⟨i, s, -, hs, rfl⟩ := report_eq_some.mp hreport
  have hrequested : s.requested = true := hcontrol.requested
  have hbound : s.request = q.identity := hcontrol.bound
  have hcount : tr.countP (Event.cancels i) = 1 := by
    rw [h.counted i s hs, if_pos hrequested]
  obtain ⟨e, he, hcancels⟩ : ∃ e ∈ tr, e.cancels i = true :=
    List.countP_pos_iff.mp (by omega)
  obtain rfl := Event.eq_of_cancels hcancels
  obtain ⟨q', hopened, -, hid⟩ := h.opened i s hs
  exact ⟨i, q', he, hopened, hid.symm.trans hbound⟩

/-- A hook is entered only as its overload allows. -/
theorem Step.entered (h : Step w e w') {hook : HookCall} (hentered : e.entered = some hook) :
    (∀ q resources, hook = .executeUncontrolled q resources → q.cancellation.mode = .disabled) ∧
      (∀ q resources token, hook = .executeControlled q resources token →
        q.cancellation.mode ≠ .disabled ∧ token.requestIdentity = q.identity) := by
  cases h with
  | @execute q resources =>
    cases hcall : ControlledExecutionBackend.execute q resources with
    | error err =>
      rw [hcall] at hentered
      exact absurd hentered (by simp [Event.entered])
    | ok entered =>
      rw [hcall] at hentered
      obtain rfl := Option.some.inj hentered
      obtain ⟨hmode, rfl⟩ := ControlledExecutionBackend.execute_eq_ok.mp hcall
      refine ⟨?_, by simp⟩
      rintro q' resources' heq
      cases heq
      exact hmode
  | @executeWith q resources _ token _ =>
    cases hcall : ControlledExecutionBackend.executeWith q resources token with
    | error err =>
      rw [hcall] at hentered
      exact absurd hentered (by simp [Event.entered])
    | ok entered =>
      rw [hcall] at hentered
      obtain rfl := Option.some.inj hentered
      obtain ⟨hcontrol, rfl⟩ := ControlledExecutionBackend.executeWith_eq_ok.mp hcall
      refine ⟨by simp, ?_⟩
      rintro q' resources' token' heq
      cases heq
      exact hcontrol
  | _ => exact absurd hentered (by simp [Event.entered])

/-- The call sealed a cancelled result. -/
def Event.Cancelled (e : Event) (q : ExecutionRequest) (r : ExecutionResult) : Prop :=
  ∃ k, e = .cancelledBeforeStart q k (.ok r) ∨ e = .cancelledAfterStart q k (.ok r)

/-- It did so on control evidence that some token reported. -/
theorem Step.cancelled (h : Step w e w') {r : ExecutionResult} (hcancelled : e.Cancelled q r) :
    r.request = q ∧ r.failure = some .cancelled ∧
      ∃ k token, w.report k = some token ∧ ControlEvidence q token := by
  obtain ⟨k, rfl | rfl⟩ := hcancelled
  · generalize hcall : (Except.ok r : Except Error ExecutionResult) = outcome at h
    cases h with
    | cancelledBeforeStart reported =>
      obtain ⟨gs, hcontrol, -, -, -, rfl⟩ := cancelledBeforeStart_eq_ok.mp hcall.symm
      exact ⟨rfl, rfl, _, _, reported, hcontrol⟩
  · generalize hcall : (Except.ok r : Except Error ExecutionResult) = outcome at h
    cases h with
    | cancelledAfterStart reported =>
      obtain ⟨c, -, hcontrol, -, rfl⟩ := cancelledAfterStart_eq_ok.mp hcall.symm
      exact ⟨rfl, rfl, _, _, reported, hcontrol⟩

/-! ## 5. Authority -/

/-- **Only the source of a request cancels it.**  After any calls in any order: a source belongs
to a request that allows cancellation; its flag stays set once it is, and is set exactly when
one of its calls has returned `true`; all its tokens report that flag; the hooks were entered
with the requests and the tokens they are for; and before every cancelled result a source of its
request was cancelled. -/
theorem cancellation_authority (h : Run Step World.empty tr w) :
    (∀ i s, w.states[i]? = some s → ∃ q, .forRequest q (.ok i) ∈ tr ∧
        q.cancellation.mode ≠ .disabled ∧ s.request = q.identity) ∧
      (∀ i s, w.states[i]? = some s →
        (∀ tr' w', Run Step w tr' w' → ∃ s', w'.states[i]? = some s' ∧ s'.request = s.request ∧
          (s.requested = true → s'.requested = true)) ∧
        (s.requested = true ↔ tr.countP (Event.cancels i) = 1) ∧
        tr.countP (Event.cancels i) ≤ 1) ∧
      (∀ i k, TokenOf tr i k → ∃ s, w.states[i]? = some s ∧ w.report k = some s.token) ∧
      (∀ e ∈ tr, ∀ hook, e.entered = some hook →
        (∀ q resources, hook = .executeUncontrolled q resources →
          q.cancellation.mode = .disabled) ∧
        (∀ q resources token, hook = .executeControlled q resources token →
          q.cancellation.mode ≠ .disabled ∧ token.requestIdentity = q.identity)) ∧
      (∀ pre e post, tr = pre ++ e :: post → ∀ q r, e.Cancelled q r →
        r.request = q ∧ r.failure = some .cancelled ∧
          ∃ i q', .requestCancellation i true ∈ pre ∧ .forRequest q' (.ok i) ∈ pre ∧
            q'.identity = q.identity) := by
  have hi : Inv tr w := Inv.of_run h
  refine ⟨hi.opened, ?_, fun i k => hi.report_eq, ?_, ?_⟩
  · intro i s hs
    have hcount := hi.counted i s hs
    refine ⟨fun tr' w' hrun => state_of_run hrun hs, ?_, ?_⟩
    · rw [hcount]
      split
      · simp_all
      · simp_all
    · rw [hcount]
      split
      · exact le_rfl
      · exact Nat.zero_le 1
  · intro e he hook hentered
    obtain ⟨pre, post, rfl⟩ := List.append_of_mem he
    obtain ⟨w₁, w₂, -, hstep, -⟩ := h.step_of_mem
    exact hstep.entered hentered
  · rintro pre e post rfl q r hcancelled
    obtain ⟨w₁, w₂, hpre, hstep, -⟩ := h.step_of_mem
    have hi₁ : Inv pre w₁ := Inv.of_run hpre
    obtain ⟨hrequest, hfailure, k, token, hreport, hcontrol⟩ := hstep.cancelled hcancelled
    exact ⟨hrequest, hfailure, hi₁.authorized hreport hcontrol⟩

end Calls

end Authority

/-! ## 6. A cancelled request

A run in which all of this occurs: a source is opened, cancelled once, and a result is sealed on
what its token reports. -/

namespace Sample

/-- Paths are strings. -/
scoped instance filesystem : Filesystem where
  Path := Bytes
  isEmpty := List.isEmpty
  isAbsolute path := path.head? == some 0x2f
  lexicallyNormal := id

/-- A second to stop in. -/
def grace : CancellationPolicy := ⟨.gracefulThenForced, some 1000, by simp, by simp⟩

/-- A request that may be cancelled. -/
def cancellable : ExecutionRequest :=
  .ofPolicies (request .discard).program .build (request .discard).interpreter
    (request .discard).rootView layout (environment .discard) credentials noLimits grace

/-- Before the start only the control was set up. -/
theorem cancelled_accepted :
    ∃ r, ExecutionResult.cancelledBeforeStart cancellable (profile cancellable)
      ⟨cancellable.identity, true⟩ [Raw.of .cancellation] diagnostic = .ok r := by
  have hmode : cancellable.cancellation.mode ≠ .disabled := by
    show CancellationMode.gracefulThenForced ≠ .disabled
    decide
  have hrequired : ExecutionGuarantee.cancellation ∈ cancellable.requiredGuarantees :=
    (cancellable.mem_required _).mpr hmode
  have hevidence : PreStartEvidence cancellable (profile cancellable) [Raw.of .cancellation]
      [.cancellation] := {
    strict := List.pairwise_singleton _ _
    established := by simp
    limitShape := by
      have hkind : ∀ kind, guaranteeFor kind ≠ .cancellation := by
        intro kind
        cases kind <;> simp [guaranteeFor]
      simp [LimitShape, hkind]
    requested := by simpa using hrequired
    advertised := by
      intro g hg
      rw [List.mem_singleton.mp hg]
      exact hrequired
    beforeStart := by simp [beforeStartGuarantee] }
  have hcontrol : ControlEvidence cancellable ⟨cancellable.identity, true⟩ := ⟨hmode, rfl, rfl⟩
  exact ⟨_, cancelledBeforeStart_eq_ok.mpr
    ⟨_, hcontrol, hevidence, profile_supports _, by simp, rfl⟩⟩

end Sample

open Sample Authority in
/-- A request is opened, cancelled and reported as cancelled. -/
theorem Authority.cancellation_authority_cancelled :
    ∃ (r : ExecutionResult) (w : World), Run Step World.empty
        ([.forRequest cancellable (.ok 0), .token 0 0, .requestCancellation 0 true] ++
          [.cancelledBeforeStart cancellable 0 (.ok r)]) w ∧
      r.request = cancellable ∧ r.failure = some .cancelled ∧
      ∃ i q', .requestCancellation i true ∈
          [Event.forRequest cancellable (.ok 0), .token 0 0, .requestCancellation 0 true] ∧
        .forRequest q' (.ok i) ∈
          [Event.forRequest cancellable (.ok 0), .token 0 0, .requestCancellation 0 true] ∧
        q'.identity = cancellable.identity := by
  obtain ⟨r, hr⟩ := cancelled_accepted
  have hopen : CancellationSource.forRequest cancellable = .ok ⟨cancellable.identity, false⟩ :=
    CancellationSource.forRequest_eq_ok.mpr ⟨CancellationMode.noConfusion, rfl⟩
  have hopened : Run Step World.empty [.forRequest cancellable (.ok 0)]
      ⟨[⟨cancellable.identity, false⟩], []⟩ := Run.nil.snoc (.forRequest hopen)
  have htoken : Run Step World.empty [.forRequest cancellable (.ok 0), .token 0 0]
      ⟨[⟨cancellable.identity, false⟩], [0]⟩ := hopened.snoc (.token Nat.zero_lt_one)
  have hrequest :=
    Step.requestCancellation (w := ⟨[⟨cancellable.identity, false⟩], [0]⟩) (i := 0) rfl
  have hrequested : Run Step World.empty
      [.forRequest cancellable (.ok 0), .token 0 0, .requestCancellation 0 true]
      ⟨[⟨cancellable.identity, true⟩], [0]⟩ := htoken.snoc hrequest
  have hcancelled : Run Step World.empty
      ([.forRequest cancellable (.ok 0), .token 0 0, .requestCancellation 0 true] ++
        [.cancelledBeforeStart cancellable 0 (.ok r)])
      ⟨[⟨cancellable.identity, true⟩], [0]⟩ := by
    rw [← hr]
    exact hrequested.snoc (.cancelledBeforeStart (k := 0) rfl)
  exact ⟨r, _, hcancelled,
    (cancellation_authority hcancelled).2.2.2.2 _ _ [] rfl _ _ ⟨0, .inl rfl⟩⟩

end Pkgexec
