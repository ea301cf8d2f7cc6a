/-
# Evidence that outlasts its process

`ControlRuns` follows one process from its first call.  Here the process may end and another may
start: the sources, the tokens and the results are gone with it, the records that were stored
stay.  A record may have been cut short when the process ended, and it is decoded with whatever
request and profile the next process has.  Decoding a cancelled result makes a source of its own
and cancels it, so that a decoded result was not authorized by a caller of that process.

* Section 1: what the factories need for a cancelled result, and what is decoded from a record
  that was cut short.
* Section 2: the calls, with the end of a process among them.
* Section 3: the invariant, which ties every result that a process holds, and every record, to a
  call of a factory, in whichever process that was.
* Section 4: what it says (`evidence_outlasts`).
-/
import Pkgexec.ControlRuns
import Pkgexec.Records

namespace Pkgexec

open Bytes Transition

section Evidence

variable [External]

/-! ## 1. Results and records

Two facts from the modules before, in the form in which they are needed here. -/

/-- A cancelled result takes a token that gives control evidence for its request. -/
theorem FactoryCall.cancelled {call : FactoryCall} {r : ExecutionResult} (hr : call.run = .ok r)
    (hfailure : r.failure = some .cancelled) :
    ∃ token, call.token? = some token ∧ ControlEvidence r.request token := by
  cases call with
  | failedBeforeStart q p failure established d =>
    obtain ⟨f, gs, -, hpre, -, -, rfl⟩ := failedBeforeStart_eq_ok.mp hr
    obtain rfl : f = .cancelled := Option.some.inj hfailure
    exact absurd hpre (by simp [preStartFailure])
  | cancelledBeforeStart q p token established d =>
    obtain ⟨gs, hcontrol, -, -, -, rfl⟩ := cancelledBeforeStart_eq_ok.mp hr
    exact ⟨token, rfl, hcontrol⟩
  | succeeded q p i o e established d =>
    obtain ⟨-, -, rfl⟩ := succeeded_eq_ok.mp hr
    exact absurd hfailure (by simp [ExecutionResult.sealed])
  | failedAfterStart q p i t o e established cleanup failure d =>
    obtain ⟨f, c, -, -, hev, rfl⟩ := failedAfterStart_eq_ok.mp hr
    exact absurd (Option.some.inj hfailure) hev.shown.ne_cancelled
  | cancelledAfterStart q p token i o e established cleanup d =>
    obtain ⟨c, -, hcontrol, -, rfl⟩ := cancelledAfterStart_eq_ok.mp hr
    exact ⟨token, rfl, hcontrol⟩

/-- The front of a record is decoded only if nothing is missing. -/
theorem decode_front {r r' : ExecutionResult} {part whole : Bytes} {q : ExecutionRequest}
    {p : BackendCapabilityProfile} (hr : Built r) (hwhole : encodeExecutionResult r = .ok whole)
    (hpart : part <+: whole) (h : decodeExecutionResult part q p = .ok r') :
    part = whole ∧ r'.image = r.image := by
  obtain ⟨hr', -, -, hb⟩ := decode_built h
  have himage : r'.image = r.image := image_of_prefix hr' hr hb hwhole hpart
  rw [encode_of_image himage, hwhole] at hb
  exact ⟨(Except.ok.inj hb).symm, himage⟩

end Evidence

/-! ## 2. Calls

The calls of `ControlRuns`, the encoding and decoding of records, and the end of the process, which
leaves the records and nothing else. -/

namespace Stored

variable [Filesystem] [External]

/-- What a process has made, and the records, which outlast it. -/
structure State where
  world : Authority.World
  results : List ExecutionResult
  records : List Bytes

namespace State

def empty : State := ⟨.empty, [], []⟩

/-- The state after a call that may have returned a result. -/
def hold (s : State) (r : Option ExecutionResult) : State :=
  { s with results := s.results ++ r.toList }

end State

inductive Event
  /-- A call of `Authority`: of the control, of a backend, or for a cancelled result. -/
  | control (call : Authority.Event)
  /-- A call of a factory that takes no token. -/
  | build (outcome : Except Error ExecutionResult)
  /-- `encode_execution_result`, and the record is stored. -/
  | store (result : ExecutionResult) (outcome : Except Error Bytes)
  /-- A record is cut short. -/
  | cut (record length : Nat)
  /-- `decode_execution_result` of a record that was stored. -/
  | load (record : Nat) (request : ExecutionRequest) (backend : BackendCapabilityProfile)
      (outcome : Except Error ExecutionResult)
  /-- The process ends, and another starts. -/
  | restart

namespace Event

/-- The call of the control. -/
def control? : Event → Option Authority.Event
  | control call => some call
  | _ => none

/-- The result that a factory has sealed. -/
def made : Event → Option ExecutionResult
  | control (.cancelledBeforeStart _ _ outcome) => outcome.toOption
  | control (.cancelledAfterStart _ _ outcome) => outcome.toOption
  | build outcome => outcome.toOption
  | _ => none

end Event

inductive Step : State → Event → State → Prop
  | control {s : State} {call : Authority.Event} {world : Authority.World}
      (called : Authority.Step s.world call world) :
      Step s (.control call) (State.hold { s with world := world } (Event.control call).made)
  | build {s : State} {call : FactoryCall} (uncontrolled : call.token? = none) :
      Step s (.build call.run) (s.hold call.run.toOption)
  | store {s : State} {r : ExecutionResult} (held : r ∈ s.results) :
      Step s (.store r (encodeExecutionResult r))
        { s with records := s.records ++ (encodeExecutionResult r).toOption.toList }
  | cut {s : State} {k n : Nat} {b : Bytes} (stored : s.records[k]? = some b) :
      Step s (.cut k n) { s with records := s.records.set k (b.take n) }
  | load {s : State} {k : Nat} {b : Bytes} {q : ExecutionRequest} {p : BackendCapabilityProfile}
      (stored : s.records[k]? = some b) :
      Step s (.load k q p (decodeExecutionResult b q p))
        (s.hold (decodeExecutionResult b q p).toOption)
  | restart {s : State} : Step s .restart { State.empty with records := s.records }

/-- A factory has sealed the result, in this process or in an earlier one. -/
def Made (tr : List Event) (r : ExecutionResult) : Prop :=
  ∃ e ∈ tr, e.made = some r

/-- In the life of one process a source was opened for a request with this identity and was
cancelled. -/
def Backed (tr : List Event) (request : ExecutionRequestIdentity) : Prop :=
  ∃ pre life post, tr = pre ++ life ++ post ∧ .restart ∉ life ∧
    ∃ i q, .control (.requestCancellation i true) ∈ life ∧
      .control (.forRequest q (.ok i)) ∈ life ∧ q.identity = request

/-! ## 3. The invariant

It is about the events: for every result that is held there is a call that sealed one telling the
same, and for every cancelled one a process that opened a source and cancelled it.  A decoded
cancellation is backed by the record it was decoded from, and so by an earlier process. -/

variable {tr : List Event} {s s' : State} {e : Event}

/-- What was made stays made, -/
theorem Made.concat {r : ExecutionResult} (h : Made tr r) : Made (tr ++ [e]) r := by
  obtain ⟨e', he', hmade⟩ := h
  exact ⟨e', List.mem_append_left _ he', hmade⟩

/-- and what was backed stays backed. -/
theorem Backed.concat {request : ExecutionRequestIdentity} (h : Backed tr request) :
    Backed (tr ++ [e]) request := by
  obtain ⟨pre, life, post, rfl, hlife, hbacked⟩ := h
  exact ⟨pre, life, post ++ [e], by rw [List.append_assoc _ post], hlife, hbacked⟩

/-- What the present process has done. -/
def Life (tr : List Event) (world : Authority.World) : Prop :=
  ∃ pre life, tr = pre ++ life ∧ .restart ∉ life ∧
    Run Authority.Step .empty (life.filterMap Event.control?) world

/-- **Nothing is held that was not made.** -/
structure Inv (tr : List Event) (s : State) : Prop where
  life : Life tr s.world
  /-- What a factory has sealed is evidence, and of a cancellation only with authority. -/
  made : ∀ r, Made tr r →
    Built r ∧ (r.failure = some .cancelled → Backed tr r.request.identity)
  /-- What a process holds tells no more than what a factory has sealed. -/
  held : ∀ r ∈ s.results, Built r ∧ ∃ r', Made tr r' ∧ r.image = r'.image
  /-- A record is one of a sealed result, or the front of one. -/
  kept : ∀ b ∈ s.records, ∃ r whole, Made tr r ∧ encodeExecutionResult r = .ok whole ∧
    b <+: whole

theorem Inv.empty : Inv [] State.empty where
  life := ⟨[], [], rfl, by simp, .nil⟩
  made := by simp [Made]
  held := by simp [State.empty]
  kept := by simp [State.empty]

/-- A process goes on. -/
theorem Life.concat {world world' : Authority.World} (h : Life tr world) (hne : e ≠ .restart)
    (hrun : ∀ life, Run Authority.Step .empty life world →
      Run Authority.Step .empty (life ++ e.control?.toList) world') :
    Life (tr ++ [e]) world' := by
  obtain ⟨pre, life, rfl, hlife, hworld⟩ := h
  refine ⟨pre, life ++ [e], List.append_assoc _ _ _, ?_, ?_⟩
  · simp only [List.mem_append, List.mem_singleton, not_or]
    exact ⟨hlife, hne.symm⟩
  · have hcalls : (life ++ [e]).filterMap Event.control? =
        life.filterMap Event.control? ++ e.control?.toList := by
      rw [List.filterMap_append]
      cases hcall : e.control? <;> simp [hcall]
    rw [hcalls]
    exact hrun _ hworld

theorem Life.quiet {world : Authority.World} (h : Life tr world) (hne : e ≠ .restart)
    (hquiet : e.control? = none) : Life (tr ++ [e]) world := by
  refine h.concat hne (fun life hrun => ?_)
  rw [hquiet, Option.toList_none, List.append_nil]
  exact hrun

/-- Control evidence was given by a source of the present process. -/
theorem Life.backed {world : Authority.World} (h : Life tr world) {k : Nat}
    {token : CancellationToken} {q : ExecutionRequest} (hreport : world.report k = some token)
    (hcontrol : ControlEvidence q token) : Backed tr q.identity := by
  obtain ⟨pre, life, rfl, hlife, hworld⟩ := h
  obtain ⟨i, q', hcancelled, hopened, hidentity⟩ :=
    (Authority.Inv.of_run hworld).authorized hreport hcontrol
  have hmem : ∀ call, call ∈ life.filterMap Event.control? → .control call ∈ life := by
    intro call hcall
    obtain ⟨e, he, hcall⟩ := List.mem_filterMap.mp hcall
    cases e with
    | control call' =>
      obtain rfl := Option.some.inj hcall
      exact he
    | _ => exact absurd hcall (by simp [Event.control?])
  exact ⟨pre, life, [], by rw [List.append_nil], hlife, i, q', hmem _ hcancelled,
    hmem _ hopened, hidentity⟩

omit [Filesystem] [External] in
theorem eq_of_toOption {α : Type} {x : Except Error α} {a : α} (h : x.toOption = some a) :
    x = .ok a := by
  cases x with
  | error e => exact absurd h (by simp [Except.toOption])
  | ok b =>
    obtain rfl := Option.some.inj h
    rfl

/-- The calls of `Authority` that seal a result. -/
theorem cancelled_of_made {call : Authority.Event} {r : ExecutionResult}
    (h : (Event.control call).made = some r) : ∃ q, call.Cancelled q r := by
  cases call with
  | cancelledBeforeStart q k outcome =>
    obtain rfl := eq_of_toOption h
    exact ⟨q, k, .inl rfl⟩
  | cancelledAfterStart q k outcome =>
    obtain rfl := eq_of_toOption h
    exact ⟨q, k, .inr rfl⟩
  | _ => exact absurd h (by simp [Event.made])

theorem built_of_cancelled {world world' : Authority.World} {call : Authority.Event}
    {q : ExecutionRequest} {r : ExecutionResult} (h : Authority.Step world call world')
    (hcancelled : call.Cancelled q r) : Built r := by
  obtain ⟨k, rfl | rfl⟩ := hcancelled
  · generalize hcall : (Except.ok r : Except Error ExecutionResult) = outcome at h
    cases h with
    | cancelledBeforeStart reported => exact ⟨.cancelledBeforeStart _ _ _ _ _, hcall.symm⟩
  · generalize hcall : (Except.ok r : Except Error ExecutionResult) = outcome at h
    cases h with
    | cancelledAfterStart reported =>
      exact ⟨.cancelledAfterStart _ _ _ _ _ _ _ _ _, hcall.symm⟩

/-- What a call of the present process seals. -/
theorem Inv.sealed (h : Inv tr s) (hstep : Step s e s') {r : ExecutionResult}
    (hmade : e.made = some r) :
    Built r ∧ (r.failure = some .cancelled → Backed tr r.request.identity) := by
  cases hstep with
  | control called =>
    obtain ⟨q, hcancelled⟩ := cancelled_of_made hmade
    obtain ⟨rfl, -, k, token, hreport, hcontrol⟩ := called.cancelled hcancelled
    exact ⟨built_of_cancelled called hcancelled, fun _ => h.life.backed hreport hcontrol⟩
  | @build call uncontrolled =>
    have hr : call.run = .ok r := eq_of_toOption hmade
    refine ⟨⟨call, hr⟩, fun hfailure => ?_⟩
    obtain ⟨token, htoken, -⟩ := FactoryCall.cancelled hr hfailure
    exact absurd (uncontrolled.symm.trans htoken) (by simp)
  | _ => exact absurd hmade (by simp [Event.made])

theorem made_concat {r : ExecutionResult} :
    Made (tr ++ [e]) r ↔ Made tr r ∨ e.made = some r := by
  constructor
  · rintro ⟨e', he', hmade⟩
    rcases List.mem_append.mp he' with he' | he'
    · exact .inl ⟨e', he', hmade⟩
    · obtain rfl := List.mem_singleton.mp he'
      exact .inr hmade
  · rintro (h | hmade)
    · exact h.concat
    · exact ⟨e, by simp, hmade⟩

/-- What was made stays made, and what was kept stays kept. -/
theorem Inv.mono (h : Inv tr s) (hstep : Step s e s') (hlife : Life (tr ++ [e]) s'.world)
    (hheld : ∀ r ∈ s'.results, r ∈ s.results ∨
      Built r ∧ ∃ r', Made (tr ++ [e]) r' ∧ r.image = r'.image)
    (hkept : ∀ b ∈ s'.records, ∃ r whole, Made (tr ++ [e]) r ∧
      encodeExecutionResult r = .ok whole ∧ b <+: whole) : Inv (tr ++ [e]) s' where
  life := hlife
  made r hr := by
    rcases made_concat.mp hr with hold | hnew
    · obtain ⟨hbuilt, hbacked⟩ := h.made r hold
      exact ⟨hbuilt, fun hfailure => (hbacked hfailure).concat⟩
    · obtain ⟨hbuilt, hbacked⟩ := h.sealed hstep hnew
      exact ⟨hbuilt, fun hfailure => (hbacked hfailure).concat⟩
  held r hr := by
    rcases hheld r hr with hold | hnew
    · obtain ⟨hbuilt, r', hmade, himage⟩ := h.held r hold
      exact ⟨hbuilt, r', hmade.concat, himage⟩
    · exact hnew
  kept := hkept

theorem Inv.keeps (h : Inv tr s) :
    ∀ b ∈ s.records, ∃ r whole, Made (tr ++ [e]) r ∧ encodeExecutionResult r = .ok whole ∧
      b <+: whole := by
  intro b hb
  obtain ⟨r, whole, hmade, hwhole, hpart⟩ := h.kept b hb
  exact ⟨r, whole, hmade.concat, hwhole, hpart⟩

omit [Filesystem] in
theorem mem_hold {r : ExecutionResult} {o : Option ExecutionResult} :
    r ∈ (s.hold o).results ↔ r ∈ s.results ∨ o = some r := by
  simp [State.hold]

/-- A call that seals what it returns. -/
theorem Inv.holds (h : Inv tr s) (hstep : Step s e s')
    (hresults : s'.results = s.results ++ e.made.toList) :
    ∀ r ∈ s'.results, r ∈ s.results ∨
      Built r ∧ ∃ r', Made (tr ++ [e]) r' ∧ r.image = r'.image := by
  intro r hr
  rw [hresults, List.mem_append, Option.mem_toList] at hr
  rcases hr with hold | hnew
  · exact .inl hold
  · exact .inr ⟨(h.sealed hstep hnew).1, r, made_concat.mpr (.inr hnew), rfl⟩

/-- The step lemma, -/
theorem Inv.step (h : Inv tr s) (hstep : Step s e s') : Inv (tr ++ [e]) s' := by
  have hcopy := hstep
  cases hstep with
  | control called =>
    refine h.mono hcopy ?_ (h.holds hcopy rfl) h.keeps
    exact h.life.concat (by simp) (fun life hrun => hrun.snoc called)
  | build uncontrolled =>
    exact h.mono hcopy (h.life.quiet (by simp) rfl) (h.holds hcopy rfl) h.keeps
  | @store r held =>
    refine h.mono hcopy (h.life.quiet (by simp) rfl) (fun r hr => .inl hr) ?_
    intro b hb
    rcases List.mem_append.mp hb with hold | hnew
    · exact h.keeps b hold
    · have hencode := eq_of_toOption (Option.mem_toList.mp hnew)
      obtain ⟨-, r', hmade, himage⟩ := h.held r held
      exact ⟨r', b, hmade.concat, (encode_of_image himage).symm.trans hencode, List.prefix_rfl⟩
  | @cut k n b stored =>
    refine h.mono hcopy (h.life.quiet (by simp) rfl) (fun r hr => .inl hr) ?_
    intro b' hb'
    rcases List.mem_or_eq_of_mem_set hb' with hold | rfl
    · exact h.keeps b' hold
    · obtain ⟨r, whole, hmade, hwhole, hpart⟩ := h.kept b (List.mem_of_getElem? stored)
      exact ⟨r, whole, hmade.concat, hwhole, (List.take_prefix n b).trans hpart⟩
  | @load k b q p stored =>
    refine h.mono hcopy (h.life.quiet (by simp) rfl) ?_ h.keeps
    intro r hr
    rcases mem_hold.mp hr with hold | hnew
    · exact .inl hold
    · have hdecode := eq_of_toOption hnew
      obtain ⟨r', whole, hmade, hwhole, hpart⟩ := h.kept b (List.mem_of_getElem? stored)
      obtain ⟨-, himage⟩ := decode_front (h.made r' hmade).1 hwhole hpart hdecode
      exact .inr ⟨(decode_built hdecode).1, r', hmade.concat, himage⟩
  | restart =>
    refine h.mono hcopy ?_ (by simp [State.empty]) h.keeps
    exact ⟨tr ++ [.restart], [], by simp, by simp, .nil⟩

/-- and the run lemma. -/
theorem Inv.of_run (h : Run Step .empty tr s) : Inv tr s :=
  h.invariant Inv.empty (fun _ _ _ _ hi hstep => hi.step hstep)

/-! ## 4. Evidence

The invariant, and what the codec says of the records that are kept. -/

/-- **What a process holds has been made, and a cancellation has been authorized.**  After any
calls in any order, in any number of processes: a result that is held tells the same as one that
some factory has sealed, parties by their identities; if it is a cancelled one, then in the life
of some process a source of its request was opened and cancelled.  A record that was cut short is
not decoded; a whole one is decoded with the parties of its result, and to nothing but that
result. -/
theorem evidence_outlasts (h : Run Step .empty tr s) :
    (∀ r ∈ s.results, (∃ r', Made tr r' ∧ r.image = r'.image) ∧
      (r.failure = some .cancelled → Backed tr r.request.identity)) ∧
    (∀ b ∈ s.records, ∃ r whole, Made tr r ∧ encodeExecutionResult r = .ok whole ∧ b <+: whole ∧
      (b ≠ whole → ∀ q p r', decodeExecutionResult b q p ≠ .ok r') ∧
      decodeExecutionResult whole r.request r.backend = .ok r ∧
      ∀ q p r', decodeExecutionResult whole q p = .ok r' → r'.image = r.image) := by
  have hi : Inv tr s := Inv.of_run h
  constructor
  · intro r hr
    obtain ⟨-, r', hmade, himage⟩ := hi.held r hr
    refine ⟨⟨r', hmade, himage⟩, fun hfailure => ?_⟩
    have hfailure' : r'.failure = r.failure :=
      (congrArg (fun image => image.fields.failure) himage).symm
    have hidentity : r'.request.identity = r.request.identity :=
      (congrArg Image.request himage).symm
    rw [← hidentity]
    exact (hi.made r' hmade).2 (hfailure'.trans hfailure)
  · intro b hb
    obtain ⟨r, whole, hmade, hwhole, hpart⟩ := hi.kept b hb
    have hbuilt : Built r := (hi.made r hmade).1
    refine ⟨r, whole, hmade, hwhole, hpart, ?_, decode_of_encode hbuilt.evidence hwhole, ?_⟩
    · intro hne q p r' hdecode
      exact hne (decode_front hbuilt hwhole hpart hdecode).1
    · intro q p r' hdecode
      exact (decode_front hbuilt hwhole List.prefix_rfl hdecode).2

end Stored

/-! ## 5. A cancellation, reported by a later process

One run in which the process ends between a cancellation and its report. -/

namespace Sample

/-- The report that `cancelled_accepted` is about. -/
def cancelledResult : ExecutionResult :=
  .sealed .failed .notStarted cancellable (profile cancellable) none none none none
    [.cancellation] .notRequired (some .cancelled) diagnostic

theorem cancelled_result :
    ExecutionResult.cancelledBeforeStart cancellable (profile cancellable)
      ⟨cancellable.identity, true⟩ [Raw.of .cancellation] diagnostic = .ok cancelledResult := by
  obtain ⟨r, hr⟩ := cancelled_accepted
  obtain ⟨gs, -, hevidence, -, -, hsealed⟩ := cancelledBeforeStart_eq_ok.mp hr
  have hgs : gs = [.cancellation] := by
    refine Ranges.eq_of_mem_iff hevidence.strict (List.pairwise_singleton _ _) (fun g => ?_)
    have hmem := hevidence.established (Raw.of g)
    rw [List.mem_singleton, Raw.of_injective.eq_iff, List.mem_map_of_injective Raw.of_injective]
      at hmem
    rw [List.mem_singleton, hmem]
  rw [hr, hsealed, hgs]
  rfl

theorem encodable_cancelledResult : Encodable cancelledResult :=
  ⟨by decide +kernel, by decide, by decide +kernel⟩

end Sample

open Sample Stored in
/-- The process that was cancelled has ended, and the next decodes its record. -/
theorem Stored.evidence_outlasts_loaded :
    ∃ tr s, Run Step .empty tr s ∧ cancelledResult ∈ s.results ∧
      (∃ r', Made tr r' ∧ cancelledResult.image = r'.image) ∧
      Backed tr cancellable.identity := by
  have hopen : CancellationSource.forRequest cancellable = .ok ⟨cancellable.identity, false⟩ :=
    CancellationSource.forRequest_eq_ok.mpr ⟨CancellationMode.noConfusion, rfl⟩
  have hbuilt : Built cancelledResult := ⟨.cancelledBeforeStart _ _ _ _ _, cancelled_result⟩
  obtain ⟨b, hb⟩ : ∃ b, encodeExecutionResult cancelledResult = .ok b :=
    ⟨_, encode_of_encodable encodable_cancelledResult⟩
  have hopened : Run Step .empty [.control (.forRequest cancellable (.ok 0))]
      ⟨⟨[⟨cancellable.identity, false⟩], []⟩, [], []⟩ := Run.nil.snoc (.control (.forRequest hopen))
  have htoken : Run Step .empty
      [.control (.forRequest cancellable (.ok 0)), .control (.token 0 0)]
      ⟨⟨[⟨cancellable.identity, false⟩], [0]⟩, [], []⟩ :=
    hopened.snoc (.control (.token Nat.zero_lt_one))
  have hcancel : Authority.Step ⟨[⟨cancellable.identity, false⟩], [0]⟩
      (.requestCancellation 0 true) ⟨[⟨cancellable.identity, true⟩], [0]⟩ :=
    @Authority.Step.requestCancellation _ _ _ 0 ⟨cancellable.identity, false⟩ rfl
  have hreport : Authority.Step ⟨[⟨cancellable.identity, true⟩], [0]⟩
      (.cancelledBeforeStart cancellable 0 (.ok cancelledResult))
      ⟨[⟨cancellable.identity, true⟩], [0]⟩ := by
    rw [← cancelled_result]
    exact .cancelledBeforeStart rfl
  have hstore : Step ⟨⟨[⟨cancellable.identity, true⟩], [0]⟩, [cancelledResult], []⟩
      (.store cancelledResult (.ok b))
      ⟨⟨[⟨cancellable.identity, true⟩], [0]⟩, [cancelledResult], [b]⟩ := by
    have hstep := Step.store (s := ⟨⟨[⟨cancellable.identity, true⟩], [0]⟩, [cancelledResult], []⟩)
      (List.mem_singleton_self _)
    rw [hb] at hstep
    exact hstep
  have hload : Step ⟨.empty, [], [b]⟩
      (.load 0 cancellable (profile cancellable) (.ok cancelledResult))
      ⟨.empty, [cancelledResult], [b]⟩ := by
    have hdecode : decodeExecutionResult b cancellable (profile cancellable) =
        .ok cancelledResult := decode_of_encode hbuilt.evidence hb
    have hstep := Step.load (s := ⟨.empty, [], [b]⟩) (k := 0) (q := cancellable)
      (p := profile cancellable) (b := b) rfl
    rw [hdecode] at hstep
    exact hstep
  have hrun := ((((htoken.snoc (.control hcancel)).snoc (.control hreport)).snoc hstore).snoc
    .restart).snoc hload
  obtain ⟨hmade, hbacked⟩ := (evidence_outlasts hrun).1 _ (List.mem_singleton_self _)
  exact ⟨_, _, hrun, List.mem_singleton_self _, hmade, hbacked rfl⟩

end Pkgexec
