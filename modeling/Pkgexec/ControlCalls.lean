/-
# The calls of a cancellation state

`ControlThreads` follows `request_cancellation` and `cancellation_token::wait`.  Here are all the
calls that look at a `detail::cancellation_state` (`src/control.cpp`), with `wait_for` and
`cancellation_requested`, as code over its mutex, its flag and its condition variable.  The
accesses to the flag are interleaved; what the memory orders allow is in `ControlMemory`.

`wait_for` is two functions: for a timeout that is not positive one load without the mutex, else
`while (!requested) if (changed.wait_until(lock, deadline) expired) return requested;` and
`return true;`.  Time does not occur: a deadline may pass whenever the thread sleeps.

`Control` is the same source as one thread sees it, each call one step.  The calls of any number
of threads are linearizable to that source (`calls_linearizable`), and so what is said of whole
runs of sources with atomic calls may be said of threads.  The rest of the module is what a caller
gets: cancellation is seen by every later call (`cancellation_visible`), the calls cannot block
each other (`control_quiet`), and once cancellation was requested every call, `wait` and
`wait_for` included, returns after a bounded number of its own steps (`control_calls_bounded`).
-/
import Pkgexec.ControlThreads
import Pkgexec.Lib.Linearization

namespace Pkgexec.Calls

open Transition Monitor

/-! ## 1. The operations, one step each

What the calls do to a source that one thread has, from the functions of `Control`.  `wait` has no
step while cancellation is not requested; `wait_for` has one then, the end of its time, and replies
with the flag. -/

inductive Operation
  | requestCancellation
  | wait
  /-- In milliseconds. -/
  | waitFor (timeout : Int64)
  /-- Of the source and of a token alike. -/
  | cancellationRequested
  deriving DecidableEq

inductive Reply
  | requested (transitioned : Bool)
  | waited
  | waitedFor (requested : Bool)
  | observed (requested : Bool)
  deriving DecidableEq

/-- What a call does to a source that one thread has: `wait` does not return before cancellation
is requested. -/
inductive Sequential : Operation → CancellationSource → Reply → CancellationSource → Prop
  | requestCancellation {s : CancellationSource} :
      Sequential .requestCancellation s (.requested s.requestCancellation.1)
        s.requestCancellation.2
  | wait {s : CancellationSource} (requested : s.requested = true) :
      Sequential .wait s .waited s
  | waitFor {s : CancellationSource} {timeout : Int64} :
      Sequential (.waitFor timeout) s (.waitedFor s.requested) s
  | cancellationRequested {s : CancellationSource} :
      Sequential .cancellationRequested s (.observed s.token.cancellationRequested) s

/-- The source of `for_request`, with atomic calls. -/
def source (request : ExecutionRequestIdentity) :
    Atomic.Object CancellationSource Operation Reply where
  initial := ⟨request, false⟩
  step := Sequential

/-! ## 2. The code

Each place is an instruction: an access to the flag, taking or leaving the mutex, going to sleep,
the notification, the return.  The loop of `wait_for` is that of `wait`, with a deadline at the
sleep and one more load after it. -/

/-- The places of the member functions. -/
inductive Label
  | requestLock
  | requestLoad
  | requestStore
  /-- At the end of the guarded block, with the value to return. -/
  | requestUnlock (result : Bool)
  | requestNotify
  | requestReturn (result : Bool)
  | waitLock
  | waitLoad
  | waitSleep
  | waitUnlock
  | waitReturn
  | observeLoad
  | observeReturn (result : Bool)
  /-- The load of a `wait_for` that does not wait. -/
  | waitForLoad (timeout : Int64)
  | waitForReturn (result : Bool)
  | timedLock (timeout : Int64)
  | timedLoad (timeout : Int64)
  | timedSleep (timeout : Int64)
  /-- The deadline has passed: the predicate is evaluated once more. -/
  | expiredLock (timeout : Int64)
  | expiredLoad (timeout : Int64)
  | timedUnlock (result : Bool)
  | timedReturn (result : Bool)
  deriving DecidableEq

def entry : Operation → Label
  | .requestCancellation => .requestLock
  | .wait => .waitLock
  | .waitFor timeout => if timeout ≤ 0 then .waitForLoad timeout else .timedLock timeout
  | .cancellationRequested => .observeLoad

def instr : Label → Instr Label Bool Reply
  | .requestLock => .lock .requestLoad
  | .requestLoad => .access fun requested =>
      (requested, if requested = true then .requestUnlock false else .requestStore)
  | .requestStore => .access fun _ => (true, .requestUnlock true)
  | .requestUnlock result =>
      .unlock (if result = true then .requestNotify else .requestReturn false)
  | .requestNotify => .notifyAll (.requestReturn true)
  | .requestReturn result => .ret (.requested result)
  | .waitLock => .lock .waitLoad
  | .waitLoad => .access fun requested =>
      (requested, if requested = true then .waitUnlock else .waitSleep)
  | .waitSleep => .sleep .waitLock none
  | .waitUnlock => .unlock .waitReturn
  | .waitReturn => .ret .waited
  | .observeLoad => .access fun requested => (requested, .observeReturn requested)
  | .observeReturn result => .ret (.observed result)
  | .waitForLoad _ => .access fun requested => (requested, .waitForReturn requested)
  | .waitForReturn result => .ret (.waitedFor result)
  | .timedLock timeout => .lock (.timedLoad timeout)
  | .timedLoad timeout => .access fun requested =>
      (requested, if requested = true then .timedUnlock true else .timedSleep timeout)
  | .timedSleep timeout => .sleep (.timedLock timeout) (some (.expiredLock timeout))
  | .expiredLock timeout => .lock (.expiredLoad timeout)
  | .expiredLoad _ => .access fun requested => (requested, .timedUnlock requested)
  | .timedUnlock result => .unlock (.timedReturn result)
  | .timedReturn result => .ret (.waitedFor result)

/-- The member functions, over the flag. -/
def control : Code Label Bool Operation Reply := ⟨entry, instr⟩

theorem call_step {ι : Type} [DecidableEq ι] {s : State ι Label Bool} {t : ι} (op : Operation)
    (h : s.phase t = .idle) :
    control.Step s (.call t op) (s.move t (.running (control.entry op))) := .call h

/-! ## 3. What stands in the code

Everything that is to be known of the code, place by place.  The library of monitors asks for these
facts and for nothing else; each is settled by going through the places. -/

namespace Label

/-- Between taking and leaving the mutex. -/
def held : Label → Bool
  | requestLoad | requestStore | requestUnlock _ | waitLoad | waitSleep | waitUnlock
  | timedLoad _ | timedSleep _ | expiredLoad _ | timedUnlock _ => true
  | _ => false

/-- What is known of the flag: it was seen unset and the mutex has not been left since, or it was
seen set. -/
def known : Label → Bool → Prop
  | requestStore, requested | waitSleep, requested | timedSleep _, requested => requested = false
  | requestUnlock _, requested | requestNotify, requested | requestReturn _, requested
  | waitUnlock, requested | waitReturn, requested
  | observeReturn true, requested | waitForReturn true, requested | timedUnlock true, requested
  | timedReturn true, requested => requested = true
  | _, _ => True

/-- The operation, before it takes effect, and its reply after. -/
def place : Label → Atomic.Place Operation Reply
  | requestLock | requestLoad | requestStore => .called .requestCancellation
  | requestUnlock result | requestReturn result => .done (.requested result)
  | requestNotify => .done (.requested true)
  | waitLock | waitLoad | waitSleep => .called .wait
  | waitUnlock | waitReturn => .done .waited
  | observeLoad => .called .cancellationRequested
  | observeReturn result => .done (.observed result)
  | waitForLoad timeout | timedLock timeout | timedLoad timeout | timedSleep timeout
  | expiredLock timeout | expiredLoad timeout => .called (.waitFor timeout)
  | waitForReturn result | timedUnlock result | timedReturn result => .done (.waitedFor result)

/-- Between the store and the notification. -/
def owes : Label → Bool
  | requestUnlock true | requestNotify => true
  | _ => false

/-- How many steps a call has left when the flag is set. -/
def rank : Label → Nat
  | requestLock | waitLock | timedLock _ | expiredLock _ => 4
  | requestLoad | waitLoad | timedLoad _ | expiredLoad _ | requestUnlock true => 3
  | requestUnlock false | requestNotify | waitUnlock | timedUnlock _ | observeLoad
  | waitForLoad _ => 2
  | requestReturn _ | waitReturn | observeReturn _ | waitForReturn _ | timedReturn _ => 1
  | requestStore | waitSleep | timedSleep _ => 0

end Label

open Label

theorem disciplined : control.Disciplined held where
  entry := by
    intro op
    cases op with
    | waitFor timeout =>
      show held (if timeout ≤ 0 then _ else _) = false
      split <;> rfl
    | _ => rfl
  instr := by
    intro l
    cases l with
    | requestLoad | waitLoad | timedLoad => intro requested; cases requested <;> rfl
    | requestUnlock result => cases result <;> exact ⟨rfl, rfl⟩
    | requestStore | observeLoad | waitForLoad | expiredLoad => intro requested; rfl
    | requestNotify | requestReturn | waitReturn | observeReturn | waitForReturn | timedReturn =>
      rfl
    | waitSleep => exact ⟨rfl, rfl, by simp⟩
    | timedSleep timeout => exact ⟨rfl, rfl, by simp [held]⟩
    | _ => exact ⟨rfl, rfl⟩

/-- Only the store changes the flag, and sets it. -/
theorem access_cases {l : Label} {f : Bool → Bool × Label} (h : control.instr l = .access f) :
    (l = .requestStore ∧ ∀ requested, (f requested).1 = true) ∨
      ∀ requested, (f requested).1 = requested := by
  cases l with
  | requestStore =>
    cases h
    exact .inl ⟨rfl, fun _ => rfl⟩
  | requestLoad | waitLoad | timedLoad | observeLoad | waitForLoad | expiredLoad =>
    cases h
    exact .inr fun _ => rfl
  | _ => cases h

theorem known_entry (op : Operation) (requested : Bool) : known (entry op) requested := by
  cases op with
  | waitFor timeout =>
    show known (if timeout ≤ 0 then _ else _) requested
    split <;> trivial
  | _ => trivial

/-- What is known where the mutex is not held is not undone by setting the flag. -/
theorem known_set {l : Label} (h : l.held = false) {requested : Bool} (hk : known l requested) :
    known l true := by
  cases l with
  | requestStore | waitSleep | timedSleep => cases h
  | observeReturn result | waitForReturn result | timedReturn result => cases result <;> trivial
  | requestNotify | requestReturn | waitReturn => rfl
  | requestUnlock | waitUnlock | timedUnlock => cases h
  | _ => trivial

theorem outline : Outline control held known where
  entry := known_entry
  passes := by
    intro l
    cases l with
    | requestLoad | waitLoad | timedLoad => intro requested _; cases requested <;> rfl
    | requestStore => intro _ _; rfl
    | requestUnlock result => intro requested h; cases result <;> exact h
    | observeLoad | waitForLoad | expiredLoad =>
      intro requested _
      cases requested <;> trivial
    | requestNotify | waitUnlock => intro _ h; exact h
    | requestReturn | waitReturn | observeReturn | waitForReturn | timedReturn => trivial
    | timedUnlock result => intro requested h; cases result <;> exact h
    | requestLock | waitLock | timedLock | expiredLock => intro _ _; trivial
    | waitSleep => intro _; exact ⟨trivial, by simp⟩
    | timedSleep timeout =>
      intro requested
      refine ⟨trivial, ?_⟩
      rintro _ ⟨⟩
      trivial
  free := by
    intro l f m requested hinstr hl hm hfree
    rcases access_cases hinstr with ⟨rfl, hset⟩ | hkept
    · rw [hset]
      exact known_set (by simpa [held] using hfree) hm
    · rw [hkept]
      exact hm

/-- **Each call takes effect at one access to the flag**: the store of the call that sets it, and
the last load of every other call. -/
theorem points (request : ExecutionRequestIdentity) :
    Points control (source request) known place (fun requested => ⟨request, requested⟩) where
  entry := by
    intro op
    cases op with
    | waitFor timeout =>
      show place (if timeout ≤ 0 then _ else _) = _
      split <;> rfl
    | _ => rfl
  instr := by
    intro l
    cases l with
    | requestLoad =>
      intro requested _
      cases requested with
      | false => exact .inl ⟨rfl, rfl⟩
      | true => exact .inr ⟨.requestCancellation, _, rfl, rfl, .requestCancellation⟩
    | requestStore =>
      intro requested hunset
      obtain rfl : requested = false := hunset
      exact .inr ⟨.requestCancellation, _, rfl, rfl, .requestCancellation⟩
    | waitLoad =>
      intro requested _
      cases requested with
      | false => exact .inl ⟨rfl, rfl⟩
      | true => exact .inr ⟨.wait, _, rfl, rfl, .wait rfl⟩
    | observeLoad =>
      intro requested _
      exact .inr ⟨.cancellationRequested, _, rfl, rfl, .cancellationRequested⟩
    | waitForLoad timeout =>
      intro requested _
      exact .inr ⟨.waitFor timeout, _, rfl, rfl, .waitFor⟩
    | timedLoad timeout =>
      intro requested _
      cases requested with
      | false => exact .inl ⟨rfl, rfl⟩
      | true => exact .inr ⟨.waitFor timeout, _, rfl, rfl, .waitFor⟩
    | expiredLoad timeout =>
      intro requested _
      exact .inr ⟨.waitFor timeout, _, rfl, rfl, .waitFor⟩
    | requestUnlock result => cases result <;> rfl
    | waitSleep => exact ⟨rfl, by simp⟩
    | timedSleep timeout => exact ⟨rfl, by simp [place]⟩
    | _ => rfl

/-- The flag is what sleepers wait for. -/
theorem pays (l : Label) : (control.instr l).Pays known owes (· = true) l := by
  cases l with
  | requestLoad | waitLoad | timedLoad | observeLoad | waitForLoad | expiredLoad =>
    rintro requested - (howes | hunset) hset
    · cases howes
    · exact absurd hset hunset
  | requestStore => intro _ _ _ _; rfl
  | requestUnlock result =>
    intro howes
    cases result with
    | false => cases howes
    | true => rfl
  | waitSleep | timedSleep => intro requested hunset; exact Bool.eq_false_iff.mp hunset
  | requestNotify => trivial
  | requestReturn | waitReturn | observeReturn | waitForReturn | timedReturn => rfl
  | _ => intro howes; cases howes

theorem runsDown : control.RunsDown known rank (· = true) 4 where
  entry := by
    intro op
    cases op with
    | waitFor timeout =>
      show rank (if timeout ≤ 0 then _ else _) ≤ 4
      split <;> simp [rank]
    | _ => simp [control, Calls.entry, rank]
  stable := by
    intro l f requested hinstr hset
    rcases access_cases hinstr with ⟨-, hstore⟩ | hkept
    · exact hstore requested
    · rw [hkept]
      exact hset
  falls := by
    intro l
    cases l with
    | requestStore | waitSleep | timedSleep =>
      rintro requested rfl hunset
      cases hunset
    | requestUnlock result => cases result <;> simp [control, Calls.instr, Instr.Falls, rank]
    | requestLoad | waitLoad | timedLoad | observeLoad | waitForLoad | expiredLoad =>
      rintro requested rfl -
      simp [rank]
    | requestReturn | waitReturn | observeReturn | waitForReturn | timedReturn =>
      exact Nat.one_pos
    | _ => simp [control, Calls.instr, Instr.Falls, rank]

/-! ## 4. Linearizability

The points of section 3 are all that the simulation needs.  In the run that follows, one thread is
told of a request before the thread that made it has returned. -/

section Runs

variable {ι : Type} [DecidableEq ι] {s s' : State ι Label Bool}
  {tr : List (Event ι Operation Reply)}

/-- **Every call takes effect in one step between its call and its return.**  What the callers see
of any number of threads in any order of their steps is what they would see of a source whose
calls are atomic. -/
theorem calls_linearizable (request : ExecutionRequestIdentity)
    (h : Run control.Step (State.initial false) tr s) :
    (source request).Linearizable (tr.filterMap Event.action) :=
  (points request).linearizable disciplined outline rfl h

end Runs

/-- Thread `false` waits up to five milliseconds; thread `true` sets the flag. -/
def stored : List (Event Bool Operation Reply) :=
  [.call false (.waitFor 5), .lock false, .access false, .sleep false,
    .call true .requestCancellation, .lock true, .access true, .access true]

/-- The deadline passes before thread `true` has notified: the flag is what counts. -/
def late : List (Event Bool Operation Reply) :=
  [.expire false, .unlock true, .lock false, .access false, .unlock false,
    .ret false (.waitedFor true)]

theorem late_run : ∃ s s', s.data = true ∧ Run control.Step (State.initial false) stored s ∧
    Run control.Step s late s' := by
  have hnil : Run control.Step (State.initial false : State Bool Label Bool) [] _ := Run.nil
  have hcalled := hnil.snoc (call_step (.waitFor 5) (t := false) rfl)
  have hlocked := hcalled.snoc (.lock (t := false) rfl rfl rfl)
  have hloaded := hlocked.snoc (.access (t := false) rfl rfl)
  have hasleep := hloaded.snoc (.sleep (t := false) rfl rfl rfl)
  have hrequested := hasleep.snoc (call_step .requestCancellation (t := true) rfl)
  have htaken := hrequested.snoc (.lock (t := true) rfl rfl rfl)
  have hfound := htaken.snoc (.access (t := true) rfl rfl)
  have hstored := hfound.snoc (.access (t := true) rfl rfl)
  have hrest : ∀ {tr s}, Run control.Step (State.initial false : State Bool Label Bool) tr s →
      Run control.Step s [] s := fun _ => .nil
  have hexpired := (hrest hstored).snoc (.expire (t := false) (.inl rfl))
  have hleft := hexpired.snoc (.unlock (t := true) rfl rfl rfl)
  have hback := hleft.snoc (.lock (t := false) rfl rfl rfl)
  have hseen := hback.snoc (.access (t := false) rfl rfl)
  have hdone := hseen.snoc (.unlock (t := false) rfl rfl rfl)
  have hlate := hdone.snoc (.ret (t := false) rfl rfl)
  exact ⟨_, _, rfl, hstored, hlate⟩

/-- Thread `true` has not returned, and its request has taken effect. -/
theorem calls_linearizable_late :
    ∃ s, Run control.Step (State.initial false) (stored ++ late) s ∧
      (source (Identity.ofDigest ⟨List.replicate 32 0, rfl⟩)).Linearizable
        [.call false (.waitFor 5), .call true .requestCancellation,
          .reply false (.waitedFor true)] := by
  obtain ⟨s, s', -, hstored, hlate⟩ := late_run
  exact ⟨s', hstored.append hlate, calls_linearizable _ (hstored.append hlate)⟩

/-! ## 5. What a caller sees

First of the source with atomic calls, where each statement is about one step; then of the threads,
by the rules for clients of an atomic object. -/

namespace Reply

/-- Cancellation has been requested when a call returns this. -/
def cancelled : Reply → Bool
  | .requested _ | .waited => true
  | .waitedFor seen | .observed seen => seen

/-- Cancellation had been requested before the call took effect. -/
def found : Reply → Bool
  | .requested transitioned => !transitioned
  | .waited => true
  | .waitedFor seen | .observed seen => seen

end Reply

section Source

variable {request : ExecutionRequestIdentity} {op : Operation} {r : Reply}
  {o o' : CancellationSource}

theorem source_cases (h : (source request).step op o r o') :
    (op = .requestCancellation ∧ o.requested = false ∧ r = .requested true ∧
        o'.requested = true) ∨
      (o' = o ∧ r.cancelled = o.requested ∧ r.found = o.requested) := by
  cases h with
  | requestCancellation =>
    cases hrequested : o.requested with
    | false =>
      left
      simp [CancellationSource.requestCancellation, hrequested]
    | true =>
      right
      simp [CancellationSource.requestCancellation, hrequested, Reply.cancelled, Reply.found]
  | wait hrequested => exact .inr ⟨rfl, hrequested.symm, hrequested.symm⟩
  | waitFor => exact .inr ⟨rfl, rfl, rfl⟩
  | cancellationRequested => exact .inr ⟨rfl, rfl, rfl⟩

/-- The flag of a source is never unset. -/
theorem source_stable : (source request).Stable (fun o => o.requested = true) := by
  intro op o r o' ho h
  rcases source_cases h with ⟨-, hunset, -, -⟩ | ⟨rfl, -, -⟩
  · exact absurd ho (by simp [hunset])
  · exact ho

theorem requested_of_cancelled (hr : r.cancelled = true) (h : (source request).step op o r o') :
    o'.requested = true := by
  rcases source_cases h with ⟨-, -, -, hset⟩ | ⟨rfl, hcancelled, -⟩
  · exact hset
  · rw [← hcancelled]
    exact hr

theorem found_of_requested (ho : o.requested = true) (h : (source request).step op o r o') :
    r.found = true := by
  rcases source_cases h with ⟨-, hunset, -, -⟩ | ⟨-, -, hfound⟩
  · exact absurd ho (by simp [hunset])
  · rw [hfound]
    exact ho

/-- The flag is set by `request_cancellation` alone. -/
theorem requested_origin (ho : ¬ o.requested = true) (h : (source request).step op o r o')
    (ho' : o'.requested = true) : op = .requestCancellation := by
  rcases source_cases h with ⟨hop, -, -, -⟩ | ⟨rfl, -, -⟩
  · exact hop
  · exact absurd ho' ho

/-- The call that says it made the transition has made it. -/
theorem requested_of_transition (h : (source request).step op o (.requested true) o') :
    ¬ o.requested = true ∧ o'.requested = true := by
  rcases source_cases h with ⟨-, hunset, -, hset⟩ | ⟨rfl, hcancelled, hfound⟩
  · exact ⟨by simp [hunset], hset⟩
  · rw [← hcancelled] at hfound
    exact absurd hfound (by simp [Reply.cancelled, Reply.found])

end Source

section Runs

variable {ι : Type} [DecidableEq ι] {s : State ι Label Bool}
  {tr pre post : List (Event ι Operation Reply)} {t u : ι} {op : Operation} {r r' : Reply}

omit [DecidableEq ι] in
theorem reply_mem_of_ret_mem (h : .ret t r ∈ tr) :
    .reply t r ∈ (tr.filterMap Event.action : List (Atomic.Action ι Operation Reply)) :=
  List.mem_filterMap.mpr ⟨.ret t r, h, rfl⟩

omit [DecidableEq ι] in
theorem filterMap_call : (.call t op :: tr : List (Event ι Operation Reply)).filterMap Event.action
    = .call t op :: tr.filterMap Event.action := rfl

omit [DecidableEq ι] in
theorem filterMap_ret : (.ret t r :: tr : List (Event ι Operation Reply)).filterMap Event.action
    = .reply t r :: tr.filterMap Event.action := rfl

/-- Whether an event is a return of `request_cancellation` that says it made the transition. -/
def transitions : Event ι Operation Reply → Bool
  | .ret _ r => r = .requested true
  | _ => false

/-- **Cancellation is seen by every later call, and by none before it was requested.**
When a call has returned that requested cancellation or saw it requested, then every call made
later finds it requested: `wait_for` and `cancellation_requested` return `true`,
`request_cancellation` returns `false`.  No call says so before `request_cancellation` was called,
and at most one says that it made the transition. -/
theorem cancellation_visible (h : Run control.Step (State.initial false) tr s) :
    (∀ pre post t u op r r', tr = pre ++ .call u op :: post → .ret t r ∈ pre →
        r.cancelled = true → .ret u r' ∈ post → r'.found = true) ∧
      (∀ pre post t r, tr = pre ++ .ret t r :: post → r.cancelled = true →
        ∃ u, .call u .requestCancellation ∈ pre) ∧
      tr.countP transitions ≤ 1 := by
  -- any request will do: the calls do not look at it
  let request : ExecutionRequestIdentity :=
    @Identity.ofDigest .executionRequest ⟨List.replicate 32 0, rfl⟩
  have hlin := (points request).linearizable disciplined outline rfl h
  refine ⟨?_, ?_, ?_⟩
  · rintro pre post t u op r r' rfl hr hcancelled hr'
    rw [List.filterMap_append, filterMap_call] at hlin
    obtain ⟨op', o, o', ho, hstep⟩ := hlin.replied_after source_stable
      (fun _ _ _ hstep => requested_of_cancelled hcancelled hstep)
      (reply_mem_of_ret_mem hr) (reply_mem_of_ret_mem hr')
    exact found_of_requested ho hstep
  · rintro pre post t r rfl hcancelled
    rw [List.filterMap_append, filterMap_ret] at hlin
    obtain ⟨u, hu⟩ := hlin.called_before source_stable (by simp [source])
      (fun _ _ _ _ => requested_origin)
      (fun _ _ _ hstep => requested_of_cancelled hcancelled hstep)
    obtain ⟨e, he, haction⟩ := List.mem_filterMap.mp hu
    refine ⟨u, ?_⟩
    cases e <;> cases haction
    exact he
  · have hcount : tr.countP transitions
        = (tr.filterMap Event.action).countP (Atomic.Action.replies (Reply.requested true)) := by
      rw [List.countP_filterMap]
      congr 1
      funext e
      cases e <;> rfl
    rw [hcount]
    exact hlin.replied_once source_stable (fun _ _ _ hstep => requested_of_transition hstep)

end Runs

/-- Somebody has called for what thread `false` was told. -/
theorem cancellation_visible_late :
    ∃ s, Run control.Step (State.initial false) (stored ++ late) s ∧
      (∃ u, .call u .requestCancellation ∈ stored ++ late.dropLast) ∧
      (stored ++ late).countP transitions ≤ 1 := by
  obtain ⟨s, s', -, hstored, hlate⟩ := late_run
  have hrun := hstored.append hlate
  obtain ⟨-, hbefore, honce⟩ := cancellation_visible hrun
  exact ⟨s', hrun, hbefore (stored ++ late.dropLast) [] false (.waitedFor true) rfl rfl, honce⟩

/-! ## 6. No call blocks another

A state in which no thread has a step of its own left is what a deadlock would be.  The owner of
the mutex always has a step, so the mutex is free; then whoever is about to take it has one too,
and the only threads left in a call are asleep. -/

section Runs

variable {ι : Type} [DecidableEq ι] {s : State ι Label Bool}
  {tr : List (Event ι Operation Reply)} {t : ι}

/-- Who sleeps is in `wait`, or in `wait_for` with a deadline. -/
theorem asleep_cases (h : Run control.Step (State.initial false) tr s) {woken : Label}
    {expired : Option Label}
    (ht : s.phase t = .asleep woken expired ∨ s.phase t = .notified woken expired) :
    (woken = .waitLock ∧ expired = none) ∨
      ∃ timeout, woken = .timedLock timeout ∧ expired = some (.expiredLock timeout) := by
  have hslept := slept_of_run h t
  have hinstr : ∃ l, control.instr l = .sleep woken expired := by
    rcases ht with ht | ht <;> rw [ht] at hslept <;> exact hslept
  obtain ⟨l, hl⟩ := hinstr
  cases l with
  | waitSleep =>
    cases hl
    exact .inl ⟨rfl, rfl⟩
  | timedSleep timeout =>
    cases hl
    exact .inr ⟨timeout, rfl, rfl⟩
  | _ => cases hl

theorem owner_of_stuck (h : Run control.Step (State.initial false) tr s)
    (hstuck : ¬ ∃ e s', e.own = true ∧ control.Step s e s') : s.owner = none := by
  have hx : Exclusive held s := Exclusive.of_run disciplined h
  have ha : Awaited owes (· = true) s := Awaited.of_run disciplined outline pays h
  exact (ha.quiet disciplined hx hstuck).1

theorem phase_of_stuck (h : Run control.Step (State.initial false) tr s)
    (hstuck : ¬ ∃ e s', e.own = true ∧ control.Step s e s') :
    s.phase t = .idle ∨ s.phase t = .asleep .waitLock none ∨
      ∃ timeout, s.phase t = .asleep (.timedLock timeout) (some (.expiredLock timeout)) := by
  have hx : Exclusive held s := Exclusive.of_run disciplined h
  have ha : Awaited owes (· = true) s := Awaited.of_run disciplined outline pays h
  obtain ⟨-, hphase, -⟩ := ha.quiet disciplined hx hstuck
  rcases hphase t with ht | ⟨woken, expired, ht⟩
  · exact .inl ht
  · right
    rcases asleep_cases h (.inl ht) with ⟨rfl, rfl⟩ | ⟨timeout, rfl, rfl⟩
    · exact .inl ht
    · exact .inr ⟨timeout, ht⟩

theorem idle_of_stuck (h : Run control.Step (State.initial false) tr s)
    (hstuck : ¬ ∃ e s', e.own = true ∧ control.Step s e s') (hset : s.data = true) :
    s.phase t = .idle := by
  have hx : Exclusive held s := Exclusive.of_run disciplined h
  have ha : Awaited owes (· = true) s := Awaited.of_run disciplined outline pays h
  exact (ha.quiet disciplined hx hstuck).2.2 hset t

/-- **The calls stand still only for want of a request.**  If no thread has a step to take, other
than to call, to wake up for no reason or to reach a deadline, then the mutex is free and every
thread is outside of a call or asleep; and if cancellation was requested, no thread is in a
call. -/
theorem control_quiet (h : Run control.Step (State.initial false) tr s)
    (hstuck : ¬ ∃ e s', e.own = true ∧ control.Step s e s') :
    s.owner = none ∧
      (∀ t, s.phase t = .idle ∨ s.phase t = .asleep .waitLock none ∨
        ∃ timeout, s.phase t = .asleep (.timedLock timeout) (some (.expiredLock timeout))) ∧
      (s.data = true → ∀ t, s.phase t = .idle) :=
  ⟨owner_of_stuck h hstuck, fun _ => phase_of_stuck h hstuck,
    fun hset _ => idle_of_stuck h hstuck hset⟩

end Runs

/-- Thread `false` waits, and nobody has requested cancellation. -/
theorem control_quiet_waiting :
    ∃ (tr : List (Event Bool Operation Reply)) (s : State Bool Label Bool),
      Run control.Step (State.initial false) tr s ∧
      (¬ ∃ e s', e.own = true ∧ control.Step s e s') ∧
      s.phase false = .asleep .waitLock none ∧ s.owner = none := by
  have hnil : Run control.Step (State.initial false : State Bool Label Bool) [] _ := Run.nil
  have hcalled := hnil.snoc (call_step .wait (t := false) rfl)
  have hlocked := hcalled.snoc (.lock (t := false) rfl rfl rfl)
  have hloaded := hlocked.snoc (.access (t := false) rfl rfl)
  have hrun := hloaded.snoc (.sleep (t := false) rfl rfl rfl)
  refine ⟨_, _, hrun, ?_⟩
  suffices hstuck : ¬ ∃ e s', e.own = true ∧ control.Step _ e s' from
    ⟨hstuck, rfl, (control_quiet hrun hstuck).1⟩
  refine not_own_of_quiet ?_
  intro t
  cases t with
  | false => exact .inr ⟨.waitLock, none, rfl⟩
  | true => exact .inl rfl

/-! ## 7. Every call returns

`rank` counts the steps a call may still take once the flag is set, and no step of another thread
makes it larger.  A sleeper is woken by a notification that is owed, so none is left behind. -/

section Runs

variable {ι : Type} [DecidableEq ι] {s : State ι Label Bool}
  {tr : List (Event ι Operation Reply)} {t : ι}

theorem rank_le (l : Label) : l.rank ≤ 4 := by
  cases l with
  | requestUnlock result => cases result <;> simp [rank]
  | _ => simp [rank]

theorem left_le (h : Run control.Step (State.initial false) tr s) :
    (s.phase t).left rank ≤ 5 := by
  cases hphase : s.phase t with
  | idle => exact Nat.zero_le _
  | running l => exact (rank_le l).trans (by decide)
  | asleep woken expired =>
    rcases asleep_cases h (.inl hphase) with ⟨rfl, rfl⟩ | ⟨timeout, rfl, rfl⟩ <;> rfl
  | notified woken expired =>
    rcases asleep_cases h (.inr hphase) with ⟨rfl, rfl⟩ | ⟨timeout, rfl, rfl⟩ <;> rfl

/-- **Once cancellation was requested, every call comes to an end.**  From then on, whatever the
other threads do, a thread takes at most five steps for the call it is in and four for each call
it makes; and when no thread has a step to take any more, every call has returned. -/
theorem control_calls_bounded {tr' : List (Event ι Operation Reply)} {s' : State ι Label Bool}
    (h : Run control.Step (State.initial false) tr s) (hset : s.data = true)
    (h' : Run control.Step s tr' s') :
    (∀ t, tr'.countP (Event.works t) ≤ 5 + 4 * tr'.countP (Event.calls t)) ∧
      ((¬ ∃ e s'', e.own = true ∧ control.Step s' e s'') → ∀ t, s'.phase t = .idle) := by
  have hx : Exclusive held s := Exclusive.of_run disciplined h
  have hi : Informed known s := outline.of_run disciplined h
  constructor
  · intro t
    have hworks := runsDown.works_le disciplined outline hx hi hset h' t
    have hleft := left_le (t := t) h
    omega
  · intro hstuck
    have hset' : s'.data = true :=
      h'.stable (P := fun s => s.data = true)
        (fun _ _ _ hset hstep => hstep.data runsDown hset) hset
    intro t
    exact idle_of_stuck (h.append h') hstuck hset'

end Runs

/-- Five steps for the call that thread `false` was in when the flag was set. -/
theorem control_calls_bounded_late :
    ∃ s s', Run control.Step (State.initial false) stored s ∧ s.data = true ∧
      Run control.Step s late s' ∧
      late.countP (Event.works false) ≤ 5 + 4 * late.countP (Event.calls false) := by
  obtain ⟨s, s', hset, hstored, hlate⟩ := late_run
  exact ⟨s, s', hstored, hset, hlate, (control_calls_bounded hstored hset hlate).1 false⟩

/-! ## 8. The threads of `ControlThreads`

Its phases are places of this code, except that a thread that was notified is at once about to
take the mutex back. -/

section Threads

variable {ι : Type} [DecidableEq ι] {s s' : Threads.State ι} {m : State ι Label Bool}
  {tr : List (Threads.Event ι)} {t : ι}

/-- The place of a phase, for a thread that is in a call and awake. -/
def label : Threads.Phase → Label
  | .requestLock => .requestLock
  | .requestLoad => .requestLoad
  | .requestStore => .requestStore
  | .requestUnlock result => .requestUnlock result
  | .requestNotify => .requestNotify
  | .requestReturn result => .requestReturn result
  | .waitLoad => .waitLoad
  | .waitSleep => .waitSleep
  | .waitUnlock => .waitUnlock
  | .waitReturn => .waitReturn
  | .idle | .waitLock | .asleep => .waitLock

/-- The same phase. -/
def Same : Threads.Phase → Phase Label → Prop
  | .idle, q => q = .idle
  | .asleep, q => q = .asleep .waitLock none
  | .waitLock, q => q = .running .waitLock ∨ q = .notified .waitLock none
  | p, q => q = .running (label p)

/-- What a caller sees. -/
def threadsAction : Threads.Event ι → Option (Atomic.Action ι Operation Reply)
  | .callRequest t => some (.call t .requestCancellation)
  | .callWait t => some (.call t .wait)
  | .returnRequest t result => some (.reply t (.requested result))
  | .returnWait t => some (.reply t .waited)
  | _ => none

/-- The same state. -/
structure Matches (s : Threads.State ι) (m : State ι Label Bool) : Prop where
  requested : m.data = s.requested
  owner : m.owner = s.owner
  phase : ∀ t, Same (s.phase t) (m.phase t)

/-- One thread moves in both. -/
theorem Matches.set {p : Threads.Phase} {q : Phase Label} {requested data : Bool}
    {owner owner' : Option ι} (h : Matches s m) (hdata : data = requested)
    (howner : owner' = owner) (hpq : Same p q) :
    Matches { s.move t p with requested := requested, owner := owner }
      { m.move t q with data := data, owner := owner' } := by
  refine ⟨hdata, howner, ?_⟩
  intro u
  show Same ((s.move t p).phase u) ((m.move t q).phase u)
  rw [Threads.State.move_phase, State.move_phase]
  split
  · exact hpq
  · exact h.phase u

omit [DecidableEq ι] in
theorem Matches.notify (h : Matches s m) : Matches s.wakeAll m.notify := by
  refine ⟨h.requested, h.owner, ?_⟩
  intro u
  have hu := h.phase u
  rw [Threads.State.wakeAll_phase]
  split
  · rename_i hphase
    rw [hphase] at hu
    have hm : m.phase u = .asleep .waitLock none := hu
    right
    simp [State.notify, hm]
  · rename_i hphase
    have hm : ∀ woken expired, m.phase u ≠ .asleep woken expired := by
      intro woken expired hm
      rw [hm] at hu
      cases hp : s.phase u with
      | asleep => exact hphase hp
      | waitLock =>
        rw [hp] at hu
        rcases hu with hu | hu <;> cases hu
      | _ =>
        rw [hp] at hu
        cases hu
    have hsame : m.notify.phase u = m.phase u := by
      simp only [State.notify]
    rw [hsame]
    exact hu

/-- **Each step of `ControlThreads` is one of this code**, after the end of the sleep of a thread
that was notified. -/
theorem step_matched {e : Threads.Event ι} (hx : Threads.Mutual s) (hm : Matches s m)
    (h : Threads.Step s e s') :
    ∃ tr' m', Run control.Step m tr' m' ∧ Matches s' m' ∧
      tr'.filterMap Event.action = (threadsAction e).toList := by
  have hphase : ∀ {t : ι} {p : Threads.Phase}, s.phase t = p → Same p (m.phase t) := by
    rintro t _ rfl
    exact hm.phase t
  have hown : ∀ {t : ι} {p : Threads.Phase}, s.phase t = p → p.holds = true →
      m.owner = some t := by
    rintro t _ rfl hp
    exact hm.owner.trans ((hx t).mp hp)
  have hdata := hm.requested
  have howner := hm.owner
  cases h with
  | callRequest at_phase =>
    exact ⟨_, _, Run.nil.snoc (call_step .requestCancellation (hphase at_phase)),
      hm.set hdata howner rfl, rfl⟩
  | requestLock at_phase free =>
    exact ⟨_, _, Run.nil.snoc (.lock (hphase at_phase) rfl (howner.trans free)),
      hm.set hdata rfl rfl, rfl⟩
  | requestLoad at_phase =>
    refine ⟨_, _, Run.nil.snoc (.access (hphase at_phase) rfl), hm.set hdata howner ?_, rfl⟩
    rw [hdata]
    split <;> rfl
  | requestStore at_phase =>
    exact ⟨_, _, Run.nil.snoc (.access (hphase at_phase) rfl), hm.set rfl howner rfl, rfl⟩
  | @requestUnlock t result at_phase =>
    refine ⟨_, _, Run.nil.snoc (.unlock (hphase at_phase) rfl (hown at_phase rfl)),
      hm.set hdata rfl ?_, rfl⟩
    cases result <;> rfl
  | requestNotify at_phase =>
    exact ⟨_, _, Run.nil.snoc (.notifyAll (hphase at_phase) rfl),
      hm.notify.set hdata howner rfl, rfl⟩
  | requestReturn at_phase =>
    exact ⟨_, _, Run.nil.snoc (.ret (hphase at_phase) rfl), hm.set hdata howner rfl, rfl⟩
  | callWait at_phase =>
    exact ⟨_, _, Run.nil.snoc (call_step .wait (hphase at_phase)),
      hm.set hdata howner (.inl rfl), rfl⟩
  | @waitLock t at_phase free =>
    rcases hphase at_phase with hrunning | hnotified
    · exact ⟨_, _, Run.nil.snoc (.lock hrunning rfl (howner.trans free)),
        hm.set hdata rfl rfl, rfl⟩
    · -- the sleep ends first
      have hresume : control.Step m (.resume t) (m.move t (.running .waitLock)) :=
        .resume hnotified
      have hresumed := Run.nil.snoc hresume
      have hrunning : (m.move t (.running .waitLock)).phase t = .running .waitLock := by
        rw [State.move_phase, if_pos rfl]
      have hlocked := hresumed.snoc (.lock hrunning rfl (howner.trans free))
      refine ⟨_, _, hlocked, ?_, rfl⟩
      have hmid : Matches s (m.move t (.running .waitLock)) := by
        refine ⟨hdata, howner, ?_⟩
        intro u
        rw [State.move_phase]
        split
        · rename_i hu
          rw [hu, at_phase]
          exact .inl rfl
        · exact hm.phase u
      exact hmid.set hdata rfl rfl
  | waitLoad at_phase =>
    refine ⟨_, _, Run.nil.snoc (.access (hphase at_phase) rfl), hm.set hdata howner ?_, rfl⟩
    rw [hdata]
    split <;> rfl
  | waitSleep at_phase =>
    exact ⟨_, _, Run.nil.snoc (.sleep (hphase at_phase) rfl (hown at_phase rfl)),
      hm.set hdata rfl rfl, rfl⟩
  | wake at_phase =>
    exact ⟨_, _, Run.nil.snoc (.wake (hphase at_phase)), hm.set hdata howner (.inl rfl), rfl⟩
  | waitUnlock at_phase =>
    exact ⟨_, _, Run.nil.snoc (.unlock (hphase at_phase) rfl (hown at_phase rfl)),
      hm.set hdata rfl rfl, rfl⟩
  | waitReturn at_phase =>
    exact ⟨_, _, Run.nil.snoc (.ret (hphase at_phase) rfl), hm.set hdata howner rfl, rfl⟩

/-- **Every run of `ControlThreads` is a run of this code**, with the same calls and returns. -/
theorem threads_run (h : Run Threads.Step Threads.State.initial tr s) :
    ∃ tr' m, Run control.Step (State.initial false) tr' m ∧ Matches s m ∧
      tr'.filterMap Event.action = tr.filterMap threadsAction := by
  have hstart : Matches (Threads.State.initial : Threads.State ι) (State.initial false) :=
    ⟨rfl, rfl, fun _ => rfl⟩
  refine h.simulate Matches hstart ?_
  intro tr s e s' m hrun hm hstep
  exact step_matched (Threads.Inv.of_run hrun).exclusive hm hstep

end Threads

end Pkgexec.Calls
