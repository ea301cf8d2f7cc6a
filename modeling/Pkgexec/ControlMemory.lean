/-
# The memory orders of a cancellation state

`ControlCalls` lets every access to the flag find the last value.  In `src/control.cpp` the flag
is atomic and its accesses are ordered: `request_cancellation` loads it relaxed, as it has the
mutex, and stores it releasing; all others load it acquiring.  Here is the same code over a
memory that takes no more than that as given, with locations of the clients beside the flag.  All
threads know the first values: a token comes to a thread from the one that made the source.

There a call may be told an old value, and so the calls that do not take the mutex are not
linearizable any more.  What a caller still gets:
* the calls that take the mutex behave as before (`locked_calls_linearizable`), the relaxed load
  included, and no notification is lost (`ordered_quiet`);
* whoever is told of the cancellation knows whatever the thread knew that asked for it
  (`cancellation_publishes`);
* a call that is made by a thread that knows of the cancellation finds it
  (`cancellation_remembered`).
-/
import Pkgexec.ControlCalls
import Pkgexec.Lib.Ordered

namespace Pkgexec.Ordered

open Transition Views Calls Calls.Label

/-! ## 1. The code

The instructions of `ControlCalls`, with the order at each access.  That nothing else was changed
is `plain_control`; that the orders are enough is `locks`, and it is here that a relaxed load
without the mutex would be refused. -/

/-- What each location holds: `none` is the flag, the others are the clients'. -/
abbrev Cells {D : Type} (A : D → Type) : Option D → Type
  | none => Bool
  | some y => A y

/-- At the beginning the flag is not set. -/
def cells {D : Type} {A : D → Type} (d : (y : D) → A y) : (y : Option D) → Cells A y
  | none => false
  | some y => d y

def ordered : Label → Views.Instr Label Bool Reply
  | .requestLock => .lock .requestLoad
  -- `memory_order_relaxed`
  | .requestLoad => .load false fun requested =>
      if requested = true then .requestUnlock false else .requestStore
  -- `memory_order_release`
  | .requestStore => .store true true (.requestUnlock true)
  | .requestUnlock result =>
      .unlock (if result = true then .requestNotify else .requestReturn false)
  | .requestNotify => .notifyAll (.requestReturn true)
  | .requestReturn result => .ret (.requested result)
  | .waitLock => .lock .waitLoad
  -- `memory_order_acquire`, here and below
  | .waitLoad => .load true fun requested =>
      if requested = true then .waitUnlock else .waitSleep
  | .waitSleep => .sleep .waitLock none
  | .waitUnlock => .unlock .waitReturn
  | .waitReturn => .ret .waited
  | .observeLoad => .load true .observeReturn
  | .observeReturn result => .ret (.observed result)
  | .waitForLoad _ => .load true .waitForReturn
  | .waitForReturn result => .ret (.waitedFor result)
  | .timedLock timeout => .lock (.timedLoad timeout)
  | .timedLoad timeout => .load true fun requested =>
      if requested = true then .timedUnlock true else .timedSleep timeout
  | .timedSleep timeout => .sleep (.timedLock timeout) (some (.expiredLock timeout))
  | .expiredLock timeout => .lock (.expiredLoad timeout)
  | .expiredLoad _ => .load true .timedUnlock
  | .timedUnlock result => .unlock (.timedReturn result)
  | .timedReturn result => .ret (.waitedFor result)

/-- The member functions, over the flag. -/
def control {D : Type} (A : D → Type) : Code Label (Cells A none) Operation Reply :=
  ⟨entry, ordered⟩

abbrev ControlEvent (ι D T : Type) : Type := Event ι Label Operation Reply (Option D) T

abbrev ControlState (ι T : Type) {D : Type} (A : D → Type) : Type :=
  State ι Label (Option D) T (Cells A)

section Code

variable {D : Type} {A : D → Type}

theorem plain_ordered (l : Label) : (ordered l).plain = Calls.instr l := by
  cases l <;> rfl

/-- Without the orders it is the code of `ControlCalls`. -/
theorem plain_control : (control A).plain = Calls.control := by
  show (⟨entry, fun l => (ordered l).plain⟩ : Monitor.Code Label Bool Operation Reply)
    = ⟨entry, Calls.instr⟩
  congr 1
  funext l
  exact plain_ordered l

theorem call_step {ι T : Type} [DecidableEq ι] [DecidableEq D] [LinearOrder T] [OrderBot T]
    {s : ControlState ι T A} {t : ι} (op : Operation)
    (h : s.threads.phase t = .idle) :
    (control A).Step s (.call t op (s.memory.view t))
      ⟨s.memory, s.threads.move t (.running ((control A).entry op))⟩ := .call h

/-- The places of the calls that do without the mutex. -/
def free : Label → Bool
  | .observeLoad | .observeReturn _ | .waitForLoad _ | .waitForReturn _ => true
  | _ => false

/-- **The accesses are ordered as they have to be**: relaxed only under the mutex. -/
theorem locks : (control A).Locks held free where
  disciplined := by
    rw [plain_control]
    exact disciplined
  instr := by
    intro l
    cases l with
    | observeLoad | waitForLoad => exact .inl ⟨rfl, rfl, fun _ => rfl⟩
    | requestLoad | waitLoad | timedLoad =>
      refine .inr ⟨rfl, rfl, ?_⟩
      intro requested
      cases requested <;> rfl
    | expiredLoad => exact .inr ⟨rfl, rfl, fun _ => rfl⟩
    | requestStore => exact ⟨rfl, rfl, rfl, rfl⟩
    | waitSleep => exact ⟨rfl, rfl, by simp⟩
    | timedSleep timeout => exact ⟨rfl, rfl, by simp [free]⟩
    | requestUnlock result => cases result <;> exact ⟨rfl, rfl⟩
    | requestReturn | waitReturn | observeReturn | waitForReturn | timedReturn => trivial
    | _ => exact ⟨rfl, rfl⟩

end Code

/-! ## 2. The calls that take the mutex

A client that watches only these calls cannot tell the memory from one with a single value for each
location.  The events of other calls are left out of what is compared. -/

section Runs

variable {ι D T : Type} {A : D → Type} [DecidableEq ι] [DecidableEq D] [LinearOrder T] [OrderBot T]
  {d : (y : D) → A y} {s : ControlState ι T A}
  {tr : List (ControlEvent ι D T)} {t u : ι}

/-- **The relaxed load does not show.**  What is seen of `request_cancellation`, `wait`, and
`wait_for` with a positive timeout, in any number of threads, is what would be seen of a source
whose calls are atomic; whatever else the threads load and store, and however it is ordered. -/
theorem locked_calls_linearizable (request : ExecutionRequestIdentity)
    (h : Run (control A).Step (State.initial (cells d)) tr s) :
    (source request).Linearizable (tr.filterMap (fun e => e.locked entry free)) := by
  obtain ⟨tr', a, hrun, -, hactions⟩ := locks.locked_run h
  rw [plain_control] at hrun
  have hlin := (points request).linearizable disciplined outline rfl hrun
  rw [hactions] at hlin
  exact hlin

end Runs

/-! ### The other calls

`cancellation_requested`, and `wait_for` without a timeout, load the flag and nothing else.
Nothing forces the load to find the last message. -/

/-- Two threads and one location of theirs. -/
abbrev PairRun := Run (control fun _ : Unit => ℕ).Step
  (State.initial (cells fun _ => 0) : ControlState Bool ℕ fun _ : Unit => ℕ)

/-- Thread `true` has requested cancellation; thread `false` is told the first value. -/
theorem stale_run : ∃ tr s, PairRun tr s ∧
    tr.filterMap (fun e => e.locked entry free) =
      [.call true .requestCancellation, .reply true (.requested true)] ∧
    tr.filterMap (fun e => e.locked entry fun _ => false) =
      [.call true .requestCancellation, .reply true (.requested true),
        .call false .cancellationRequested, .reply false (.observed false)] := by
  have hnil : PairRun [] _ := .nil
  have hcalled := hnil.snoc (call_step .requestCancellation (t := true) rfl)
  have hlocked := hcalled.snoc (.lock (t := true) rfl rfl rfl)
  have hloaded := hlocked.snoc (.load (t := true) (n := 0) rfl rfl (.found rfl (by decide)))
  have hstored := hloaded.snoc (.store (t := true) (n := 1) rfl rfl (.placed rfl (by decide)))
  have hleft := hstored.snoc (.unlock (t := true) rfl rfl rfl)
  have hnotified := hleft.snoc (.notifyAll (t := true) rfl rfl)
  have hrequested := hnotified.snoc (.ret (t := true) rfl rfl)
  have hasked := hrequested.snoc (call_step .cancellationRequested (t := false) rfl)
  have hstale := hasked.snoc (.load (t := false) (n := 0) rfl rfl (.found rfl (by decide)))
  have htold := hstale.snoc (.ret (t := false) rfl rfl)
  exact ⟨_, _, htold, rfl, rfl⟩

/-- What is seen of thread `true` alone. -/
theorem locked_calls_linearizable_stale :
    ∃ tr s, PairRun tr s ∧
      tr.filterMap (fun e => e.locked entry free) =
        [.call true .requestCancellation, .reply true (.requested true)] ∧
      (source (Identity.ofDigest ⟨List.replicate 32 0, rfl⟩)).Linearizable
        [.call true .requestCancellation, .reply true (.requested true)] := by
  obtain ⟨tr, s, hrun, hlocked, -⟩ := stale_run
  refine ⟨tr, s, hrun, hlocked, ?_⟩
  rw [← hlocked]
  exact locked_calls_linearizable _ hrun

/-- **Without the mutex a call may come late**: `request_cancellation` has returned, and a call of
`cancellation_requested` made after that still says no. -/
theorem free_calls_not_linearizable (request : ExecutionRequestIdentity) :
    ∃ tr s, PairRun tr s ∧
      ¬ (source request).Linearizable (tr.filterMap (fun e => e.locked entry fun _ => false)) := by
  obtain ⟨tr, s, hrun, -, hactions⟩ := stale_run
  refine ⟨tr, s, hrun, ?_⟩
  intro hlin
  rw [hactions] at hlin
  replace hlin : (source request).Linearizable
    ([.call true .requestCancellation, .reply true (.requested true)] ++
      .call false .cancellationRequested :: [.reply false (.observed false)]) := hlin
  have hcancelled : (Reply.requested true).cancelled = true := rfl
  obtain ⟨op, o, o', ho, hstep⟩ := hlin.replied_after source_stable
    (fun _ _ _ hstep => requested_of_cancelled hcancelled hstep) (.tail _ (.head _)) (.head _)
  have hfound := found_of_requested ho hstep
  cases hfound

/-! ## 3. The flag

Every message of the flag but the first says that it is set, so to be told of the cancellation is
to be past the first message.  A thread that was told stays past it, along the code. -/

/-- Only the first message of the flag says that it is not set. -/
def FlagSet {ι D T : Type} {A : D → Type} [Bot T] (m : Memory ι (Option D) T (Cells A)) : Prop :=
  ∀ n msg, m.messages none n = some msg → (msg.value = true ↔ n ≠ ⊥)

/-- Places of a call that was told that the flag is set, or has set it. -/
def told : Label → Bool
  | .requestUnlock _ | .requestNotify | .requestReturn _ | .waitUnlock | .waitReturn
  | .observeReturn true | .waitForReturn true | .timedUnlock true | .timedReturn true => true
  | _ => false

theorem store_cases {D : Type} {A : D → Type} {l next : Label} {release v : Bool}
    (h : (control A).instr l = .store release v next) :
    l = .requestStore ∧ release = true ∧ v = true ∧ next = .requestUnlock true := by
  cases l with
  | requestStore =>
    cases h
    exact ⟨rfl, rfl, rfl, rfl⟩
  | _ => cases h

theorem sleep_cases {D : Type} {A : D → Type} {l woken : Label} {expired : Option Label}
    (h : (control A).instr l = .sleep woken expired) :
    (woken = .waitLock ∧ expired = none) ∨
      ∃ timeout, woken = .timedLock timeout ∧ expired = some (.expiredLock timeout) := by
  cases l with
  | waitSleep =>
    cases h
    exact .inl ⟨rfl, rfl⟩
  | timedSleep timeout =>
    cases h
    exact .inr ⟨timeout, rfl, rfl⟩
  | _ => cases h

/-- The places of a thread that was told, along the code. -/
theorem told_passed {D : Type} {A : D → Type} {l next : Label}
    (h : (control A).instr l = .lock next ∨ (control A).instr l = .unlock next ∨
      (control A).instr l = .notifyAll next) (hnext : told next = true) : told l = true := by
  cases l with
  | requestUnlock | requestNotify | waitUnlock => rfl
  | timedUnlock result =>
    rcases h with h | h | h <;> cases h
    cases result with
    | true => rfl
    | false => cases hnext
  | requestLock | waitLock | timedLock | expiredLock =>
    rcases h with h | h | h <;> cases h
    cases hnext
  | _ => rcases h with h | h | h <;> cases h

theorem told_loaded {D : Type} {A : D → Type} {l : Label} {acquire v : Bool} {f : Bool → Label}
    (h : (control A).instr l = .load acquire f) (hnext : told (f v) = true) : v = true := by
  cases v with
  | true => rfl
  | false =>
    cases l with
    | requestLoad | waitLoad | timedLoad | expiredLoad | observeLoad | waitForLoad =>
      cases h
      cases hnext
    | _ => cases h

section Runs

variable {ι D T : Type} {A : D → Type} [DecidableEq ι] [DecidableEq D] [LinearOrder T] [OrderBot T]
  {d : (y : D) → A y} {s s' : ControlState ι T A}
  {e : ControlEvent ι D T}
  {tr : List (ControlEvent ι D T)} {t u : ι} {l : Label}

theorem flagSet_step (hf : FlagSet s.memory) (h : (control A).Step s e s') :
    FlagSet s'.memory := by
  intro n msg hmsg
  rcases h.message_cases hmsg with hold | ⟨t, l, release, next, -, instr, ahead, -⟩
  · exact hf n msg hold
  · obtain ⟨-, -, hvalue, -⟩ := store_cases instr
    exact ⟨fun _ => (bot_le.trans_lt ahead).ne', fun _ => hvalue⟩

theorem flagSet_of_run (h : Run (control A).Step (State.initial (cells d)) tr s) :
    FlagSet s.memory := by
  refine h.stable (P := fun s => FlagSet s.memory) (fun _ _ _ hf hstep => flagSet_step hf hstep) ?_
  intro n msg hmsg
  simp only [State.initial, Memory.initial] at hmsg
  split at hmsg
  · rename_i hn
    rw [← Option.some.inj hmsg]
    exact ⟨fun h => absurd h (by simp [cells]), fun h => absurd hn h⟩
  · cases hmsg

/-- **No notification is lost.**  If no thread has a step to take, other than to call, to wake up
for no reason, to reach a deadline or to use locations of its own, then the mutex is free and
every thread is outside of a call or asleep; and if the flag was stored, no thread is in a
call. -/
theorem ordered_quiet [NoMaxOrder T] (h : Run (control A).Step (State.initial (cells d)) tr s)
    (hstuck : ¬ ∃ e s', e.own = true ∧ (control A).Step s e s') :
    s.threads.owner = none ∧
      (∀ t, s.threads.phase t = .idle ∨ s.threads.phase t = .asleep .waitLock none ∨
        ∃ timeout, s.threads.phase t =
          .asleep (.timedLock timeout) (some (.expiredLock timeout))) ∧
      ((∃ n msg, s.memory.messages none n = some msg ∧ msg.value = true) →
        ∀ t, s.threads.phase t = .idle) := by
  obtain ⟨tr', a, hrun, hstill, howner, hphase, hlatest⟩ := locks.standing h hstuck
  rw [plain_control] at hrun hstill
  refine ⟨?_, ?_, ?_⟩
  · rw [← howner]
    exact owner_of_stuck hrun hstill
  · intro t
    rw [← hphase]
    exact phase_of_stuck hrun hstill
  · rintro ⟨n, msg, hmsg, hvalue⟩ t
    obtain ⟨k, last, hlast, hdata, hle⟩ := hlatest
    have hf := flagSet_of_run h
    have hn : n ≠ ⊥ := (hf n msg hmsg).mp hvalue
    have hset : a.data = true := by
      rw [← hdata]
      exact (hf k last hlast).mpr (ne_bot_of_le_ne_bot hn (hle n msg hmsg))
    rw [← hphase]
    exact idle_of_stuck hrun hstill hset

/-- Thread `false` waits, and nobody has requested cancellation. -/
theorem ordered_quiet_waiting :
    ∃ tr s, PairRun tr s ∧
      (¬ ∃ e s', e.own = true ∧ (control fun _ : Unit => ℕ).Step s e s') ∧
      s.threads.phase false = .asleep .waitLock none ∧ s.threads.owner = none := by
  have hnil : PairRun [] _ := .nil
  have hcalled := hnil.snoc (call_step .wait (t := false) rfl)
  have hlocked := hcalled.snoc (.lock (t := false) rfl rfl rfl)
  have hloaded := hlocked.snoc (.load (t := false) (n := 0) rfl rfl (.found rfl (by decide)))
  have hrun := hloaded.snoc (.sleep (t := false) rfl rfl rfl)
  refine ⟨_, _, hrun, ?_⟩
  suffices hstuck : ¬ ∃ e s', e.own = true ∧ (control fun _ : Unit => ℕ).Step _ e s' from
    ⟨hstuck, rfl, (ordered_quiet hrun hstuck).1⟩
  refine not_own_of_quiet ?_
  intro t
  cases t with
  | false => exact .inr ⟨.waitLock, none, rfl⟩
  | true => exact .inl rfl

/-- Who loads `true` is no longer at the beginning. -/
theorem ne_bot_of_load {m : Memory ι (Option D) T (Cells A)} {acquire : Bool} {n : T} {v : Bool}
    (hf : FlagSet s.memory) (h : s.memory.Loads t none acquire n v m) (hv : v = true) :
    m.view t none ≠ ⊥ := by
  obtain ⟨msg, hmsg, hvalue⟩ := h.message
  have hn : n ≠ ⊥ := (hf n msg hmsg).mp (hvalue.trans hv)
  exact ne_bot_of_le_ne_bot hn h.known

omit [DecidableEq ι] [DecidableEq D] in
/-- Who sleeps is in `wait`, or in `wait_for` with a deadline. -/
theorem asleep_cases {a : Monitor.State ι Label Bool} (ha : Behaves (control A) held free s a)
    {woken : Label} {expired : Option Label}
    (h : s.threads.phase u = .asleep woken expired ∨ s.threads.phase u = .notified woken expired) :
    (woken = .waitLock ∧ expired = none) ∨
      ∃ timeout, woken = .timedLock timeout ∧ expired = some (.expiredLock timeout) := by
  obtain ⟨l, hl⟩ : ∃ l, (control A).instr l = .sleep woken expired := by
    rcases h with hp | hp
    · exact (ha.sleeps (.inl rfl) hp).2
    · exact (ha.sleeps (.inr rfl) hp).2
  exact sleep_cases hl

/-- **Who was told knows that the flag is set.** -/
theorem told_step {a : Monitor.State ι Label Bool} (hf : FlagSet s.memory)
    (ha : Behaves (control A) held free s a) (h : (control A).Step s e s')
    (hs : ∀ l, s.threads.phase u = .running l → told l = true → s.memory.view u none ≠ ⊥) :
    ∀ l, s'.threads.phase u = .running l → told l = true → s'.memory.view u none ≠ ⊥ := by
  intro l hphase htold
  have hmono := h.view_le u none
  have harrives := h.arrives u
  rw [hphase] at harrives
  cases harrives with
  | stayed at_phase => exact ne_bot_of_le_ne_bot (hs l at_phase htold) hmono
  | @called op at_phase event =>
    cases op with
    | waitFor timeout =>
      replace htold : told (if timeout ≤ 0 then _ else _) = true := htold
      split at htold <;> cases htold
    | _ => cases htold
  | @passed l' next at_phase instr =>
    exact ne_bot_of_le_ne_bot (hs l' at_phase (told_passed instr htold)) hmono
  | loaded at_phase instr access => exact ne_bot_of_load hf access (told_loaded instr htold)
  | stored at_phase instr access =>
    exact ne_bot_of_le_ne_bot (bot_le.trans_lt access.ahead).ne' access.known
  | woken at_phase =>
    rcases asleep_cases ha at_phase with ⟨rfl, -⟩ | ⟨timeout, rfl, -⟩ <;> cases htold
  | expired at_phase =>
    rcases asleep_cases ha at_phase with ⟨-, hx⟩ | ⟨timeout, -, hx⟩ <;> cases hx
    cases htold

end Runs

/-! ## 4. What the flag carries

The releasing store puts what its thread knows into the message of the flag, and the flag is
synchronized: whoever has come to that message knows the same, by an acquiring load or by way of
the mutex.  `Published` says of the threads that have yet to store, of the message, and of the
places that were told, what is needed to put the two together. -/

section Runs

variable {ι D T : Type} {A : D → Type} [DecidableEq ι] [DecidableEq D] [LinearOrder T] [OrderBot T]
  {d : (y : D) → A y} {s s' : ControlState ι T A}
  {e : ControlEvent ι D T}
  {tr pre post : List (ControlEvent ι D T)} {t u : ι} {l : Label} {r : Reply}
  {W W' : View (Option D) T}

/-- Places of a call of `request_cancellation` that has not stored the flag. -/
def asks : Label → Bool
  | .requestLock | .requestLoad | .requestStore => true
  | _ => false

/-- Whoever knows as much as `W'` knows what a thread knew that called `request_cancellation`. -/
def Asked (tr : List (ControlEvent ι D T)) (W' : View (Option D) T) :
    Prop :=
  ∃ (pre post : List (ControlEvent ι D T)) (w : ι) (W : View (Option D) T),
    tr = pre ++ .call w .requestCancellation W :: post ∧ W ≤ W'

omit [DecidableEq ι] [DecidableEq D] [OrderBot T] in
theorem Asked.mono (h : Asked tr W) (hle : W ≤ W') : Asked (tr ++ [e]) W' := by
  obtain ⟨pre, post, w, W₀, rfl, hW⟩ := h
  refine ⟨pre, post ++ [e], w, W₀, ?_, hW.trans hle⟩
  rw [List.append_assoc, List.cons_append]

/-- **What the flag carries.** -/
structure Published (tr : List (ControlEvent ι D T))
    (s : ControlState ι T A) : Prop where
  asking : ∀ u l, s.threads.phase u = .running l → asks l = true → Asked tr (s.memory.view u)
  flag : ∀ n msg, s.memory.messages none n = some msg → n ≠ ⊥ → Asked tr msg.view
  told : ∀ u l, s.threads.phase u = .running l → told l = true → s.memory.view u none ≠ ⊥

theorem asking_step (hs : ∀ l, s.threads.phase u = .running l → asks l = true →
      Asked tr (s.memory.view u))
    {a : Monitor.State ι Label Bool} (ha : Behaves (control A) held free s a)
    (h : (control A).Step s e s') :
    ∀ l, s'.threads.phase u = .running l → asks l = true →
      Asked (tr ++ [e]) (s'.memory.view u) := by
  intro l hphase hasks
  have hmono := h.view_le u
  have harrives := h.arrives u
  rw [hphase] at harrives
  cases harrives with
  | stayed at_phase => exact (hs l at_phase hasks).mono hmono
  | @called op at_phase event =>
    subst event
    cases op with
    | requestCancellation => exact ⟨tr, [], u, _, rfl, hmono⟩
    | waitFor timeout =>
      replace hasks : asks (if timeout ≤ 0 then _ else _) = true := hasks
      split at hasks <;> cases hasks
    | wait | cancellationRequested => cases hasks
  | @passed l' next at_phase instr =>
    refine (hs l' at_phase ?_).mono hmono
    cases l' with
    | requestLock => rfl
    | requestUnlock result =>
      rcases instr with instr | instr | instr <;> cases instr
      cases result <;> cases hasks
    | _ => rcases instr with instr | instr | instr <;> cases instr <;> cases hasks
  | @loaded l' acquire f n v at_phase instr access =>
    refine (hs l' at_phase ?_).mono hmono
    cases l' with
    | requestLoad => rfl
    | waitLoad | timedLoad | expiredLoad | observeLoad | waitForLoad =>
      cases instr
      cases v <;> cases hasks
    | _ => cases instr
  | stored at_phase instr access =>
    obtain ⟨-, -, -, rfl⟩ := store_cases instr
    cases hasks
  | woken at_phase =>
    rcases asleep_cases ha at_phase with ⟨rfl, -⟩ | ⟨timeout, rfl, -⟩ <;> cases hasks
  | expired at_phase =>
    rcases asleep_cases ha at_phase with ⟨-, hx⟩ | ⟨timeout, -, hx⟩ <;> cases hx
    cases hasks

theorem published_step {a : Monitor.State ι Label Bool} (hf : FlagSet s.memory)
    (ha : Behaves (control A) held free s a) (hs : Published tr s)
    (h : (control A).Step s e s') : Published (tr ++ [e]) s' where
  asking := fun u => asking_step (hs.asking u) ha h
  flag := by
    intro n msg hmsg hn
    rcases h.message_cases hmsg with hold | ⟨t, l, release, next, at_phase, instr, -, hview⟩
    · exact (hs.flag n msg hold hn).mono le_rfl
    · -- the store releases what the thread knows
      obtain ⟨rfl, rfl, -, -⟩ := store_cases instr
      rw [hview, if_pos rfl]
      exact (hs.asking t _ at_phase rfl).mono le_sup_left
  told := fun u => told_step hf ha h (hs.told u)

theorem published_of_run (h : Run (control A).Step (State.initial (cells d)) tr s) :
    Published tr s := by
  induction h with
  | nil =>
    refine ⟨?_, ?_, ?_⟩
    · intro u l hphase
      cases hphase
    · intro n msg hmsg hn
      simp only [State.initial, Memory.initial] at hmsg
      rw [if_neg hn] at hmsg
      cases hmsg
    · intro u l hphase
      cases hphase
  | snoc hrun hnext ih =>
    obtain ⟨-, a, -, ha, -⟩ := locks.locked_run hrun
    exact published_step (flagSet_of_run hrun) ha ih hnext

omit [DecidableEq D] in
theorem told_of_ret (h : (control A).instr l = .ret r) (hr : r.cancelled = true) :
    told l = true := by
  cases l with
  | requestReturn | waitReturn => rfl
  | observeReturn result | waitForReturn result | timedReturn result =>
    cases h
    obtain rfl : result = true := hr
    rfl
  | _ => cases h

/-- Who is told of the cancellation is asked to. -/
theorem asked_of_told (h : Run (control A).Step (State.initial (cells d)) tr s)
    (hphase : s.threads.phase u = .running l) (htold : told l = true) :
    Asked tr (s.memory.view u) := by
  obtain ⟨-, a, -, ha, -⟩ := locks.locked_run h
  have hp := published_of_run h
  obtain ⟨msg, hmsg⟩ := (ha.synced.thread u).reached
  obtain ⟨pre, post, w, W, htrace, hW⟩ := hp.flag _ msg hmsg (hp.told u l hphase htold)
  exact ⟨pre, post, w, W, htrace, hW.trans ((ha.synced.thread u).passed _ msg hmsg le_rfl)⟩

/-- **The flag publishes.**  When a call of the thread `u` has returned that cancellation is
requested, then it had been requested: some thread `w` had called `request_cancellation`, and all
that `w` knew then, `u` knows now.  What `w` stored before that call is what `u` loads after its
return, or something newer. -/
theorem cancellation_publishes
    (h : Run (control A).Step (State.initial (cells d)) (pre ++ .ret u l r W' :: post) s)
    (hr : r.cancelled = true) :
    ∃ before after w W, pre = before ++ .call w .requestCancellation W :: after ∧ W ≤ W' ∧
      ∀ y n k, .clientStore w y n ∈ before → .clientLoad u y k ∈ post → n ≤ k := by
  obtain ⟨s₁, s₂, hpre, hstep, hpost⟩ := h.step_of_mem
  cases hstep with
  | ret at_phase instr =>
    obtain ⟨before, after, w, W, rfl, hW⟩ := asked_of_told hpre at_phase (told_of_ret instr hr)
    refine ⟨before, after, w, W, rfl, hW, ?_⟩
    intro y n k hstored hloaded
    obtain ⟨s₃, s₄, hbefore, hcall, -⟩ := hpre.step_of_mem
    have hbehind := le_loaded hpost hloaded
    cases hcall with
    | call at_phase' =>
      calc n ≤ s₃.memory.view w y := stored_le hbefore hstored
        _ ≤ s₁.memory.view u y := hW y
        _ ≤ k := hbehind

end Runs

/-- Thread `true` stores at the location and then the flag; thread `false` is told of the flag,
loads from the location, and asks again. -/
theorem told_run : ∃ (pre post : List (ControlEvent Bool Unit ℕ)) (s : ControlState Bool ℕ _)
    (W V W' : View (Option Unit) ℕ), W none ≤ V none ∧ .clientStore true (some ()) 1 ∈ pre ∧
      PairRun ((pre ++ [.ret false (.observeReturn true) (.observed true) W,
        .clientLoad false (some ()) 1]) ++ .call false (.waitFor 0) V ::
          (post ++ [.ret false (.waitForReturn true) (.waitedFor true) W'])) s := by
  have hnil : PairRun [] _ := .nil
  have hpage := hnil.snoc (.clientStore (t := true) (y := some ()) (n := 1) (v := (7 : ℕ)) rfl
    (by decide) (.placed rfl (by decide) : Memory.Stores _ _ _ false _ _ _))
  have hcalled := hpage.snoc (call_step .requestCancellation (t := true) rfl)
  have hlocked := hcalled.snoc (.lock (t := true) rfl rfl rfl)
  have hloaded := hlocked.snoc (.load (t := true) (n := 0) rfl rfl (.found rfl (by decide)))
  have hstored := hloaded.snoc (.store (t := true) (n := 1) rfl rfl (.placed rfl (by decide)))
  have hasked := hstored.snoc (call_step .cancellationRequested (t := false) rfl)
  have hfound := hasked.snoc (.load (t := false) (n := 1) rfl rfl (.found rfl (by decide)))
  have htold := hfound.snoc (.ret (t := false) rfl rfl)
  have hread := htold.snoc (.clientLoad (t := false) (y := some ()) (n := 1) rfl (by decide)
    (.found rfl (by decide) : Memory.Loads _ _ _ false _ _ _))
  have hagain := hread.snoc (call_step (.waitFor 0) (t := false) rfl)
  have hstill := hagain.snoc (.load (t := false) (n := 1) rfl rfl (.found rfl (by decide)))
  have hend := hstill.snoc (.ret (t := false) rfl rfl)
  simp only [List.cons_append, List.nil_append] at hend
  refine ⟨[_, _, _, _, _, _, _], [_], _, _, _, _, ?_, ?_, hend⟩
  · decide
  · simp

/-- What thread `false` has loaded is no older than what thread `true` had stored. -/
theorem cancellation_publishes_told :
    ∃ (pre post : List (ControlEvent Bool Unit ℕ)) (s : ControlState Bool ℕ _)
      (W' : View (Option Unit) ℕ),
      PairRun (pre ++ .ret false (.observeReturn true) (.observed true) W' :: post) s ∧
      (Reply.observed true).cancelled = true ∧ .clientStore true (some ()) 1 ∈ pre ∧
      .clientLoad false (some ()) 1 ∈ post ∧
      ∃ (before after : List (ControlEvent Bool Unit ℕ)) (w : Bool) (W : View (Option Unit) ℕ),
        pre = before ++ .call w .requestCancellation W :: after ∧ W ≤ W' := by
  obtain ⟨pre, post, s, W, V, W', -, hpage, hrun⟩ := told_run
  rw [List.append_assoc] at hrun
  obtain ⟨before, after, w, W₀, hpre, hW, -⟩ := cancellation_publishes hrun rfl
  exact ⟨pre, _, s, W, hrun, rfl, hpage, .head _, before, after, w, W₀, hpre, hW⟩

/-! ## 5. What is not forgotten

What a thread knows only grows.  A call that begins when its thread is past the first message of
the flag cannot load that one; `aware` follows such a call along the code. -/

section Runs

variable {ι D T : Type} {A : D → Type} [DecidableEq ι] [DecidableEq D] [LinearOrder T] [OrderBot T]
  {d : (y : D) → A y} {s s' : ControlState ι T A}
  {e : ControlEvent ι D T}
  {tr pre post : List (ControlEvent ι D T)} {t u : ι} {l l' : Label}
  {op : Operation} {r r' : Reply} {W W' V : View (Option D) T}

/-- Places of a call that began when its thread knew that the flag was set. -/
def aware : Label → Bool
  | .requestLock | .requestLoad | .requestUnlock false | .requestReturn false
  | .waitLock | .waitLoad | .waitUnlock | .waitReturn
  | .observeLoad | .observeReturn true | .waitForLoad _ | .waitForReturn true
  | .timedLock _ | .timedLoad _ | .timedUnlock true | .timedReturn true => true
  | _ => false

omit [DecidableEq D] in
theorem aware_entry (op : Operation) : aware ((control A).entry op) = true := by
  cases op with
  | waitFor timeout =>
    show aware (if timeout ≤ 0 then _ else _) = true
    split <;> rfl
  | _ => rfl

omit [DecidableEq D] in
theorem aware_passed {next : Label} (h : (control A).instr l = .lock next ∨
      (control A).instr l = .unlock next ∨ (control A).instr l = .notifyAll next)
    (haware : aware l = true) : aware next = true := by
  cases l with
  | requestUnlock result | timedUnlock result =>
    rcases h with h | h | h <;> cases h
    cases result <;> first | rfl | cases haware
  | requestLock | waitLock | timedLock | waitUnlock =>
    rcases h with h | h | h <;> cases h
    rfl
  | requestNotify | expiredLock => cases haware
  | _ => rcases h with h | h | h <;> cases h

omit [DecidableEq D] in
theorem aware_loaded {acquire : Bool} {f : Bool → Label}
    (h : (control A).instr l = .load acquire f) (haware : aware l = true) :
    aware (f true) = true := by
  cases l with
  | requestLoad | waitLoad | timedLoad | observeLoad | waitForLoad =>
    cases h
    rfl
  | expiredLoad => cases haware
  | _ => cases h

/-- In no call, or in one that began when its thread knew. -/
def Aware (s : ControlState ι T A) (u : ι) : Prop :=
  s.memory.view u none ≠ ⊥ ∧
    (s.threads.phase u = .idle ∨ ∃ l, s.threads.phase u = .running l ∧ aware l = true)

theorem aware_step (hf : FlagSet s.memory) (hs : Aware s u) (h : (control A).Step s e s') :
    Aware s' u := by
  obtain ⟨hknown, hat⟩ := hs
  refine ⟨ne_bot_of_le_ne_bot hknown (h.view_le u none), ?_⟩
  have hrunning : ∀ {l}, s.threads.phase u = .running l → aware l = true := by
    intro l hphase
    rcases hat with hidle | ⟨l', hphase', haware⟩
    · rw [hidle] at hphase
      cases hphase
    · rw [hphase'] at hphase
      cases hphase
      exact haware
  have harrives := h.arrives u
  generalize s'.threads.phase u = p at harrives
  cases harrives with
  | stayed at_phase =>
    rw [at_phase] at hat
    exact hat
  | @called op at_phase event => exact .inr ⟨_, rfl, aware_entry op⟩
  | @passed l next at_phase instr =>
    exact .inr ⟨next, rfl, aware_passed instr (hrunning at_phase)⟩
  | @loaded l acquire f n v at_phase instr access =>
    -- nothing is loaded any more but `true`
    obtain ⟨msg, hmsg, hvalue⟩ := access.message
    obtain rfl : v = true :=
      hvalue ▸ (hf n msg hmsg).mpr (ne_bot_of_le_ne_bot hknown access.ahead)
    exact .inr ⟨_, rfl, aware_loaded instr (hrunning at_phase)⟩
  | stored at_phase instr access =>
    obtain ⟨rfl, -, -, -⟩ := store_cases instr
    cases hrunning at_phase
  | @slept l woken expired at_phase instr =>
    have haware := hrunning at_phase
    cases l with
    | waitSleep | timedSleep => cases haware
    | _ => cases instr
  | notified at_phase =>
    rcases hat with hat | ⟨l, hat, -⟩ <;> rw [at_phase] at hat <;> cases hat
  | woken at_phase | expired at_phase =>
    rcases hat with hat | ⟨l, hat, -⟩ <;> rcases at_phase with hp | hp <;> rw [hp] at hat <;>
      cases hat
  | returned at_phase instr => exact .inl rfl

omit [DecidableEq D] in
theorem found_of_aware (h : (control A).instr l = .ret r) (haware : aware l = true) :
    r.found = true := by
  cases l with
  | waitReturn =>
    cases h
    rfl
  | requestReturn result | observeReturn result | waitForReturn result | timedReturn result =>
    cases h
    cases result <;> first | rfl | cases haware
  | _ => cases h

/-- **Cancellation is not forgotten.**  When a call has returned that cancellation is requested,
then no thread that knows as much of the flag is told otherwise: every call it makes from then on
finds cancellation requested, with the mutex or without. -/
theorem cancellation_remembered
    (h : Run (control A).Step (State.initial (cells d)) (pre ++ .call u op V :: post) s)
    (hret : .ret t l r W ∈ pre) (hr : r.cancelled = true) (hknows : W none ≤ V none)
    (hret' : .ret u l' r' W' ∈ post) : r'.found = true := by
  obtain ⟨s₁, s₂, hpre, hcall, hpost⟩ := h.step_of_mem
  have hW : W none ≠ ⊥ := by
    obtain ⟨before, after, rfl⟩ := List.append_of_mem hret
    obtain ⟨s₃, s₄, hbefore, hstep, -⟩ := hpre.step_of_mem
    cases hstep with
    | ret at_phase instr =>
      exact (published_of_run hbefore).told t l at_phase (told_of_ret instr hr)
  have haware : Aware s₂ u := by
    refine aware_step (flagSet_of_run hpre) ?_ hcall
    cases hcall with
    | call at_phase => exact ⟨ne_bot_of_le_ne_bot hW hknows, .inl at_phase⟩
  obtain ⟨before, after, rfl⟩ := List.append_of_mem hret'
  obtain ⟨s₃, s₄, hbefore, hstep, -⟩ := hpost.step_of_mem
  have hlater : FlagSet s₃.memory ∧ Aware s₃ u := by
    refine hbefore.stable (P := fun s => FlagSet s.memory ∧ Aware s u) ?_
      ⟨flagSet_step (flagSet_of_run hpre) hcall, haware⟩
    rintro s e s' ⟨hf, ha⟩ hnext
    exact ⟨flagSet_step hf hnext, aware_step hf ha hnext⟩
  cases hstep with
  | ret at_phase instr =>
    rcases hlater.2.2 with hidle | ⟨l, hphase, hl⟩
    · rw [hidle] at at_phase
      cases at_phase
    · rw [hphase] at at_phase
      cases at_phase
      exact found_of_aware instr hl

end Runs

/-- Thread `false` asked again, and was told the same. -/
theorem cancellation_remembered_told :
    ∃ (pre post : List (ControlEvent Bool Unit ℕ)) (s : ControlState Bool ℕ _)
      (W V W' : View (Option Unit) ℕ),
      PairRun (pre ++ .call false (.waitFor 0) V :: post) s ∧
      .ret false (.observeReturn true) (.observed true) W ∈ pre ∧
      (Reply.observed true).cancelled = true ∧ W none ≤ V none ∧
      .ret false (.waitForReturn true) (.waitedFor true) W' ∈ post ∧
      (Reply.waitedFor true).found = true := by
  obtain ⟨pre, post, s, W, V, W', hknows, -, hrun⟩ := told_run
  have htold : .ret false (.observeReturn true) (.observed true) W ∈
      pre ++ [.ret false (.observeReturn true) (.observed true) W,
        .clientLoad false (some ()) 1] := by simp
  have hagain : .ret false (.waitForReturn true) (.waitedFor true) W' ∈
      post ++ [.ret false (.waitForReturn true) (.waitedFor true) W'] := by simp
  exact ⟨_, _, s, W, V, W', hrun, htold, rfl, hknows, hagain,
    cancellation_remembered hrun htold rfl hknows hagain⟩

end Pkgexec.Ordered
