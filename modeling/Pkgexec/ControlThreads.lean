/-
# Cancelling and waiting, thread by thread

The mutex, the flag and the condition variable of `detail::cancellation_state` (`src/control.cpp`)
under any number of threads, each of which calls `request_cancellation` or
`cancellation_token::wait` over and over.  A step is one access to the shared state: taking or
leaving the mutex, a load, the store, going to sleep, waking up, the notification.  Between two
steps of a thread the others run, in any order.

`notify_all` comes after the mutex was left, so a thread may sleep although cancellation was
requested -- as long as the requesting thread has not notified.  It cannot miss the notification:
the store and the test that sends a thread to sleep are both made under the mutex
(`no_lost_wakeup`).
-/
import Pkgexec.Control
import Pkgexec.Lib.Transition
import Mathlib.Logic.Function.Basic

namespace Pkgexec.Threads

open Transition

/-! ## 1. Threads

A phase says what a thread does next.  `move`, `acquire` and `release` are what the steps do to the
phases and the mutex, so the invariants below have a lemma for each of the three; what is left for
the steps is the store, the sleep and the notification. -/

/-- Where a thread is in `request_cancellation` or in `wait`. -/
inductive Phase
  | idle
  /-- At the `std::lock_guard`. -/
  | requestLock
  | requestLoad
  | requestStore
  /-- At the end of the guarded block, with the value to return. -/
  | requestUnlock (result : Bool)
  | requestNotify
  | requestReturn (result : Bool)
  /-- At the `std::unique_lock`, or awake again and about to take the mutex back. -/
  | waitLock
  /-- About to evaluate the predicate. -/
  | waitLoad
  /-- The predicate was false. -/
  | waitSleep
  | asleep
  | waitUnlock
  | waitReturn
  deriving DecidableEq, Repr

/-- What a thread does. -/
inductive Event (ι : Type)
  | callRequest (t : ι)
  | callWait (t : ι)
  | lock (t : ι)
  | load (t : ι)
  | store (t : ι)
  | unlock (t : ι)
  | notifyAll (t : ι)
  | sleep (t : ι)
  | wake (t : ι)
  | returnRequest (t : ι) (result : Bool)
  | returnWait (t : ι)

/-- The shared state, and where every thread is. -/
structure State (ι : Type) where
  requested : Bool
  /-- The thread that has the mutex. -/
  owner : Option ι
  phase : ι → Phase

namespace State

variable {ι : Type}

/-- No thread has called anything. -/
def initial : State ι := ⟨false, none, fun _ => .idle⟩

/-- Every thread that is asleep wakes up. -/
def wakeAll (s : State ι) : State ι :=
  { s with phase := fun u => if s.phase u = .asleep then .waitLock else s.phase u }

@[simp] theorem wakeAll_requested {s : State ι} : s.wakeAll.requested = s.requested := rfl

@[simp] theorem wakeAll_owner {s : State ι} : s.wakeAll.owner = s.owner := rfl

@[simp] theorem wakeAll_phase {s : State ι} {u : ι} :
    s.wakeAll.phase u = if s.phase u = .asleep then .waitLock else s.phase u := rfl

variable [DecidableEq ι]

/-- The thread goes on to a phase, -/
def move (s : State ι) (t : ι) (p : Phase) : State ι :=
  { s with phase := Function.update s.phase t p }

/-- takes the mutex, -/
def acquire (s : State ι) (t : ι) (p : Phase) : State ι := { s.move t p with owner := some t }

/-- leaves it. -/
def release (s : State ι) (t : ι) (p : Phase) : State ι := { s.move t p with owner := none }

variable {s : State ι} {t u : ι} {p : Phase}

@[simp] theorem move_requested : (s.move t p).requested = s.requested := rfl

@[simp] theorem move_owner : (s.move t p).owner = s.owner := rfl

@[simp] theorem move_phase : (s.move t p).phase u = if u = t then p else s.phase u :=
  Function.update_apply _ _ _ _

@[simp] theorem acquire_requested : (s.acquire t p).requested = s.requested := rfl

@[simp] theorem acquire_owner : (s.acquire t p).owner = some t := rfl

@[simp] theorem acquire_phase : (s.acquire t p).phase u = if u = t then p else s.phase u :=
  move_phase

@[simp] theorem release_requested : (s.release t p).requested = s.requested := rfl

@[simp] theorem release_owner : (s.release t p).owner = none := rfl

@[simp] theorem release_phase : (s.release t p).phase u = if u = t then p else s.phase u :=
  move_phase

end State

variable {ι : Type} [DecidableEq ι]

/-- The steps of `request_cancellation` and of `wait`, which is
`while (!requested) changed.wait(lock);`. -/
inductive Step : State ι → Event ι → State ι → Prop
  | callRequest {s : State ι} {t : ι} (at_phase : s.phase t = .idle) :
      Step s (.callRequest t) (s.move t .requestLock)
  | requestLock {s : State ι} {t : ι} (at_phase : s.phase t = .requestLock)
      (free : s.owner = none) : Step s (.lock t) (s.acquire t .requestLoad)
  | requestLoad {s : State ι} {t : ι} (at_phase : s.phase t = .requestLoad) :
      Step s (.load t)
        (s.move t (if s.requested = true then .requestUnlock false else .requestStore))
  | requestStore {s : State ι} {t : ι} (at_phase : s.phase t = .requestStore) :
      Step s (.store t) { s.move t (.requestUnlock true) with requested := true }
  | requestUnlock {s : State ι} {t : ι} {result : Bool}
      (at_phase : s.phase t = .requestUnlock result) :
      Step s (.unlock t)
        (s.release t (if result = true then .requestNotify else .requestReturn false))
  | requestNotify {s : State ι} {t : ι} (at_phase : s.phase t = .requestNotify) :
      Step s (.notifyAll t) (s.wakeAll.move t (.requestReturn true))
  | requestReturn {s : State ι} {t : ι} {result : Bool}
      (at_phase : s.phase t = .requestReturn result) :
      Step s (.returnRequest t result) (s.move t .idle)
  | callWait {s : State ι} {t : ι} (at_phase : s.phase t = .idle) :
      Step s (.callWait t) (s.move t .waitLock)
  | waitLock {s : State ι} {t : ι} (at_phase : s.phase t = .waitLock) (free : s.owner = none) :
      Step s (.lock t) (s.acquire t .waitLoad)
  | waitLoad {s : State ι} {t : ι} (at_phase : s.phase t = .waitLoad) :
      Step s (.load t) (s.move t (if s.requested = true then .waitUnlock else .waitSleep))
  /-- Leaving the mutex and going to sleep are one step. -/
  | waitSleep {s : State ι} {t : ι} (at_phase : s.phase t = .waitSleep) :
      Step s (.sleep t) (s.release t .asleep)
  /-- A sleeping thread may wake up without a notification. -/
  | wake {s : State ι} {t : ι} (at_phase : s.phase t = .asleep) :
      Step s (.wake t) (s.move t .waitLock)
  | waitUnlock {s : State ι} {t : ι} (at_phase : s.phase t = .waitUnlock) :
      Step s (.unlock t) (s.release t .waitReturn)
  | waitReturn {s : State ι} {t : ι} (at_phase : s.phase t = .waitReturn) :
      Step s (.returnWait t) (s.move t .idle)

/-! ## 2. What a phase says

The invariants do not speak of single phases but of these five kinds, and a step matters to an
invariant only when it takes a thread from one kind to another. -/

namespace Phase

/-- The thread has the mutex. -/
def holds : Phase → Bool
  | requestLoad | requestStore | requestUnlock _ | waitLoad | waitSleep | waitUnlock => true
  | _ => false

/-- The thread has seen the flag unset and has kept the mutex since. -/
def sawUnset : Phase → Bool
  | requestStore | waitSleep => true
  | _ => false

/-- The thread has seen the flag set, or has set it. -/
def sawSet : Phase → Bool
  | requestUnlock _ | requestNotify | requestReturn _ | waitUnlock | waitReturn => true
  | _ => false

/-- The call has set the flag and not returned. -/
def transitioned : Phase → Bool
  | requestUnlock true | requestNotify | requestReturn true => true
  | _ => false

/-- The call is between its store and its `notify_all`. -/
def beforeNotify : Phase → Bool
  | requestUnlock true | requestNotify => true
  | _ => false

theorem transitioned_of_beforeNotify {p : Phase} (h : p.beforeNotify = true) :
    p.transitioned = true := by
  unfold beforeNotify at h
  split at h
  · rfl
  · rfl
  · exact absurd h (by simp)

theorem holds_of_sawUnset {p : Phase} (h : p.sawUnset = true) : p.holds = true := by
  unfold sawUnset at h
  split at h
  · rfl
  · rfl
  · exact absurd h (by simp)

end Phase

/-! ## 3. The mutex

To take the mutex a step asks that nobody has it; no other step asks who does.  That the accesses
under it, and leaving it, are the owner's is the invariant; what it says of two threads is
`Mutual.eq`. -/

section Mutex

variable {s s' : State ι} {e : Event ι} {t : ι} {p : Phase}

/-- **The mutex belongs to the thread that is between taking and leaving it.** -/
def Mutual (s : State ι) : Prop := ∀ t, (s.phase t).holds = true ↔ s.owner = some t

theorem Mutual.move (h : Mutual s) (hp : p.holds = (s.phase t).holds) : Mutual (s.move t p) := by
  intro u
  rw [State.move_phase, State.move_owner, ← h u]
  split
  · rename_i hu
    rw [hp, hu]
  · exact Iff.rfl

theorem Mutual.acquire (h : Mutual s) (free : s.owner = none) (hp : p.holds = true) :
    Mutual (s.acquire t p) := by
  intro u
  rw [State.acquire_phase, State.acquire_owner]
  by_cases hu : u = t
  · rw [if_pos hu, hp, hu]
    simp
  · rw [if_neg hu, h u, free]
    simp [Ne.symm hu]

theorem Mutual.release (h : Mutual s) (held : (s.phase t).holds = true) (hp : p.holds = false) :
    Mutual (s.release t p) := by
  intro u
  rw [State.release_phase, State.release_owner]
  by_cases hu : u = t
  · rw [if_pos hu, hp]
    simp
  · rw [if_neg hu, h u, (h t).mp held]
    simp [Ne.symm hu]

omit [DecidableEq ι] in
theorem Mutual.wakeAll (h : Mutual s) : Mutual s.wakeAll := by
  intro u
  rw [State.wakeAll_phase, State.wakeAll_owner, ← h u]
  split
  · rename_i hu
    rw [hu]
    exact Iff.rfl
  · exact Iff.rfl

omit [DecidableEq ι] in
/-- Two threads never have the mutex. -/
theorem Mutual.eq (h : Mutual s) {u : ι} (ht : (s.phase t).holds = true)
    (hu : (s.phase u).holds = true) : t = u := by
  have howner := ((h t).mp ht).symm.trans ((h u).mp hu)
  exact Option.some.inj howner

theorem Step.exclusive (h : Step s e s') (hi : Mutual s) : Mutual s' := by
  cases h with
  | callRequest at_phase => exact hi.move (by rw [at_phase]; rfl)
  | requestLock at_phase free => exact hi.acquire free rfl
  | requestLoad at_phase => exact hi.move (by rw [at_phase]; split <;> rfl)
  | requestStore at_phase => exact hi.move (by rw [at_phase]; rfl)
  | requestUnlock at_phase => exact hi.release (by rw [at_phase]; rfl) (by split <;> rfl)
  | requestNotify at_phase => exact hi.wakeAll.move (by simp [at_phase, Phase.holds])
  | requestReturn at_phase => exact hi.move (by rw [at_phase]; rfl)
  | callWait at_phase => exact hi.move (by rw [at_phase]; rfl)
  | waitLock at_phase free => exact hi.acquire free rfl
  | waitLoad at_phase => exact hi.move (by rw [at_phase]; split <;> rfl)
  | waitSleep at_phase => exact hi.release (by rw [at_phase]; rfl) rfl
  | wake at_phase => exact hi.move (by rw [at_phase]; rfl)
  | waitUnlock at_phase => exact hi.release (by rw [at_phase]; rfl) rfl
  | waitReturn at_phase => exact hi.move (by rw [at_phase]; rfl)

end Mutex

/-! ## 4. The flag

A thread that has loaded the flag acts on the value a few steps later.  What it acts on is still
true: the flag is never unset, and only a thread with the mutex sets it. -/

section Flag

variable {s s' : State ι} {e : Event ι} {t : ι} {p : Phase}

/-- **What a thread has seen of the flag still holds**: unset as long as it has the mutex, set
for ever. -/
structure Seen (s : State ι) : Prop where
  unset : ∀ t, (s.phase t).sawUnset = true → s.requested = false
  set : ∀ t, (s.phase t).sawSet = true → s.requested = true

theorem Seen.move (h : Seen s) (hunset : p.sawUnset = true → s.requested = false)
    (hset : p.sawSet = true → s.requested = true) : Seen (s.move t p) := by
  constructor
  · intro u hu
    rw [State.move_phase] at hu
    split at hu
    · exact hunset hu
    · exact h.unset u hu
  · intro u hu
    rw [State.move_phase] at hu
    split at hu
    · exact hset hu
    · exact h.set u hu

theorem Seen.acquire (h : Seen s) (hunset : p.sawUnset = true → s.requested = false)
    (hset : p.sawSet = true → s.requested = true) : Seen (s.acquire t p) := by
  have hmove : Seen (s.move t p) := h.move hunset hset
  exact ⟨hmove.unset, hmove.set⟩

theorem Seen.release (h : Seen s) (hunset : p.sawUnset = true → s.requested = false)
    (hset : p.sawSet = true → s.requested = true) : Seen (s.release t p) := by
  have hmove : Seen (s.move t p) := h.move hunset hset
  exact ⟨hmove.unset, hmove.set⟩

omit [DecidableEq ι] in
theorem Seen.wakeAll (h : Seen s) : Seen s.wakeAll := by
  constructor
  · intro u hu
    rw [State.wakeAll_phase] at hu
    split at hu
    · exact absurd hu (by simp [Phase.sawUnset])
    · exact h.unset u hu
  · intro u hu
    rw [State.wakeAll_phase] at hu
    split at hu
    · exact absurd hu (by simp [Phase.sawSet])
    · exact h.set u hu

/-- The store is made under the mutex, so no other thread has just seen the flag unset. -/
theorem Seen.store (hm : Mutual s) (at_phase : s.phase t = .requestStore) :
    Seen { s.move t (.requestUnlock true) with requested := true } := by
  constructor
  · intro u hu
    have hphase : ((s.move t (.requestUnlock true)).phase u).sawUnset = true := hu
    rw [State.move_phase] at hphase
    split at hphase
    · exact absurd hphase (by simp [Phase.sawUnset])
    · rename_i hne
      have ht : (s.phase t).holds = true := by
        rw [at_phase]
        rfl
      exact absurd (hm.eq (Phase.holds_of_sawUnset hphase) ht) hne
  · intro u _
    rfl

theorem Step.seen (h : Step s e s') (hm : Mutual s) (hi : Seen s) : Seen s' := by
  cases h with
  | callRequest at_phase => exact hi.move (by simp [Phase.sawUnset]) (by simp [Phase.sawSet])
  | requestLock at_phase free =>
    exact hi.acquire (by simp [Phase.sawUnset]) (by simp [Phase.sawSet])
  | requestLoad at_phase =>
    refine hi.move ?_ ?_ <;> split <;> simp_all [Phase.sawUnset, Phase.sawSet]
  | requestStore at_phase => exact Seen.store hm at_phase
  | @requestUnlock t result at_phase =>
    have hset : s.requested = true := hi.set t (by rw [at_phase]; rfl)
    refine hi.release ?_ (fun _ => hset)
    cases result <;> simp [Phase.sawUnset]
  | @requestNotify t at_phase =>
    have hset : s.requested = true := hi.set t (by rw [at_phase]; rfl)
    exact hi.wakeAll.move (by simp [Phase.sawUnset]) (fun _ => hset)
  | requestReturn at_phase => exact hi.move (by simp [Phase.sawUnset]) (by simp [Phase.sawSet])
  | callWait at_phase => exact hi.move (by simp [Phase.sawUnset]) (by simp [Phase.sawSet])
  | waitLock at_phase free => exact hi.acquire (by simp [Phase.sawUnset]) (by simp [Phase.sawSet])
  | waitLoad at_phase =>
    refine hi.move ?_ ?_ <;> split <;> simp_all [Phase.sawUnset, Phase.sawSet]
  | waitSleep at_phase => exact hi.release (by simp [Phase.sawUnset]) (by simp [Phase.sawSet])
  | wake at_phase => exact hi.move (by simp [Phase.sawUnset]) (by simp [Phase.sawSet])
  | @waitUnlock t at_phase =>
    have hset : s.requested = true := hi.set t (by rw [at_phase]; rfl)
    exact hi.release (by simp [Phase.sawUnset]) (fun _ => hset)
  | waitReturn at_phase => exact hi.move (by simp [Phase.sawUnset]) (by simp [Phase.sawSet])

end Flag

/-! ## 5. The call that makes the transition

`request_cancellation` returns `true` to one caller.  Between the store and the return that caller
is on its way, which is why what is counted is not the returns alone. -/

section Once

variable {s s' : State ι} {e : Event ι} {t : ι} {p : Phase} {n : Nat}

/-- A call of `request_cancellation` returns `true`. -/
def Event.isTransition : Event ι → Bool
  | returnRequest _ true => true
  | _ => false

/-- **One call sets the flag**: after `n` calls have returned `true`, at most one more thread is
on its way to do so, and the flag is set exactly when there is one or has been one. -/
def Once (n : Nat) (s : State ι) : Prop :=
  ∃ writer : Option ι, (∀ t, (s.phase t).transitioned = true ↔ writer = some t) ∧
    n + (if writer.isSome = true then 1 else 0) = if s.requested = true then 1 else 0

theorem Once.move (h : Once n s) (hp : p.transitioned = (s.phase t).transitioned) :
    Once n (s.move t p) := by
  obtain ⟨writer, hwriter, hcount⟩ := h
  refine ⟨writer, ?_, hcount⟩
  intro u
  rw [State.move_phase, ← hwriter u]
  split
  · rename_i hu
    rw [hp, hu]
  · exact Iff.rfl

theorem Once.acquire (h : Once n s) (hp : p.transitioned = (s.phase t).transitioned) :
    Once n (s.acquire t p) := h.move hp

theorem Once.release (h : Once n s) (hp : p.transitioned = (s.phase t).transitioned) :
    Once n (s.release t p) := h.move hp

omit [DecidableEq ι] in
theorem Once.wakeAll (h : Once n s) : Once n s.wakeAll := by
  obtain ⟨writer, hwriter, hcount⟩ := h
  refine ⟨writer, ?_, hcount⟩
  intro u
  rw [State.wakeAll_phase, ← hwriter u]
  split
  · rename_i hu
    rw [hu]
    exact Iff.rfl
  · exact Iff.rfl

/-- The store: nobody was on the way, or the flag would have been set. -/
theorem Once.store (h : Once n s) (hs : Seen s) (at_phase : s.phase t = .requestStore) :
    Once n { s.move t (.requestUnlock true) with requested := true } := by
  obtain ⟨writer, hwriter, hcount⟩ := h
  have hunset : s.requested = false := hs.unset t (by rw [at_phase]; rfl)
  rw [hunset] at hcount
  have hnone : writer = none := by
    cases writer with
    | none => rfl
    | some w => simp at hcount
  subst hnone
  refine ⟨some t, ?_, ?_⟩
  · intro u
    have hphase : ∀ u, (s.phase u).transitioned = false := by
      intro u
      have hu := hwriter u
      simpa using hu
    show ((s.move t (.requestUnlock true)).phase u).transitioned = true ↔ some t = some u
    rw [State.move_phase]
    by_cases hu : u = t
    · rw [if_pos hu, hu]
      exact ⟨fun _ => rfl, fun _ => rfl⟩
    · rw [if_neg hu, hphase u]
      simp [Ne.symm hu]
  · simpa using hcount

/-- The return: the thread that was on its way has arrived. -/
theorem Once.arrive (h : Once n s) (at_phase : s.phase t = .requestReturn true) :
    Once (n + 1) (s.move t .idle) := by
  obtain ⟨writer, hwriter, hcount⟩ := h
  have ht : writer = some t := (hwriter t).mp (by rw [at_phase]; rfl)
  subst ht
  refine ⟨none, ?_, ?_⟩
  · intro u
    rw [State.move_phase]
    by_cases hu : u = t
    · rw [if_pos hu]
      simp [Phase.transitioned]
    · rw [if_neg hu, hwriter u]
      simp [Ne.symm hu]
  · rw [State.move_requested]
    exact hcount

theorem Step.once (h : Step s e s') (hs : Seen s) (hi : Once n s) :
    Once (n + if e.isTransition = true then 1 else 0) s' := by
  cases h with
  | callRequest at_phase => exact hi.move (by rw [at_phase]; rfl)
  | requestLock at_phase free => exact hi.acquire (by rw [at_phase]; rfl)
  | requestLoad at_phase => exact hi.move (by rw [at_phase]; split <;> rfl)
  | requestStore at_phase => exact hi.store hs at_phase
  | @requestUnlock t result at_phase =>
    exact hi.release (by rw [at_phase]; cases result <;> rfl)
  | requestNotify at_phase => exact hi.wakeAll.move (by simp [at_phase, Phase.transitioned])
  | @requestReturn t result at_phase =>
    cases result with
    | false => exact hi.move (by rw [at_phase]; rfl)
    | true => exact hi.arrive at_phase
  | callWait at_phase => exact hi.move (by rw [at_phase]; rfl)
  | waitLock at_phase free => exact hi.acquire (by rw [at_phase]; rfl)
  | waitLoad at_phase => exact hi.move (by rw [at_phase]; split <;> rfl)
  | waitSleep at_phase => exact hi.release (by rw [at_phase]; rfl)
  | wake at_phase => exact hi.move (by rw [at_phase]; rfl)
  | waitUnlock at_phase => exact hi.release (by rw [at_phase]; rfl)
  | waitReturn at_phase => exact hi.move (by rw [at_phase]; rfl)

end Once

/-! ## 6. Sleepers

The notification is made without the mutex, so a thread may sleep although the flag is set.  The
first invariant says that somebody is then about to notify; the second, that this is over for good
after the notification, as there is no second store to wait for. -/

section Sleepers

variable {s s' : State ι} {e : Event ι} {t : ι} {p : Phase} {n : Nat}

/-- **Who sleeps although the flag is set is about to be notified.** -/
def Awake (s : State ι) : Prop :=
  s.requested = true → ∀ t, s.phase t = .asleep → ∃ u, (s.phase u).beforeNotify = true

/-- A thread that neither goes to sleep nor forgets to notify. -/
theorem Awake.move (h : Awake s) (hp : p ≠ .asleep)
    (hnotify : (s.phase t).beforeNotify = true → p.beforeNotify = true) :
    Awake (s.move t p) := by
  intro hrequested u hu
  rw [State.move_phase] at hu
  split at hu
  · exact absurd hu hp
  · obtain ⟨w, hw⟩ := h hrequested u hu
    refine ⟨w, ?_⟩
    rw [State.move_phase]
    split
    · rename_i hwt
      exact hnotify (hwt ▸ hw)
    · exact hw

theorem Awake.acquire (h : Awake s) (hp : p ≠ .asleep)
    (hnotify : (s.phase t).beforeNotify = true → p.beforeNotify = true) :
    Awake (s.acquire t p) := h.move hp hnotify

theorem Awake.release (h : Awake s) (hp : p ≠ .asleep)
    (hnotify : (s.phase t).beforeNotify = true → p.beforeNotify = true) :
    Awake (s.release t p) := h.move hp hnotify

/-- The one that stores is the one that will notify. -/
theorem Awake.store : Awake { s.move t (.requestUnlock true) with requested := true } := by
  intro _ _ _
  refine ⟨t, ?_⟩
  show ((s.move t (.requestUnlock true)).phase t).beforeNotify = true
  rw [State.move_phase, if_pos rfl]
  rfl

/-- Who goes to sleep has seen the flag unset, and it still is. -/
theorem Awake.sleep (hs : Seen s) (at_phase : s.phase t = .waitSleep) :
    Awake (s.release t .asleep) := by
  intro hrequested
  have hunset : s.requested = false := hs.unset t (by rw [at_phase]; rfl)
  exact absurd hrequested (by simp [hunset])

/-- After the notification nobody sleeps. -/
theorem notified_phase_ne_asleep {u : ι} :
    (s.wakeAll.move t (.requestReturn true)).phase u ≠ .asleep := by
  rw [State.move_phase]
  split
  · exact fun h => Phase.noConfusion h
  · rw [State.wakeAll_phase]
    split
    · exact fun h => Phase.noConfusion h
    · assumption

theorem Step.awake (h : Step s e s') (hs : Seen s) (hi : Awake s) : Awake s' := by
  cases h with
  | callRequest at_phase => exact hi.move (by simp) (by simp [at_phase, Phase.beforeNotify])
  | requestLock at_phase free =>
    exact hi.acquire (by simp) (by simp [at_phase, Phase.beforeNotify])
  | requestLoad at_phase =>
    exact hi.move (by split <;> simp) (by simp [at_phase, Phase.beforeNotify])
  | requestStore at_phase => exact Awake.store
  | @requestUnlock t result at_phase =>
    cases result with
    | false => exact hi.release (by simp) (by simp [at_phase, Phase.beforeNotify])
    | true => exact hi.release (by simp) (fun _ => rfl)
  | requestNotify at_phase =>
    intro _ u hu
    exact absurd hu notified_phase_ne_asleep
  | @requestReturn t result at_phase =>
    exact hi.move (by simp) (by cases result <;> simp [at_phase, Phase.beforeNotify])
  | callWait at_phase => exact hi.move (by simp) (by simp [at_phase, Phase.beforeNotify])
  | waitLock at_phase free =>
    exact hi.acquire (by simp) (by simp [at_phase, Phase.beforeNotify])
  | waitLoad at_phase =>
    exact hi.move (by split <;> simp) (by simp [at_phase, Phase.beforeNotify])
  | waitSleep at_phase => exact Awake.sleep hs at_phase
  | wake at_phase => exact hi.move (by simp) (by simp [at_phase, Phase.beforeNotify])
  | waitUnlock at_phase => exact hi.release (by simp) (by simp [at_phase, Phase.beforeNotify])
  | waitReturn at_phase => exact hi.move (by simp) (by simp [at_phase, Phase.beforeNotify])

/-- The flag is set, and the notification is over. -/
structure Settled (s : State ι) : Prop where
  requested : s.requested = true
  notified : ∀ t, (s.phase t).beforeNotify = false

omit [DecidableEq ι] in
/-- Then nobody sleeps. -/
theorem Settled.phase_ne_asleep (h : Settled s) (ha : Awake s) : s.phase t ≠ .asleep := by
  intro ht
  obtain ⟨u, hu⟩ := ha h.requested t ht
  exact absurd hu (by simp [h.notified u])

/-- The notification is made by the only thread that still had to make one. -/
theorem Once.settled (ho : Once n s) (hs : Seen s) (at_phase : s.phase t = .requestNotify) :
    Settled (s.wakeAll.move t (.requestReturn true)) := by
  obtain ⟨writer, hwriter, -⟩ := ho.wakeAll
  have hphase : s.wakeAll.phase t = .requestNotify := by simp [at_phase]
  have ht : writer = some t := (hwriter t).mp (by rw [hphase]; rfl)
  constructor
  · exact hs.set t (by rw [at_phase]; rfl)
  · intro u
    rw [State.move_phase]
    by_cases hu : u = t
    · rw [if_pos hu]
      rfl
    · rw [if_neg hu, Bool.eq_false_iff]
      intro hnotify
      have hu' := (hwriter u).mp (Phase.transitioned_of_beforeNotify hnotify)
      exact hu (Option.some.inj (hu'.symm.trans ht))

/-- Nobody has to notify again: the flag is not stored twice. -/
theorem Settled.move (h : Settled s) (hp : p.beforeNotify = false) : Settled (s.move t p) := by
  refine ⟨h.requested, ?_⟩
  intro u
  rw [State.move_phase]
  split
  · exact hp
  · exact h.notified u

theorem Settled.acquire (h : Settled s) (hp : p.beforeNotify = false) :
    Settled (s.acquire t p) := ⟨h.requested, (h.move hp).notified⟩

theorem Settled.release (h : Settled s) (hp : p.beforeNotify = false) :
    Settled (s.release t p) := ⟨h.requested, (h.move hp).notified⟩

theorem Step.settled (h : Step s e s') (hs : Seen s) (hi : Settled s) : Settled s' := by
  cases h with
  | callRequest at_phase => exact hi.move rfl
  | requestLock at_phase free => exact hi.acquire rfl
  | requestLoad at_phase => exact hi.move (by rw [hi.requested]; rfl)
  | @requestStore t at_phase =>
    have hunset : s.requested = false := hs.unset t (by rw [at_phase]; rfl)
    exact absurd hi.requested (by simp [hunset])
  | @requestUnlock t result at_phase =>
    cases result with
    | false => exact hi.release rfl
    | true =>
      have hnotify : (s.phase t).beforeNotify = false := hi.notified t
      rw [at_phase] at hnotify
      exact absurd hnotify (by simp [Phase.beforeNotify])
  | @requestNotify t at_phase =>
    have hnotify : (s.phase t).beforeNotify = false := hi.notified t
    rw [at_phase] at hnotify
    exact absurd hnotify (by simp [Phase.beforeNotify])
  | requestReturn at_phase => exact hi.move rfl
  | callWait at_phase => exact hi.move rfl
  | waitLock at_phase free => exact hi.acquire rfl
  | waitLoad at_phase => exact hi.move (by split <;> rfl)
  | waitSleep at_phase => exact hi.release rfl
  | wake at_phase => exact hi.move rfl
  | waitUnlock at_phase => exact hi.release rfl
  | waitReturn at_phase => exact hi.move rfl

end Sleepers

/-! ## 7. Whole runs

The four invariants are kept together, as each of the step lemmas above takes some of the others as
hypotheses.  `Settled` joins them at the first notification and stays. -/

section Runs

variable {s s' : State ι} {e : Event ι} {t : ι} {tr : List (Event ι)}

/-- The invariant: what the phases say, and how many calls have returned `true`. -/
structure Inv (tr : List (Event ι)) (s : State ι) : Prop where
  exclusive : Mutual s
  seen : Seen s
  once : Once (tr.countP Event.isTransition) s
  awake : Awake s

omit [DecidableEq ι] in
theorem Inv.initial : Inv [] (State.initial : State ι) where
  exclusive := by
    intro t
    simp [State.initial, Phase.holds]
  seen := by
    constructor
    · intro t _
      rfl
    · intro t ht
      exact absurd ht (by simp [State.initial, Phase.sawSet])
  once := by
    refine ⟨none, ?_, rfl⟩
    intro t
    simp [State.initial, Phase.transitioned]
  awake := by
    intro hrequested
    exact absurd hrequested (by simp [State.initial])

theorem Inv.step (hi : Inv tr s) (h : Step s e s') : Inv (tr ++ [e]) s' where
  exclusive := h.exclusive hi.exclusive
  seen := h.seen hi.exclusive hi.seen
  once := by
    rw [List.countP_append, List.countP_singleton]
    exact h.once hi.seen hi.once
  awake := h.awake hi.seen hi.awake

theorem Inv.of_run (h : Run Step State.initial tr s) : Inv tr s :=
  h.invariant Inv.initial (fun _ _ _ _ hi hstep => hi.step hstep)

/-- **Once a notification was made, the flag is set and nobody has to be notified.** -/
theorem settled_of_notified (h : Run Step State.initial tr s) (ht : .notifyAll t ∈ tr) :
    Settled s := by
  obtain ⟨pre, post, rfl⟩ := List.append_of_mem ht
  obtain ⟨s₁, s₂, hpre, hstep, hpost⟩ := h.step_of_mem
  have hi : Inv pre s₁ := Inv.of_run hpre
  have hsettled : Settled s₂ := by
    cases hstep with
    | requestNotify at_phase => exact hi.once.settled hi.seen at_phase
  -- along the rest of the run, with what has been seen of the flag
  have hrest : (Mutual s ∧ Seen s) ∧ Settled s :=
    hpost.stable (P := fun s => (Mutual s ∧ Seen s) ∧ Settled s)
      (fun _ _ _ hkept hnext =>
        ⟨⟨hnext.exclusive hkept.1.1, hnext.seen hkept.1.1 hkept.1.2⟩,
          hnext.settled hkept.1.2 hkept.2⟩)
      ⟨⟨hstep.exclusive hi.exclusive, hstep.seen hi.exclusive hi.seen⟩, hsettled⟩
  exact hrest.2

/-- **No wake-up is lost.**  A thread sleeps although cancellation was requested only as long as
the call that set the flag has not notified; after a notification no thread sleeps, ever; `wait`
returns only when the flag is set, and at most one call of `request_cancellation` returns
`true`. -/
theorem no_lost_wakeup (h : Run Step State.initial tr s) :
    (∀ t, s.phase t = .asleep → s.requested = true → ∃ u, (s.phase u).beforeNotify = true) ∧
      (∀ u, .notifyAll u ∈ tr → ∀ t, s.phase t ≠ .asleep) ∧
      (∀ t s', Step s (.returnWait t) s' → s.requested = true) ∧
      tr.countP Event.isTransition ≤ 1 := by
  have hi : Inv tr s := Inv.of_run h
  refine ⟨?_, ?_, ?_, ?_⟩
  · intro t ht hrequested
    exact hi.awake hrequested t ht
  · intro u hu t
    have hsettled : Settled s := settled_of_notified h hu
    exact hsettled.phase_ne_asleep hi.awake
  · intro t s' hstep
    cases hstep with
    | waitReturn at_phase => exact hi.seen.set t (by rw [at_phase]; rfl)
  · obtain ⟨writer, -, hcount⟩ := hi.once
    split at hcount <;> split at hcount <;> omega

end Runs

/-- A run in which thread `false` sleeps when thread `true` has set the flag and not yet
notified. -/
theorem no_lost_wakeup_unnotified :
    ∃ (tr : List (Event Bool)) (s : State Bool), Run Step State.initial tr s ∧
      s.phase false = .asleep ∧ s.requested = true ∧
      (∃ u, (s.phase u).beforeNotify = true) ∧ tr.countP Event.isTransition ≤ 1 := by
  have hnil : Run Step (State.initial : State Bool) [] State.initial := Run.nil
  have hcalled := hnil.snoc (.callWait (t := false) rfl)
  have hlocked := hcalled.snoc (.waitLock (t := false) rfl rfl)
  have hloaded := hlocked.snoc (.waitLoad (t := false) rfl)
  have hasleep := hloaded.snoc (.waitSleep (t := false) rfl)
  have hrequested := hasleep.snoc (.callRequest (t := true) rfl)
  have htaken := hrequested.snoc (.requestLock (t := true) rfl rfl)
  have hfound := htaken.snoc (.requestLoad (t := true) rfl)
  have hrun := hfound.snoc (.requestStore (t := true) rfl)
  obtain ⟨hawake, -, -, honce⟩ := no_lost_wakeup hrun
  exact ⟨_, _, hrun, rfl, rfl, hawake false rfl rfl, honce⟩

/-! ## 8. A call as one step

`CancellationSource.requestCancellation` is one step of a source that one thread has.  Here it
is what happens to the flag at one point of each call: at the store of the call that returns
`true`, at the load of a call that returns `false`. -/

section Source

variable {s s' : State ι} {e : Event ι} {t : ι}

/-- The source of a request, with the flag as it stands. -/
def State.source (s : State ι) (request : ExecutionRequestIdentity) : CancellationSource :=
  ⟨request, s.requested⟩

/-- A call that will return `false` has found the source already cancelled. -/
theorem Step.source_refused (h : Step s (.load t) s')
    (hphase : s'.phase t = .requestUnlock false) (request : ExecutionRequestIdentity) :
    (s.source request).requestCancellation = (false, s'.source request) := by
  cases h with
  | requestLoad at_phase =>
    rw [State.move_phase, if_pos rfl] at hphase
    split at hphase
    · rename_i hrequested
      simp [State.source, CancellationSource.requestCancellation, hrequested]
    · exact Phase.noConfusion hphase
  | waitLoad at_phase =>
    rw [State.move_phase, if_pos rfl] at hphase
    split at hphase
    · exact Phase.noConfusion hphase
    · exact Phase.noConfusion hphase

/-- **A step changes the source as `request_cancellation` does, or not at all**; and where a call
takes the way to `false`, it is at the point at which `request_cancellation` would return it. -/
theorem Step.source (h : Step s e s') (hs : Seen s) (request : ExecutionRequestIdentity) :
    (∃ t, e = .store t ∧ (s.source request).requestCancellation = (true, s'.source request)) ∨
      s'.source request = s.source request ∧
        ∀ t, e = .load t → s'.phase t = .requestUnlock false →
          (s.source request).requestCancellation = (false, s'.source request) := by
  have hrefused : ∀ t, e = .load t → s'.phase t = .requestUnlock false →
      (s.source request).requestCancellation = (false, s'.source request) := by
    rintro t rfl hphase
    exact h.source_refused hphase request
  cases h with
  | @requestStore t at_phase =>
    have hunset : s.requested = false := hs.unset t (by rw [at_phase]; rfl)
    left
    refine ⟨t, rfl, ?_⟩
    simp [State.source, CancellationSource.requestCancellation, hunset]
  | _ => exact .inr ⟨rfl, hrefused⟩

end Source

end Pkgexec.Threads
