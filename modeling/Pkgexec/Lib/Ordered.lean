/-
# Methods over a release/acquire memory

`Monitor` gives every access to the shared data the result of the last one.  Here the same
methods run over a memory in which a load may find an old value (`Views`); an access says how it
is ordered.

Threads also load and store locations of their own, while they are in no method, in any order:
they are what a client synchronizes and what it publishes.

* Sections 2 and 3: if the location is stored under the mutex, releasing, and loaded without it
  only acquiring, then it is synchronized, and the methods that take the mutex behave as in
  `Monitor` (`Code.Locks.locked_run`).
* Section 4: what one step can do, to the location and to a thread; what a thread has stored it
  knows, and it does not load what is behind what it knows.
-/
import Pkgexec.Lib.Linearization
import Pkgexec.Lib.Views

namespace Views

open Transition Monitor

/-! ## 1. Methods

The places, the phases and the calls are those of `Monitor`; what is new is the order of an access.
A call and a return show the view of their thread, which is what a client goes by when it reasons
about locations of its own. -/

/-- What stands at a place; an access says how it is ordered. -/
inductive Instr (ℓ σ ρ : Type)
  | lock (next : ℓ)
  | unlock (next : ℓ)
  | load (acquire : Bool) (f : σ → ℓ)
  | store (release : Bool) (value : σ) (next : ℓ)
  | notifyAll (next : ℓ)
  | sleep (woken : ℓ) (expired : Option ℓ)
  | ret (r : ρ)

/-- The instruction without the orders. -/
def Instr.plain {ℓ σ ρ : Type} : Instr ℓ σ ρ → Monitor.Instr ℓ σ ρ
  | lock next => .lock next
  | unlock next => .unlock next
  | load _ f => .access fun d => (d, f d)
  | store _ value next => .access fun _ => (value, next)
  | notifyAll next => .notifyAll next
  | sleep woken expired => .sleep woken expired
  | ret r => .ret r

/-- The orders are those of accesses: any other instruction is the plain one. -/
theorem Instr.eq_of_plain {ℓ σ ρ : Type} {i j : Instr ℓ σ ρ} (hj : ∀ f, j.plain ≠ .access f)
    (h : i.plain = j.plain) : i = j := by
  cases j with
  | load acquire f => exact absurd rfl (hj _)
  | store release value next => exact absurd rfl (hj _)
  | lock | unlock | notifyAll | sleep | ret =>
    cases i <;> cases h
    rfl

/-- The methods `ω`, over places `ℓ`. -/
structure Code (ℓ σ ω ρ : Type) where
  entry : ω → ℓ
  instr : ℓ → Instr ℓ σ ρ

def Code.plain {ℓ σ ω ρ : Type} (code : Code ℓ σ ω ρ) : Monitor.Code ℓ σ ω ρ where
  entry := code.entry
  instr := fun l => (code.instr l).plain

/-- What happens; a call and a return say what the thread knows. -/
inductive Event (ι ℓ ω ρ Loc T : Type)
  | call (t : ι) (op : ω) (view : View Loc T)
  | lock (t : ι)
  | unlock (t : ι)
  | load (t : ι)
  | store (t : ι)
  | notifyAll (t : ι)
  | sleep (t : ι)
  | wake (t : ι)
  | resume (t : ι)
  | expire (t : ι)
  | ret (t : ι) (l : ℓ) (r : ρ) (view : View Loc T)
  /-- The client loads what stands at a place of another location, -/
  | clientLoad (t : ι) (y : Loc) (n : T)
  /-- or stores there. -/
  | clientStore (t : ι) (y : Loc) (n : T)

/-- The threads, with their mutex, over a memory. -/
structure State (ι ℓ Loc T : Type) (V : Loc → Type) where
  memory : Memory ι Loc T V
  threads : Monitor.State ι ℓ Unit

section Methods

variable {ι ℓ ω ρ Loc T : Type} {V : Loc → Type} [DecidableEq ι] [DecidableEq Loc]
  [LinearOrder T] [OrderBot T] {x : Loc}

def State.initial (d : (y : Loc) → V y) : State ι ℓ Loc T V := ⟨.initial d, .initial ()⟩

/-- The steps of the threads, the methods being over the location `x`. -/
inductive Code.Step (code : Code ℓ (V x) ω ρ) :
    State ι ℓ Loc T V → Event ι ℓ ω ρ Loc T → State ι ℓ Loc T V → Prop
  | call {s : State ι ℓ Loc T V} {t : ι} {op : ω} (at_phase : s.threads.phase t = .idle) :
      code.Step s (.call t op (s.memory.view t))
        ⟨s.memory, s.threads.move t (.running (code.entry op))⟩
  | lock {s : State ι ℓ Loc T V} {t : ι} {l next : ℓ}
      (at_phase : s.threads.phase t = .running l) (instr : code.instr l = .lock next)
      (free : s.threads.owner = none) :
      code.Step s (.lock t) ⟨s.memory.learn t s.memory.mutex,
        { s.threads.move t (.running next) with owner := some t }⟩
  | unlock {s : State ι ℓ Loc T V} {t : ι} {l next : ℓ}
      (at_phase : s.threads.phase t = .running l) (instr : code.instr l = .unlock next)
      (own : s.threads.owner = some t) :
      code.Step s (.unlock t) ⟨{ s.memory with mutex := s.memory.view t },
        { s.threads.move t (.running next) with owner := none }⟩
  | load {s : State ι ℓ Loc T V} {t : ι} {l : ℓ} {acquire : Bool} {f : V x → ℓ} {n : T} {v : V x}
      {m : Memory ι Loc T V} (at_phase : s.threads.phase t = .running l)
      (instr : code.instr l = .load acquire f) (access : s.memory.Loads t x acquire n v m) :
      code.Step s (.load t) ⟨m, s.threads.move t (.running (f v))⟩
  | store {s : State ι ℓ Loc T V} {t : ι} {l next : ℓ} {release : Bool} {n : T} {v : V x}
      {m : Memory ι Loc T V} (at_phase : s.threads.phase t = .running l)
      (instr : code.instr l = .store release v next)
      (access : s.memory.Stores t x release v n m) :
      code.Step s (.store t) ⟨m, s.threads.move t (.running next)⟩
  | notifyAll {s : State ι ℓ Loc T V} {t : ι} {l next : ℓ}
      (at_phase : s.threads.phase t = .running l) (instr : code.instr l = .notifyAll next) :
      code.Step s (.notifyAll t) ⟨s.memory, s.threads.notify.move t (.running next)⟩
  | sleep {s : State ι ℓ Loc T V} {t : ι} {l woken : ℓ} {expired : Option ℓ}
      (at_phase : s.threads.phase t = .running l) (instr : code.instr l = .sleep woken expired)
      (own : s.threads.owner = some t) :
      code.Step s (.sleep t) ⟨{ s.memory with mutex := s.memory.view t },
        { s.threads.move t (.asleep woken expired) with owner := none }⟩
  | wake {s : State ι ℓ Loc T V} {t : ι} {woken : ℓ} {expired : Option ℓ}
      (at_phase : s.threads.phase t = .asleep woken expired) :
      code.Step s (.wake t) ⟨s.memory, s.threads.move t (.running woken)⟩
  | resume {s : State ι ℓ Loc T V} {t : ι} {woken : ℓ} {expired : Option ℓ}
      (at_phase : s.threads.phase t = .notified woken expired) :
      code.Step s (.resume t) ⟨s.memory, s.threads.move t (.running woken)⟩
  | expire {s : State ι ℓ Loc T V} {t : ι} {woken expired : ℓ}
      (at_phase : s.threads.phase t = .asleep woken (some expired) ∨
        s.threads.phase t = .notified woken (some expired)) :
      code.Step s (.expire t) ⟨s.memory, s.threads.move t (.running expired)⟩
  | ret {s : State ι ℓ Loc T V} {t : ι} {l : ℓ} {r : ρ}
      (at_phase : s.threads.phase t = .running l) (instr : code.instr l = .ret r) :
      code.Step s (.ret t l r (s.memory.view t)) ⟨s.memory, s.threads.move t .idle⟩
  | clientLoad {s : State ι ℓ Loc T V} {t : ι} {y : Loc} {acquire : Bool} {n : T} {v : V y}
      {m : Memory ι Loc T V} (at_phase : s.threads.phase t = .idle) (other : y ≠ x)
      (access : s.memory.Loads t y acquire n v m) :
      code.Step s (.clientLoad t y n) ⟨m, s.threads⟩
  | clientStore {s : State ι ℓ Loc T V} {t : ι} {y : Loc} {release : Bool} {n : T} {v : V y}
      {m : Memory ι Loc T V} (at_phase : s.threads.phase t = .idle) (other : y ≠ x)
      (access : s.memory.Stores t y release v n m) :
      code.Step s (.clientStore t y n) ⟨m, s.threads⟩

end Methods

/-! ## 2. What the mutex protects

`locked` hides the methods that do without the mutex, and `lockedPhase` puts a thread that is in
one of them outside of any call.  What remains is a run of `Monitor`: the data there are the last
message here, and each step here is one step there or none (`Code.Step.behaves`). -/

section Locked

variable {ι ℓ ω ρ Loc T : Type} {V : Loc → Type} {x : Loc}

/-- Instruction by instruction: `free l` says that `l` is a place of a method that does without
the mutex and acquires what it loads; all others load and store under the mutex, and release what
they store. -/
def Instr.Locks {σ : Type} (held free : ℓ → Bool) (l : ℓ) : Instr ℓ σ ρ → Prop
  | lock next | unlock next | notifyAll next => free l = false ∧ free next = false
  | load acquire f =>
    (free l = true ∧ acquire = true ∧ ∀ d, free (f d) = true) ∨
      (free l = false ∧ held l = true ∧ ∀ d, free (f d) = false)
  | store release _ next =>
    free l = false ∧ held l = true ∧ release = true ∧ free next = false
  | sleep woken expired =>
    free l = false ∧ free woken = false ∧ ∀ z ∈ expired, free z = false
  | ret _ => True

/-- The orders of the code are enough for its mutex. -/
structure Code.Locks (code : Code ℓ (V x) ω ρ) (held free : ℓ → Bool) : Prop where
  disciplined : code.plain.Disciplined held
  instr : ∀ l, (code.instr l).Locks held free l

/-- The phase of a thread, as far as it is in a method that takes the mutex. -/
def lockedPhase (free : ℓ → Bool) : Phase ℓ → Phase ℓ
  | .running l => if free l = true then .idle else .running l
  | p => p

/-- What a client sees of the methods that take the mutex. -/
def Event.locked (entry : ω → ℓ) (free : ℓ → Bool) :
    Event ι ℓ ω ρ Loc T → Option (Atomic.Action ι ω ρ)
  | call t op _ => if free (entry op) = true then none else some (.call t op)
  | ret t l r _ => if free l = true then none else some (.reply t r)
  | _ => none

/-- What is known under the mutex. -/
def State.guard (s : State ι ℓ Loc T V) : View Loc T :=
  match s.threads.owner with
  | none => s.memory.mutex
  | some t => s.memory.view t

section Guards

variable {s : State ι ℓ Loc T V} {t : ι}

theorem State.guard_of_free (h : s.threads.owner = none) : s.guard = s.memory.mutex := by
  rw [State.guard, h]

theorem State.guard_of_owner (h : s.threads.owner = some t) : s.guard = s.memory.view t := by
  rw [State.guard, h]

end Guards

/-- The methods that take the mutex, as `Monitor` has them: the others are in no method there, and
the data are the last message. -/
structure Behaves [LinearOrder T] [OrderBot T] (code : Code ℓ (V x) ω ρ) (held free : ℓ → Bool)
    (s : State ι ℓ Loc T V) (a : Monitor.State ι ℓ (V x)) : Prop where
  owner : a.owner = s.threads.owner
  phase : ∀ t, a.phase t = lockedPhase free (s.threads.phase t)
  exclusive : Exclusive held a
  slept : ∀ t, (a.phase t).Slept code.plain
  latest : s.memory.Latest x a.data
  synced : s.memory.Synced x s.guard

/-- What was done here is done in `Monitor` too. -/
def Answered [DecidableEq ι] [LinearOrder T] [OrderBot T] (code : Code ℓ (V x) ω ρ)
    (held free : ℓ → Bool) (a : Monitor.State ι ℓ (V x)) (e : Event ι ℓ ω ρ Loc T)
    (s' : State ι ℓ Loc T V) : Prop :=
  ∃ tr a', Run code.plain.Step a tr a' ∧ Behaves code held free s' a' ∧
    tr.filterMap Monitor.Event.action = (e.locked code.entry free).toList

section Steps

variable [DecidableEq ι] [LinearOrder T] [OrderBot T] {code : Code ℓ (V x) ω ρ}
  {held free : ℓ → Bool} {s s' : State ι ℓ Loc T V} {a a' : Monitor.State ι ℓ (V x)} {t : ι}
  {l : ℓ}

theorem lockedPhase_of_not_free (h : free l = false) :
    lockedPhase free (.running l) = .running l := by
  simp [lockedPhase, h]

theorem lockedPhase_of_free (h : free l = true) : lockedPhase free (.running l) = .idle := by
  simp [lockedPhase, h]

namespace Behaves

theorem phase_move (ha : Behaves code held free s a) {p q : Phase ℓ} (hp : p = lockedPhase free q) :
    ∀ u, (a.move t p).phase u = lockedPhase free ((s.threads.move t q).phase u) := by
  intro u
  rw [State.move_phase, State.move_phase]
  split
  · exact hp
  · exact ha.phase u

omit [DecidableEq ι] in
/-- Only the memory changes. -/
theorem remember (ha : Behaves code held free s a) {m : Memory ι Loc T V}
    (hlatest : m.messages x = s.memory.messages x) (hsynced : m.Synced x s.guard)
    (hview : ∀ u, s.memory.view u ≤ m.view u) (hmutex : m.mutex = s.memory.mutex) :
    Behaves code held free ⟨m, s.threads⟩ a where
  owner := ha.owner
  phase := ha.phase
  exclusive := ha.exclusive
  slept := ha.slept
  latest := ha.latest.congr hlatest
  synced := by
    refine hsynced.mono ?_
    simp only [State.guard]
    split
    · exact hmutex.ge
    · exact hview _

/-- And a thread goes on, in a method without the mutex. -/
theorem stay (ha : Behaves code held free s a) {q : Phase ℓ} {m : Memory ι Loc T V}
    (hq : a.phase t = lockedPhase free q) (hlatest : m.messages x = s.memory.messages x)
    (hsynced : m.Synced x s.guard) (hview : ∀ u, s.memory.view u ≤ m.view u)
    (hmutex : m.mutex = s.memory.mutex) :
    Behaves code held free ⟨m, s.threads.move t q⟩ a := by
  refine { ha.remember hlatest hsynced hview hmutex with phase := ?_ }
  intro u
  rw [State.move_phase]
  split
  · rename_i hu
    rw [hu]
    exact hq
  · exact ha.phase u

omit [DecidableEq ι] in
theorem notify (ha : Behaves code held free s a) :
    Behaves code held free ⟨s.memory, s.threads.notify⟩ a.notify where
  owner := ha.owner
  phase := by
    intro u
    have hu := ha.phase u
    simp only [State.notify]
    cases hphase : s.threads.phase u with
    | running l =>
      rw [hphase] at hu
      by_cases hl : free l = true
      · rw [lockedPhase_of_free hl] at hu ⊢
        rw [hu]
      · rw [lockedPhase_of_not_free (Bool.eq_false_iff.mpr hl)] at hu ⊢
        rw [hu]
    | idle | asleep | notified =>
      rw [hphase] at hu
      rw [hu]
      rfl
  exclusive := ha.exclusive.notify
  slept := by
    intro u
    have hu := ha.slept u
    simp only [State.notify]
    split
    · rename_i hphase
      rwa [hphase] at hu
    · exact hu
  latest := ha.latest
  synced := ha.synced

omit [DecidableEq ι] in
theorem sleeps (ha : Behaves code held free s a) {p : Phase ℓ} {woken : ℓ} {expired : Option ℓ}
    (hp : p = .asleep woken expired ∨ p = .notified woken expired)
    (hphase : s.threads.phase t = p) :
    a.phase t = p ∧ ∃ l, code.instr l = .sleep woken expired := by
  have hsame : a.phase t = p := by
    rw [ha.phase, hphase]
    rcases hp with rfl | rfl <;> rfl
  have hslept := ha.slept t
  rw [hsame] at hslept
  obtain ⟨l, hl⟩ : ∃ l, (code.instr l).plain = .sleep woken expired := by
    rcases hp with rfl | rfl <;> exact hslept
  exact ⟨hsame, l, Instr.eq_of_plain (j := .sleep woken expired) (fun _ h => by cases h) hl⟩

omit [DecidableEq ι] in
/-- Who sleeps is in a method that takes the mutex. -/
theorem of_asleep (ha : Behaves code held free s a) (hc : code.Locks held free) {p : Phase ℓ}
    {woken : ℓ} {expired : Option ℓ} (hp : p = .asleep woken expired ∨ p = .notified woken expired)
    (hphase : s.threads.phase t = p) :
    a.phase t = p ∧ free woken = false ∧ ∀ z ∈ expired, free z = false := by
  obtain ⟨hsame, l, hl⟩ := ha.sleeps hp hphase
  have hinstr := hc.instr l
  rw [hl] at hinstr
  exact ⟨hsame, hinstr.2⟩

omit [DecidableEq ι] in
theorem running_of_locked (ha : Behaves code held free s a)
    (hphase : s.threads.phase t = .running l) (hl : free l = false) : a.phase t = .running l := by
  rw [ha.phase, hphase, lockedPhase_of_not_free hl]

omit [DecidableEq ι] in
/-- Who is at a place that holds the mutex has it. -/
theorem owner_of_held (ha : Behaves code held free s a) (hphase : a.phase t = .running l)
    (hheld : held l = true) : s.threads.owner = some t := by
  rw [← ha.owner, ← ha.exclusive.owner t, hphase]
  exact hheld

/-- The same step there. -/
theorem answered (ha : Behaves code held free s a) (hc : code.Locks held free)
    {e : Event ι ℓ ω ρ Loc T} {e' : Monitor.Event ι ω ρ} (hstep : code.plain.Step a e' a')
    (hseen : e'.action = e.locked code.entry free) (howner : a'.owner = s'.threads.owner)
    (hphase : ∀ u, a'.phase u = lockedPhase free (s'.threads.phase u))
    (hlatest : s'.memory.Latest x a'.data) (hsynced : s'.memory.Synced x s'.guard) :
    Answered code held free a e s' := by
  refine ⟨[e'], a', Run.nil.snoc hstep, ?_, ?_⟩
  · exact {
      owner := howner
      phase := hphase
      exclusive := hstep.exclusive hc.disciplined ha.exclusive
      slept := hstep.slept ha.slept
      latest := hlatest
      synced := hsynced }
  · rw [← hseen]
    cases haction : e'.action <;> simp [haction]

/-- A step that only moves its thread. -/
theorem answered_move (ha : Behaves code held free s a) (hc : code.Locks held free)
    {e : Event ι ℓ ω ρ Loc T} {e' : Monitor.Event ι ω ρ} {p q : Phase ℓ}
    (hstep : code.plain.Step a e' (a.move t p)) (hseen : e'.action = e.locked code.entry free)
    (hp : p = lockedPhase free q) :
    Answered code held free a e ⟨s.memory, s.threads.move t q⟩ :=
  ha.answered hc hstep hseen ha.owner (ha.phase_move hp) ha.latest ha.synced

/-- A load under the mutex. -/
theorem answered_load [DecidableEq Loc] (ha : Behaves code held free s a)
    (hc : code.Locks held free) {acquire : Bool} {f : V x → ℓ} {n : T} {v : V x}
    {m : Memory ι Loc T V} (hphase : s.threads.phase t = .running l)
    (hinstr : code.instr l = .load acquire f) (hl : free l = false) (hheld : held l = true)
    (hf : ∀ d, free (f d) = false) (access : s.memory.Loads t x acquire n v m) :
    Answered code held free a (.load t) ⟨m, s.threads.move t (.running (f v))⟩ := by
  have hrunning := ha.running_of_locked hphase hl
  have hown := ha.owner_of_held hrunning hheld
  have hs := ha.synced
  rw [State.guard_of_owner hown] at hs
  obtain rfl : v = a.data := ha.latest.of_load hs access
  have hplain : code.plain.instr l = .access fun d => (d, f d) := congrArg Instr.plain hinstr
  refine ha.answered hc (.access hrunning hplain) rfl ha.owner ?_ ?_ ?_
  · exact ha.phase_move (lockedPhase_of_not_free (hf _)).symm
  · exact ha.latest.congr (by rw [access.messages_eq])
  · have hguard : State.guard ⟨m, s.threads.move t (.running (f a.data))⟩ = m.view t :=
      State.guard_of_owner hown
    rw [hguard]
    exact hs.load_guarded access

/-- A store, which is under the mutex. -/
theorem answered_store [DecidableEq Loc] (ha : Behaves code held free s a)
    (hc : code.Locks held free) {next : ℓ} {n : T} {v : V x} {m : Memory ι Loc T V}
    (hphase : s.threads.phase t = .running l) (hinstr : code.instr l = .store true v next)
    (hl : free l = false) (hheld : held l = true) (hnext : free next = false)
    (access : s.memory.Stores t x true v n m) :
    Answered code held free a (.store t) ⟨m, s.threads.move t (.running next)⟩ := by
  have hrunning := ha.running_of_locked hphase hl
  have hown := ha.owner_of_held hrunning hheld
  have hs := ha.synced
  rw [State.guard_of_owner hown] at hs
  have hplain : code.plain.instr l = .access fun _ => (v, next) := congrArg Instr.plain hinstr
  refine ha.answered hc (.access hrunning hplain) rfl ha.owner ?_ ?_ ?_
  · exact ha.phase_move (lockedPhase_of_not_free hnext).symm
  · exact Memory.Latest.of_store hs access
  · have hguard : State.guard ⟨m, s.threads.move t (.running next)⟩ = m.view t :=
      State.guard_of_owner hown
    rw [hguard]
    exact hs.store_guarded access

end Behaves

variable [DecidableEq Loc]

/-- **One step of a thread is at most one step in `Monitor`.** -/
theorem Code.Step.behaves {e : Event ι ℓ ω ρ Loc T} (hc : code.Locks held free)
    (h : code.Step s e s') (ha : Behaves code held free s a) :
    Answered code held free a e s' := by
  have hinstr : ∀ {l : ℓ} {i : Instr ℓ (V x) ρ}, code.instr l = i → i.Locks held free l := by
    rintro l _ rfl
    exact hc.instr l
  have hplain : ∀ {l : ℓ} {i : Instr ℓ (V x) ρ}, code.instr l = i →
      code.plain.instr l = i.plain := by
    rintro l _ rfl
    rfl
  cases h with
  | @call t op at_phase =>
    have hidle : a.phase t = .idle := by
      rw [ha.phase, at_phase]
      rfl
    by_cases hentry : free (code.entry op) = true
    · refine ⟨[], a, .nil, ha.stay ?_ rfl ha.synced (fun _ => le_rfl) rfl, ?_⟩
      · rw [hidle, lockedPhase_of_free hentry]
      · simp [Event.locked, hentry]
    · have hstep : code.plain.Step a (.call t op) _ := .call hidle
      refine ha.answered_move hc hstep ?_ ?_
      · simp [Event.locked, hentry, Monitor.Event.action]
      · exact (lockedPhase_of_not_free (Bool.eq_false_iff.mpr hentry)).symm
  | @lock t l next at_phase instr free' =>
    obtain ⟨hl, hnext⟩ := hinstr instr
    have hrunning := ha.running_of_locked at_phase hl
    have hs := ha.synced
    rw [State.guard_of_free free'] at hs
    refine ha.answered hc (.lock hrunning (hplain instr) (ha.owner.trans free')) rfl rfl
      (ha.phase_move (lockedPhase_of_not_free hnext).symm) ha.latest ?_
    -- The guard was what the mutex passes on, and becomes the view of the thread that takes it.
    refine (hs.learn ((hs.thread t).sup hs.mutex)).mono ?_
    show s.memory.mutex ≤ (s.memory.learn t s.memory.mutex).view t
    rw [Memory.learn_self]
    exact le_sup_right
  | @unlock t l next at_phase instr own =>
    obtain ⟨hl, hnext⟩ := hinstr instr
    have hrunning := ha.running_of_locked at_phase hl
    have hs := ha.synced
    rw [State.guard_of_owner own] at hs
    exact ha.answered hc (.unlock hrunning (hplain instr) (ha.owner.trans own)) rfl rfl
      (ha.phase_move (lockedPhase_of_not_free hnext).symm) ha.latest hs.leave
  | @load t l acquire f n v m at_phase instr access =>
    rcases hinstr instr with ⟨hl, rfl, hf⟩ | ⟨hl, hheld, hf⟩
    -- Without the mutex it may find an old value, and so it is no step of `Monitor`.
    · refine ⟨[], a, .nil, ha.stay ?_ ?_ (ha.synced.load_acquire access) access.view_le
        access.mutex_eq, rfl⟩
      · rw [ha.phase, at_phase, lockedPhase_of_free hl, lockedPhase_of_free (hf v)]
      · rw [access.messages_eq]
    · exact ha.answered_load hc at_phase instr hl hheld hf access
  | @store t l next release n v m at_phase instr access =>
    obtain ⟨hl, hheld, rfl, hnext⟩ := hinstr instr
    exact ha.answered_store hc at_phase instr hl hheld hnext access
  | @notifyAll t l next at_phase instr =>
    obtain ⟨hl, hnext⟩ := hinstr instr
    have hrunning := ha.running_of_locked at_phase hl
    exact ha.answered hc (.notifyAll hrunning (hplain instr)) rfl ha.owner
      (ha.notify.phase_move (lockedPhase_of_not_free hnext).symm) ha.latest ha.synced
  | @sleep t l woken expired at_phase instr own =>
    obtain ⟨hl, -, -⟩ := hinstr instr
    have hrunning := ha.running_of_locked at_phase hl
    have hs := ha.synced
    rw [State.guard_of_owner own] at hs
    exact ha.answered hc (.sleep hrunning (hplain instr) (ha.owner.trans own)) rfl rfl
      (ha.phase_move rfl) ha.latest hs.leave
  | @wake t woken expired at_phase =>
    obtain ⟨hphase, hwoken, -⟩ := ha.of_asleep hc (.inl rfl) at_phase
    exact ha.answered_move hc (.wake hphase) rfl (lockedPhase_of_not_free hwoken).symm
  | @resume t woken expired at_phase =>
    obtain ⟨hphase, hwoken, -⟩ := ha.of_asleep hc (.inr rfl) at_phase
    exact ha.answered_move hc (.resume hphase) rfl (lockedPhase_of_not_free hwoken).symm
  | @expire t woken expired at_phase =>
    have hexpired : free expired = false := by
      rcases at_phase with hphase | hphase
      · exact (ha.of_asleep hc (.inl rfl) hphase).2.2 expired rfl
      · exact (ha.of_asleep hc (.inr rfl) hphase).2.2 expired rfl
    have hasleep : a.phase t = .asleep woken (some expired) ∨
        a.phase t = .notified woken (some expired) := by
      rcases at_phase with hphase | hphase
      · exact .inl (ha.of_asleep hc (.inl rfl) hphase).1
      · exact .inr (ha.of_asleep hc (.inr rfl) hphase).1
    exact ha.answered_move hc (.expire hasleep) rfl (lockedPhase_of_not_free hexpired).symm
  | @ret t l r at_phase instr =>
    by_cases hl : free l = true
    · refine ⟨[], a, .nil, ha.stay ?_ rfl ha.synced (fun _ => le_rfl) rfl, ?_⟩
      · rw [ha.phase, at_phase, lockedPhase_of_free hl]
        rfl
      · simp [Event.locked, hl]
    · have hrunning := ha.running_of_locked at_phase (Bool.eq_false_iff.mpr hl)
      refine ha.answered_move hc (.ret hrunning (hplain instr)) ?_ rfl
      simp [Event.locked, hl, Monitor.Event.action]
  -- What clients do at locations of their own leaves `x` synchronized.
  | @clientLoad t y acquire n v m at_phase other access =>
    refine ⟨[], a, .nil, ha.remember ?_ (ha.synced.load_other other access) access.view_le
      access.mutex_eq, rfl⟩
    rw [access.messages_eq]
  | @clientStore t y release n v m at_phase other access =>
    exact ⟨[], a, .nil, ha.remember (access.messages_eq other.symm)
      (ha.synced.store_other other access) access.view_le access.mutex_eq, rfl⟩

/-- **The methods that take the mutex behave as in `Monitor`.** -/
theorem Code.Locks.locked_run {d : (y : Loc) → V y} {tr : List (Event ι ℓ ω ρ Loc T)}
    (hc : code.Locks held free) (h : Run code.Step (State.initial d) tr s) :
    ∃ tr' a, Run code.plain.Step (Monitor.State.initial (d x)) tr' a ∧ Behaves code held free s a ∧
      tr'.filterMap Monitor.Event.action =
        tr.filterMap (fun e => e.locked code.entry free) := by
  have hstart : Behaves code held free (State.initial d : State ι ℓ Loc T V)
      (Monitor.State.initial (d x)) := {
    owner := rfl
    phase := fun _ => rfl
    exclusive := Exclusive.initial
    slept := fun _ => trivial
    latest := Memory.Latest.initial
    synced := Memory.Synced.initial }
  refine h.simulate (Behaves code held free) hstart ?_
  intro tr s e s' a _ ha hstep
  exact hstep.behaves hc ha

end Steps

end Locked

/-! ## 3. Standing still

To carry a statement about stuck states over, one goes the other way: a step that a thread could
take in `Monitor` it can take here.  A load needs a message to find and a store a place to go, and
the methods that are hidden always have a step of their own. -/

/-- Steps that a thread takes by itself, in a call. -/
def Event.own {ι ℓ ω ρ Loc T : Type} : Event ι ℓ ω ρ Loc T → Bool
  | call _ _ _ | wake _ | expire _ | clientLoad _ _ _ | clientStore _ _ _ => false
  | _ => true

section Standing

variable {ι ℓ ω ρ Loc T : Type} {V : Loc → Type} {x : Loc} [DecidableEq ι] [DecidableEq Loc]
  [LinearOrder T] [OrderBot T] {code : Code ℓ (V x) ω ρ} {held free : ℓ → Bool}
  {s : State ι ℓ Loc T V} {a a' : Monitor.State ι ℓ (V x)} {t : ι} {l : ℓ}

omit [DecidableEq ι] [DecidableEq Loc] in
/-- Who runs in `Monitor` is at the same place here. -/
theorem Behaves.running (ha : Behaves code held free s a) (h : a.phase t = .running l) :
    s.threads.phase t = .running l := by
  rw [ha.phase] at h
  cases hphase : s.threads.phase t with
  | running l' =>
    rw [hphase] at h
    simp only [lockedPhase] at h
    split at h
    · cases h
    · exact h
  | idle | asleep | notified =>
    rw [hphase] at h
    cases h

/-- A method that does without the mutex goes on. -/
theorem Behaves.free_step (hc : code.Locks held free) (ha : Behaves code held free s a)
    (hphase : s.threads.phase t = .running l) (hl : free l = true) :
    ∃ e s', e.own = true ∧ code.Step s e s' := by
  have hinstr := hc.instr l
  cases hi : code.instr l with
  | load acquire f =>
    obtain ⟨n, v, m, hload⟩ := ha.synced.exists_load t acquire
    exact ⟨.load t, _, rfl, .load hphase hi hload⟩
  | ret r => exact ⟨.ret t l r _, _, rfl, .ret hphase hi⟩
  | lock next | unlock next | store release v next | notifyAll next | sleep woken expired =>
    rw [hi] at hinstr
    exact absurd (hl.symm.trans hinstr.1) (by simp)

/-- What a thread does by itself in `Monitor`, it does here. -/
theorem Behaves.own_step [NoMaxOrder T] {e : Monitor.Event ι ω ρ}
    (ha : Behaves code held free s a) (h : code.plain.Step a e a') (hown : e.own = true)
    (hc : code.Locks held free) : ∃ e s', e.own = true ∧ code.Step s e s' := by
  -- the instruction here, of one that is no access there
  have hsame : ∀ {l : ℓ} (i : Instr ℓ (V x) ρ), code.plain.instr l = i.plain →
      (∀ f, i.plain ≠ .access f) → code.instr l = i :=
    fun i hl hi => Instr.eq_of_plain hi hl
  cases h with
  | call | wake | expire => cases hown
  | @lock t l next at_phase instr free' =>
    have hi := hsame (.lock next) instr (fun _ h => by cases h)
    exact ⟨.lock t, _, rfl, .lock (ha.running at_phase) hi (ha.owner.symm.trans free')⟩
  | @unlock t l next at_phase instr own =>
    have hi := hsame (.unlock next) instr (fun _ h => by cases h)
    exact ⟨.unlock t, _, rfl, .unlock (ha.running at_phase) hi (ha.owner.symm.trans own)⟩
  | @access t l f at_phase instr =>
    have hplain : (code.instr l).plain = .access f := instr
    cases hi : code.instr l with
    | load acquire f' =>
      obtain ⟨n, v, m, hload⟩ := ha.synced.exists_load t acquire
      exact ⟨.load t, _, rfl, .load (ha.running at_phase) hi hload⟩
    | store release v next =>
      have hlocks := hc.instr l
      rw [hi] at hlocks
      have howner := ha.owner_of_held at_phase hlocks.2.1
      have hs := ha.synced
      rw [State.guard_of_owner howner] at hs
      obtain ⟨n, m, hstore⟩ := hs.exists_store release v
      exact ⟨.store t, _, rfl, .store (ha.running at_phase) hi hstore⟩
    | _ =>
      rw [hi] at hplain
      cases hplain
  | @notifyAll t l next at_phase instr =>
    have hi := hsame (.notifyAll next) instr (fun _ h => by cases h)
    exact ⟨.notifyAll t, _, rfl, .notifyAll (ha.running at_phase) hi⟩
  | @sleep t l woken expired at_phase instr own =>
    have hi := hsame (.sleep woken expired) instr (fun _ h => by cases h)
    exact ⟨.sleep t, _, rfl, .sleep (ha.running at_phase) hi (ha.owner.symm.trans own)⟩
  | @resume t woken expired at_phase =>
    have hphase : s.threads.phase t = .notified woken expired := by
      rw [ha.phase] at at_phase
      cases hp : s.threads.phase t with
      | running l =>
        rw [hp] at at_phase
        simp only [lockedPhase] at at_phase
        split at at_phase <;> cases at_phase
      | idle | asleep | notified =>
        rw [hp] at at_phase
        exact at_phase
    exact ⟨.resume t, _, rfl, .resume hphase⟩
  | @ret t l r at_phase instr =>
    have hi := hsame (.ret r) instr (fun _ h => by cases h)
    exact ⟨.ret t l r _, _, rfl, .ret (ha.running at_phase) hi⟩

/-- **When the threads stand still here, they stand still in `Monitor`.** -/
theorem Code.Locks.standing [NoMaxOrder T] {d : (y : Loc) → V y}
    {tr : List (Event ι ℓ ω ρ Loc T)} (hc : code.Locks held free)
    (h : Run code.Step (State.initial d) tr s)
    (hstuck : ¬ ∃ e s', e.own = true ∧ code.Step s e s') :
    ∃ tr' a, Run code.plain.Step (Monitor.State.initial (d x)) tr' a ∧
      (¬ ∃ e a', e.own = true ∧ code.plain.Step a e a') ∧ a.owner = s.threads.owner ∧
      (∀ t, a.phase t = s.threads.phase t) ∧ s.memory.Latest x a.data := by
  obtain ⟨tr', a, hrun, ha, -⟩ := hc.locked_run h
  refine ⟨tr', a, hrun, ?_, ha.owner, ?_, ha.latest⟩
  · rintro ⟨e, a', hown, hstep⟩
    exact hstuck (ha.own_step hstep hown hc)
  · intro t
    rw [ha.phase]
    cases hphase : s.threads.phase t with
    | running l =>
      cases hl : free l with
      | true => exact absurd (ha.free_step hc hphase hl) hstuck
      | false => exact lockedPhase_of_not_free hl
    | _ => rfl

/-- Who is outside of a call or asleep has no step to take by itself. -/
theorem not_own_of_quiet
    (hphase : ∀ t, s.threads.phase t = .idle ∨ ∃ w z, s.threads.phase t = .asleep w z) :
    ¬ ∃ e s', e.own = true ∧ code.Step s e s' := by
  rintro ⟨e, s', hown, hstep⟩
  have hrunning : ∀ t l, s.threads.phase t ≠ .running l := by
    intro t l ht
    rcases hphase t with h | ⟨w, z, h⟩ <;> rw [h] at ht <;> cases ht
  cases hstep with
  | call | wake | expire | clientLoad | clientStore => cases hown
  | @resume t w z at_phase =>
    rcases hphase t with h | ⟨w, z, h⟩ <;> rw [h] at at_phase <;> cases at_phase
  | lock at_phase | unlock at_phase | load at_phase | store at_phase | notifyAll at_phase
  | sleep at_phase | ret at_phase => exact hrunning _ _ at_phase

end Standing

/-! ## 4. What a step does

For invariants of particular code.  A message is old or was stored by this step, and a thread is at
a place because it stayed there or went there by an instruction; an invariant goes by these cases
and not by those of `Code.Step`. -/

section Arrivals

variable {ι ℓ ω ρ Loc T : Type} {V : Loc → Type} {x : Loc} [DecidableEq ι] [DecidableEq Loc]
  [LinearOrder T] [OrderBot T] {code : Code ℓ (V x) ω ρ} {s s' : State ι ℓ Loc T V}
  {e : Event ι ℓ ω ρ Loc T} {t u : ι}

/-- A message of the location is one that was, or a thread has stored it. -/
theorem Code.Step.message_cases (h : code.Step s e s') {n : T} {msg : Message Loc T (V x)}
    (hmsg : s'.memory.messages x n = some msg) :
    s.memory.messages x n = some msg ∨
      ∃ t l release next, s.threads.phase t = .running l ∧
        code.instr l = .store release msg.value next ∧ s.memory.view t x < n ∧
        msg.view = (if release = true then s.memory.view t ⊔ point x n else point x n) := by
  cases h with
  | load at_phase instr access =>
    rw [access.messages_eq] at hmsg
    exact .inl hmsg
  | clientLoad at_phase other access =>
    rw [access.messages_eq] at hmsg
    exact .inl hmsg
  | clientStore at_phase other access =>
    rw [access.messages_eq other.symm] at hmsg
    exact .inl hmsg
  | @store t l next release k v m at_phase instr access =>
    cases access with
    | placed vacant ahead =>
      by_cases hk : n = k
      · subst hk
        replace hmsg := Option.some.inj (Memory.put_self.symm.trans hmsg)
        subst hmsg
        exact .inr ⟨t, l, release, next, at_phase, instr, ahead, rfl⟩
      · left
        rwa [Memory.put_of_ne (fun hnew => hk hnew.2)] at hmsg
  | _ => exact .inl hmsg

/-- How a thread may have come to the phase `p` in the step from `s` to `s'`. -/
inductive Code.Arrives (code : Code ℓ (V x) ω ρ) (s : State ι ℓ Loc T V)
    (e : Event ι ℓ ω ρ Loc T) (s' : State ι ℓ Loc T V) (t : ι) : Phase ℓ → Prop
  | stayed {p : Phase ℓ} (at_phase : s.threads.phase t = p) : code.Arrives s e s' t p
  | called {op : ω} (at_phase : s.threads.phase t = .idle)
      (event : e = .call t op (s.memory.view t)) :
      code.Arrives s e s' t (.running (code.entry op))
  | passed {l next : ℓ} (at_phase : s.threads.phase t = .running l)
      (instr : code.instr l = .lock next ∨ code.instr l = .unlock next ∨
        code.instr l = .notifyAll next) : code.Arrives s e s' t (.running next)
  | loaded {l : ℓ} {acquire : Bool} {f : V x → ℓ} {n : T} {v : V x}
      (at_phase : s.threads.phase t = .running l) (instr : code.instr l = .load acquire f)
      (access : s.memory.Loads t x acquire n v s'.memory) :
      code.Arrives s e s' t (.running (f v))
  | stored {l next : ℓ} {release : Bool} {n : T} {v : V x}
      (at_phase : s.threads.phase t = .running l) (instr : code.instr l = .store release v next)
      (access : s.memory.Stores t x release v n s'.memory) :
      code.Arrives s e s' t (.running next)
  | slept {l woken : ℓ} {expired : Option ℓ} (at_phase : s.threads.phase t = .running l)
      (instr : code.instr l = .sleep woken expired) :
      code.Arrives s e s' t (.asleep woken expired)
  | notified {woken : ℓ} {expired : Option ℓ}
      (at_phase : s.threads.phase t = .asleep woken expired) :
      code.Arrives s e s' t (.notified woken expired)
  | woken {woken : ℓ} {expired : Option ℓ}
      (at_phase : s.threads.phase t = .asleep woken expired ∨
        s.threads.phase t = .notified woken expired) : code.Arrives s e s' t (.running woken)
  | expired {woken expired : ℓ}
      (at_phase : s.threads.phase t = .asleep woken (some expired) ∨
        s.threads.phase t = .notified woken (some expired)) :
      code.Arrives s e s' t (.running expired)
  | returned {l : ℓ} {r : ρ} (at_phase : s.threads.phase t = .running l)
      (instr : code.instr l = .ret r) : code.Arrives s e s' t .idle

theorem Code.Step.arrives (h : code.Step s e s') (u : ι) :
    code.Arrives s e s' u (s'.threads.phase u) := by
  -- the thread that takes the step, and the others
  have hmove : ∀ {t : ι} {p : Phase ℓ}, (u = t → code.Arrives s e s' u p) →
      code.Arrives s e s' u ((s.threads.move t p).phase u) := by
    intro t p hp
    rw [State.move_phase]
    split
    · rename_i hu
      exact hp hu
    · exact .stayed rfl
  cases h with
  | call at_phase => exact hmove (by rintro rfl; exact .called at_phase rfl)
  | lock at_phase instr => exact hmove (by rintro rfl; exact .passed at_phase (.inl instr))
  | unlock at_phase instr => exact hmove (by rintro rfl; exact .passed at_phase (.inr (.inl instr)))
  | load at_phase instr access => exact hmove (by rintro rfl; exact .loaded at_phase instr access)
  | store at_phase instr access => exact hmove (by rintro rfl; exact .stored at_phase instr access)
  | @notifyAll t l next at_phase instr =>
    show code.Arrives _ _ _ u ((s.threads.notify.move t (.running next)).phase u)
    rw [State.move_phase]
    split
    · rename_i hu
      subst hu
      exact .passed at_phase (.inr (.inr instr))
    · simp only [State.notify]
      split
      · rename_i hphase
        exact .notified hphase
      · exact .stayed rfl
  | sleep at_phase instr => exact hmove (by rintro rfl; exact .slept at_phase instr)
  | wake at_phase => exact hmove (by rintro rfl; exact .woken (.inl at_phase))
  | resume at_phase => exact hmove (by rintro rfl; exact .woken (.inr at_phase))
  | expire at_phase => exact hmove (by rintro rfl; exact .expired at_phase)
  | ret at_phase instr => exact hmove (by rintro rfl; exact .returned at_phase instr)
  | clientLoad | clientStore => exact .stayed rfl

end Arrivals

/-! ### Views

Views along a run, for a client that stores and loads between its calls. -/

section Along

variable {ι ℓ ω ρ Loc T : Type} {V : Loc → Type} {x : Loc} [DecidableEq ι] [DecidableEq Loc]
  [LinearOrder T] [OrderBot T] {code : Code ℓ (V x) ω ρ} {s s' : State ι ℓ Loc T V}
  {e : Event ι ℓ ω ρ Loc T} {tr : List (Event ι ℓ ω ρ Loc T)} {t : ι} {y : Loc} {n : T}

/-- Nobody forgets. -/
theorem Code.Step.view_le (h : code.Step s e s') (u : ι) :
    s.memory.view u ≤ s'.memory.view u := by
  cases h with
  | lock => exact Memory.le_learn u
  | load at_phase instr access => exact access.view_le u
  | store at_phase instr access => exact access.view_le u
  | clientLoad at_phase other access => exact access.view_le u
  | clientStore at_phase other access => exact access.view_le u
  | _ => exact le_rfl

theorem view_le_of_run (h : Run code.Step s tr s') (u : ι) :
    s.memory.view u ≤ s'.memory.view u :=
  h.stable (P := fun s' => s.memory.view u ≤ s'.memory.view u)
    (fun _ _ _ hle hstep => hle.trans (hstep.view_le u)) le_rfl

/-- What the thread has stored it knows, -/
theorem stored_le (h : Run code.Step s tr s') (hmem : .clientStore t y n ∈ tr) :
    n ≤ s'.memory.view t y := by
  obtain ⟨pre, post, rfl⟩ := List.append_of_mem hmem
  obtain ⟨s₁, s₂, -, hstep, hpost⟩ := h.step_of_mem
  cases hstep with
  | clientStore at_phase other access => exact access.known.trans (view_le_of_run hpost t y)

/-- and what it loads is not behind what it knew. -/
theorem le_loaded (h : Run code.Step s tr s') (hmem : .clientLoad t y n ∈ tr) :
    s.memory.view t y ≤ n := by
  obtain ⟨pre, post, rfl⟩ := List.append_of_mem hmem
  obtain ⟨s₁, s₂, hpre, hstep, -⟩ := h.step_of_mem
  cases hstep with
  | clientLoad at_phase other access => exact (view_le_of_run hpre t y).trans access.ahead

end Along

end Views
