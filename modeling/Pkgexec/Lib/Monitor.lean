/-
# Methods that share data, a mutex and a condition variable

A method is code with places: at each place stands one instruction, which takes or leaves the
mutex, makes one atomic access to the shared data, notifies, goes to sleep, or returns.  Any
number of threads call methods, over and over; between two instructions of a thread the others
run, in any order.

Going to sleep leaves the mutex in the same step.  A sleeping thread goes on after a notification
or without any reason, and a sleep with a deadline also ends when the deadline has passed, which
may be at any time, before the notification or after it.

The code is checked place by place, and what was checked then holds of every run:
* `Disciplined` says which places hold the mutex: no two threads are ever at such places
  (`Exclusive.of_run`), and a thread stands still only asleep (`exists_step_of_running`).
* `Outline` says what is known of the data at each place, though other threads interfere
  (`Outline.of_run`).
* `Code.RunsDown` bounds the steps of a call once nobody has to sleep any more
  (`Code.RunsDown.works_le`).
* `Instr.Pays` says who owes the sleepers a notification, and then none is lost
  (`Awaited.of_run`).
-/
import Pkgexec.Lib.Transition
import Mathlib.Order.Basic

namespace Monitor

open Transition

/-! ## 1. Code

A state has the data, the owner of the mutex and the phase of each thread.  A thread that runs is
at a place, and the instruction there says what it does next; the rules for code below are
conditions on single instructions. -/

/-- What stands at a place. -/
inductive Instr (ℓ σ ρ : Type)
  | lock (next : ℓ)
  | unlock (next : ℓ)
  /-- One atomic access, which may change the data and decides where to go on. -/
  | access (f : σ → σ × ℓ)
  | notifyAll (next : ℓ)
  /-- Leaves the mutex and sleeps; where to go on when woken, and when a deadline has passed. -/
  | sleep (woken : ℓ) (expired : Option ℓ)
  | ret (r : ρ)

/-- The methods `ω`, over places `ℓ`. -/
structure Code (ℓ σ ω ρ : Type) where
  entry : ω → ℓ
  instr : ℓ → Instr ℓ σ ρ

/-- Where a thread is. -/
inductive Phase (ℓ : Type)
  | idle
  | running (l : ℓ)
  | asleep (woken : ℓ) (expired : Option ℓ)
  /-- Was asleep when a notification was made. -/
  | notified (woken : ℓ) (expired : Option ℓ)
  deriving DecidableEq

/-- What a thread does. -/
inductive Event (ι ω ρ : Type)
  | call (t : ι) (op : ω)
  | lock (t : ι)
  | unlock (t : ι)
  | access (t : ι)
  | notifyAll (t : ι)
  | sleep (t : ι)
  /-- Without a notification. -/
  | wake (t : ι)
  | resume (t : ι)
  | expire (t : ι)
  | ret (t : ι) (r : ρ)

structure State (ι ℓ σ : Type) where
  data : σ
  /-- The thread that has the mutex. -/
  owner : Option ι
  phase : ι → Phase ℓ

namespace State

variable {ι ℓ σ : Type}

/-- No thread has called anything. -/
def initial (d : σ) : State ι ℓ σ := ⟨d, none, fun _ => .idle⟩

/-- Every thread that is asleep is notified. -/
def notify (s : State ι ℓ σ) : State ι ℓ σ :=
  { s with phase := fun u => match s.phase u with
      | .asleep woken expired => .notified woken expired
      | p => p }

@[simp] theorem notify_data {s : State ι ℓ σ} : s.notify.data = s.data := rfl

@[simp] theorem notify_owner {s : State ι ℓ σ} : s.notify.owner = s.owner := rfl

theorem notify_phase_ne_asleep {s : State ι ℓ σ} {u : ι} {woken : ℓ} {expired : Option ℓ} :
    s.notify.phase u ≠ .asleep woken expired := by
  intro h
  simp only [notify] at h
  split at h
  · cases h
  · rename_i hp
    exact hp _ _ h

/-- A notification matters to sleepers alone. -/
theorem notify_phase_running {s : State ι ℓ σ} {u : ι} {l : ℓ} :
    s.notify.phase u = .running l ↔ s.phase u = .running l := by
  simp only [notify]
  split
  · rename_i hp
    rw [hp]
    constructor <;> intro h <;> cases h
  · rfl

variable [DecidableEq ι]

/-- The thread goes on to a phase. -/
def move (s : State ι ℓ σ) (t : ι) (p : Phase ℓ) : State ι ℓ σ :=
  { s with phase := Function.update s.phase t p }

variable {s : State ι ℓ σ} {t u : ι} {p : Phase ℓ}

@[simp] theorem move_data : (s.move t p).data = s.data := rfl

@[simp] theorem move_owner : (s.move t p).owner = s.owner := rfl

@[simp] theorem move_phase : (s.move t p).phase u = if u = t then p else s.phase u :=
  Function.update_apply _ _ _ _

end State

variable {ι ℓ σ ω ρ : Type} [DecidableEq ι] {code : Code ℓ σ ω ρ}

namespace Code

/-- The steps of the threads. -/
inductive Step (code : Code ℓ σ ω ρ) : State ι ℓ σ → Event ι ω ρ → State ι ℓ σ → Prop
  | call {s : State ι ℓ σ} {t : ι} {op : ω} (at_phase : s.phase t = .idle) :
      code.Step s (.call t op) (s.move t (.running (code.entry op)))
  | lock {s : State ι ℓ σ} {t : ι} {l next : ℓ} (at_phase : s.phase t = .running l)
      (instr : code.instr l = .lock next) (free : s.owner = none) :
      code.Step s (.lock t) { s.move t (.running next) with owner := some t }
  | unlock {s : State ι ℓ σ} {t : ι} {l next : ℓ} (at_phase : s.phase t = .running l)
      (instr : code.instr l = .unlock next) (own : s.owner = some t) :
      code.Step s (.unlock t) { s.move t (.running next) with owner := none }
  | access {s : State ι ℓ σ} {t : ι} {l : ℓ} {f : σ → σ × ℓ} (at_phase : s.phase t = .running l)
      (instr : code.instr l = .access f) :
      code.Step s (.access t) { s.move t (.running (f s.data).2) with data := (f s.data).1 }
  | notifyAll {s : State ι ℓ σ} {t : ι} {l next : ℓ} (at_phase : s.phase t = .running l)
      (instr : code.instr l = .notifyAll next) :
      code.Step s (.notifyAll t) (s.notify.move t (.running next))
  | sleep {s : State ι ℓ σ} {t : ι} {l woken : ℓ} {expired : Option ℓ}
      (at_phase : s.phase t = .running l) (instr : code.instr l = .sleep woken expired)
      (own : s.owner = some t) :
      code.Step s (.sleep t) { s.move t (.asleep woken expired) with owner := none }
  | wake {s : State ι ℓ σ} {t : ι} {woken : ℓ} {expired : Option ℓ}
      (at_phase : s.phase t = .asleep woken expired) :
      code.Step s (.wake t) (s.move t (.running woken))
  | resume {s : State ι ℓ σ} {t : ι} {woken : ℓ} {expired : Option ℓ}
      (at_phase : s.phase t = .notified woken expired) :
      code.Step s (.resume t) (s.move t (.running woken))
  | expire {s : State ι ℓ σ} {t : ι} {woken expired : ℓ}
      (at_phase : s.phase t = .asleep woken (some expired) ∨
        s.phase t = .notified woken (some expired)) :
      code.Step s (.expire t) (s.move t (.running expired))
  | ret {s : State ι ℓ σ} {t : ι} {l : ℓ} {r : ρ} (at_phase : s.phase t = .running l)
      (instr : code.instr l = .ret r) : code.Step s (.ret t r) (s.move t .idle)

end Code

/-- Who is or was asleep went to sleep at some place of the code. -/
def Phase.Slept (code : Code ℓ σ ω ρ) : Phase ℓ → Prop
  | asleep woken expired | notified woken expired => ∃ l, code.instr l = .sleep woken expired
  | _ => True

theorem Code.Step.slept {s s' : State ι ℓ σ} {e : Event ι ω ρ} (h : code.Step s e s')
    (hs : ∀ t, (s.phase t).Slept code) (t : ι) : (s'.phase t).Slept code := by
  have hmove : ∀ {u : ι} {p : Phase ℓ}, p.Slept code → ((s.move u p).phase t).Slept code := by
    intro u p hp
    rw [State.move_phase]
    split
    · exact hp
    · exact hs t
  cases h with
  | @notifyAll u l next at_phase instr =>
    have ht := hs t
    rw [State.move_phase]
    split
    · trivial
    · simp only [State.notify]
      split
      · rename_i hphase
        rwa [hphase] at ht
      · exact ht
  | @sleep u l woken expired at_phase instr own => exact hmove ⟨l, instr⟩
  | _ => exact hmove trivial

theorem slept_of_run {d : σ} {tr : List (Event ι ω ρ)} {s : State ι ℓ σ}
    (h : Run code.Step (State.initial d) tr s) : ∀ t, (s.phase t).Slept code :=
  h.stable (P := fun s => ∀ t, (s.phase t).Slept code) (fun _ _ _ hs hstep => hstep.slept hs)
    (fun _ => trivial)

/-! ## 2. The mutex

`Disciplined` is about code: no run occurs in it.  It fixes which places are between taking and
leaving the mutex, and then the thread at such a place is the owner in every run (`Exclusive`). -/

section Mutex

variable {s s' : State ι ℓ σ} {e : Event ι ω ρ} {t : ι} {tr : List (Event ι ω ρ)}
  {held : ℓ → Bool}

/-- Instruction by instruction: `held l` says that a thread at the place `l` has the mutex. -/
def Instr.Disciplined (held : ℓ → Bool) (l : ℓ) : Instr ℓ σ ρ → Prop
  | lock next => held l = false ∧ held next = true
  | unlock next => held l = true ∧ held next = false
  | access f => ∀ d, held (f d).2 = held l
  | notifyAll next => held next = held l
  | sleep woken expired => held l = true ∧ held woken = false ∧ ∀ x ∈ expired, held x = false
  | ret _ => held l = false

/-- The code takes the mutex only when it does not have it, and the other way round. -/
structure Code.Disciplined (code : Code ℓ σ ω ρ) (held : ℓ → Bool) : Prop where
  entry : ∀ op, held (code.entry op) = false
  instr : ∀ l, (code.instr l).Disciplined held l

/-- A thread in this phase has the mutex. -/
def Phase.holds (held : ℓ → Bool) : Phase ℓ → Bool
  | running l => held l
  | _ => false

/-- Where a thread would go on is a place without the mutex. -/
def Phase.Resumes (held : ℓ → Bool) : Phase ℓ → Prop
  | asleep woken expired | notified woken expired =>
    held woken = false ∧ ∀ x ∈ expired, held x = false
  | _ => True

/-- **The mutex belongs to the thread that is between taking and leaving it**, and who sleeps goes
on without it. -/
structure Exclusive (held : ℓ → Bool) (s : State ι ℓ σ) : Prop where
  owner : ∀ t, (s.phase t).holds held = true ↔ s.owner = some t
  resumes : ∀ t, (s.phase t).Resumes held

omit [DecidableEq ι] in
/-- Two threads never have the mutex. -/
theorem Exclusive.eq (h : Exclusive held s) {u : ι} (ht : (s.phase t).holds held = true)
    (hu : (s.phase u).holds held = true) : t = u := by
  have howner := ((h.owner t).mp ht).symm.trans ((h.owner u).mp hu)
  exact Option.some.inj howner

theorem Exclusive.keep {d : σ} {p : Phase ℓ} (h : Exclusive held s)
    (hp : p.holds held = (s.phase t).holds held) (hresumes : p.Resumes held) :
    Exclusive held { s.move t p with data := d } := by
  constructor
  · intro u
    show ((s.move t p).phase u).holds held = true ↔ s.owner = some u
    rw [State.move_phase, ← h.owner u]
    split
    · rename_i hu
      rw [hp, hu]
    · exact Iff.rfl
  · intro u
    show ((s.move t p).phase u).Resumes held
    rw [State.move_phase]
    split
    · exact hresumes
    · exact h.resumes u

theorem Exclusive.take {next : ℓ} (h : Exclusive held s) (free : s.owner = none)
    (hnext : held next = true) :
    Exclusive held { s.move t (.running next) with owner := some t } := by
  constructor
  · intro u
    show ((s.move t (.running next)).phase u).holds held = true ↔ some t = some u
    rw [State.move_phase]
    by_cases hu : u = t
    · rw [if_pos hu, hu]
      exact ⟨fun _ => rfl, fun _ => hnext⟩
    · rw [if_neg hu, h.owner u, free]
      simp [Ne.symm hu]
  · intro u
    show ((s.move t (.running next)).phase u).Resumes held
    rw [State.move_phase]
    split
    · trivial
    · exact h.resumes u

theorem Exclusive.leave {p : Phase ℓ} (h : Exclusive held s) (own : s.owner = some t)
    (hp : p.holds held = false) (hresumes : p.Resumes held) :
    Exclusive held { s.move t p with owner := none } := by
  constructor
  · intro u
    show ((s.move t p).phase u).holds held = true ↔ none = some u
    rw [State.move_phase]
    by_cases hu : u = t
    · rw [if_pos hu, hp]
      simp
    · rw [if_neg hu, h.owner u, own]
      simp [Ne.symm hu]
  · intro u
    show ((s.move t p).phase u).Resumes held
    rw [State.move_phase]
    split
    · exact hresumes
    · exact h.resumes u

omit [DecidableEq ι] in
theorem Exclusive.notify (h : Exclusive held s) : Exclusive held s.notify := by
  constructor
  · intro u
    rw [State.notify_owner, ← h.owner u]
    simp only [State.notify]
    split
    · rename_i hu
      rw [hu]
      exact Iff.rfl
    · exact Iff.rfl
  · intro u
    have hu := h.resumes u
    simp only [State.notify]
    split
    · rename_i hphase
      rwa [hphase] at hu
    · exact hu

theorem Code.Step.exclusive (hd : code.Disciplined held) (h : code.Step s e s')
    (hi : Exclusive held s) : Exclusive held s' := by
  cases h with
  | call at_phase =>
    refine hi.keep ?_ trivial
    rw [at_phase]
    exact hd.entry _
  | @lock t l next at_phase instr free =>
    have hl := hd.instr l
    rw [instr] at hl
    exact hi.take free hl.2
  | @unlock t l next at_phase instr own =>
    have hl := hd.instr l
    rw [instr] at hl
    exact hi.leave own hl.2 trivial
  | @access t l f at_phase instr =>
    have hl := hd.instr l
    rw [instr] at hl
    refine hi.keep ?_ trivial
    rw [at_phase]
    exact hl s.data
  | @notifyAll t l next at_phase instr =>
    have hl := hd.instr l
    rw [instr] at hl
    refine hi.notify.keep ?_ trivial
    have hphase : s.notify.phase t = .running l := State.notify_phase_running.mpr at_phase
    rw [hphase]
    exact hl
  | @sleep t l woken expired at_phase instr own =>
    have hl := hd.instr l
    rw [instr] at hl
    exact hi.leave own rfl hl.2
  | @wake t woken expired at_phase =>
    have ht := hi.resumes t
    rw [at_phase] at ht
    refine hi.keep ?_ trivial
    rw [at_phase]
    exact ht.1
  | @resume t woken expired at_phase =>
    have ht := hi.resumes t
    rw [at_phase] at ht
    refine hi.keep ?_ trivial
    rw [at_phase]
    exact ht.1
  | @expire t woken expired at_phase =>
    have hresumes : held expired = false := by
      have ht := hi.resumes t
      rcases at_phase with hphase | hphase <;> rw [hphase] at ht <;> exact ht.2 expired rfl
    refine hi.keep ?_ trivial
    rcases at_phase with hphase | hphase <;> rw [hphase] <;> exact hresumes
  | @ret t l r at_phase instr =>
    have hl := hd.instr l
    rw [instr] at hl
    refine hi.keep ?_ trivial
    rw [at_phase]
    exact hl.symm

omit [DecidableEq ι] in
theorem Exclusive.initial {d : σ} : Exclusive held (State.initial d : State ι ℓ σ) := by
  constructor
  · intro t
    simp [State.initial, Phase.holds]
  · intro t
    trivial

/-- **Mutual exclusion, in every run.** -/
theorem Exclusive.of_run {d : σ} (hd : code.Disciplined held)
    (h : Run code.Step (State.initial d) tr s) : Exclusive held s :=
  h.stable (P := Exclusive held) (fun _ _ _ hi hstep => hstep.exclusive hd hi) Exclusive.initial

/-- Steps that a thread takes by itself, in a call: neither a new call nor the end of a sleep that
nobody notified, which may never come. -/
def Event.own : Event ι ω ρ → Bool
  | call _ _ | wake _ | expire _ => false
  | _ => true

/-- **No deadlock.**  As long as a thread runs, some thread has a step to take. -/
theorem exists_step_of_running (hd : code.Disciplined held) (hi : Exclusive held s) {l : ℓ}
    (ht : s.phase t = .running l) : ∃ e s', e.own = true ∧ code.Step s e s' := by
  -- who has the mutex is never at a `lock`
  have hholder : ∀ {u : ι} {m : ℓ}, s.phase u = .running m → held m = true →
      ∃ e s', e.own = true ∧ code.Step s e s' := by
    intro u m hu hm
    have hown : s.owner = some u := (hi.owner u).mp (by rw [hu]; exact hm)
    have hdm := hd.instr m
    cases hinstr : code.instr m with
    | lock next =>
      rw [hinstr] at hdm
      exact absurd (hm.symm.trans hdm.1) (by simp)
    | unlock next => exact ⟨.unlock u, _, rfl, .unlock hu hinstr hown⟩
    | access f => exact ⟨.access u, _, rfl, .access hu hinstr⟩
    | notifyAll next => exact ⟨.notifyAll u, _, rfl, .notifyAll hu hinstr⟩
    | sleep woken expired => exact ⟨.sleep u, _, rfl, .sleep hu hinstr hown⟩
    | ret r => exact ⟨.ret u r, _, rfl, .ret hu hinstr⟩
  by_cases hl : held l = true
  · exact hholder ht hl
  · have hdl := hd.instr l
    cases hinstr : code.instr l with
    | lock next =>
      -- either the mutex is free, or its owner goes on
      cases howner : s.owner with
      | none => exact ⟨.lock t, _, rfl, .lock ht hinstr howner⟩
      | some u =>
        have hu := (hi.owner u).mpr howner
        cases hphase : s.phase u with
        | running m => exact hholder hphase (by rw [hphase] at hu; exact hu)
        | idle => rw [hphase] at hu; cases hu
        | asleep woken expired => rw [hphase] at hu; cases hu
        | notified woken expired => rw [hphase] at hu; cases hu
    | unlock next =>
      rw [hinstr] at hdl
      exact absurd hdl.1 hl
    | access f => exact ⟨.access t, _, rfl, .access ht hinstr⟩
    | notifyAll next => exact ⟨.notifyAll t, _, rfl, .notifyAll ht hinstr⟩
    | sleep woken expired =>
      rw [hinstr] at hdl
      exact absurd hdl.1 hl
    | ret r => exact ⟨.ret t r, _, rfl, .ret ht hinstr⟩

end Mutex

/-! ## 3. What is known of the data

A proof outline with a condition of interference, as for any shared memory; the monitor makes the
condition weaker, as it concerns only pairs of places that are not both under the mutex. -/

section Outline

variable {s s' : State ι ℓ σ} {e : Event ι ω ρ} {t : ι} {tr : List (Event ι ω ρ)}
  {held : ℓ → Bool} {known : ℓ → σ → Prop}

/-- What an instruction passes on to the places it leads to. -/
def Instr.Passes (known : ℓ → σ → Prop) (l : ℓ) : Instr ℓ σ ρ → Prop
  | lock next | unlock next | notifyAll next => ∀ d, known l d → known next d
  | access f => ∀ d, known l d → known (f d).2 (f d).1
  | sleep woken expired => ∀ d, known woken d ∧ ∀ x ∈ expired, known x d
  | ret _ => True

/-- **A proof outline**: what is known at a place follows from what was known before, and no
access of another thread makes it false.  Two threads that both have the mutex do not exist, so
their places do not interfere. -/
structure Outline (code : Code ℓ σ ω ρ) (held : ℓ → Bool) (known : ℓ → σ → Prop) : Prop where
  entry : ∀ op d, known (code.entry op) d
  passes : ∀ l, (code.instr l).Passes known l
  free : ∀ l f m d, code.instr l = .access f → known l d → known m d →
    (held l && held m) = false → known m (f d).1

/-- What a phase knows. -/
def Phase.Knows (known : ℓ → σ → Prop) (d : σ) : Phase ℓ → Prop
  | idle => True
  | running l => known l d
  | asleep woken expired | notified woken expired =>
    ∀ d, known woken d ∧ ∀ x ∈ expired, known x d

/-- Every thread is right about the data. -/
def Informed (known : ℓ → σ → Prop) (s : State ι ℓ σ) : Prop :=
  ∀ t, (s.phase t).Knows known s.data

theorem Informed.set {p : Phase ℓ} {o : Option ι} (h : Informed known s)
    (hp : p.Knows known s.data) : Informed known { s.move t p with owner := o } := by
  intro u
  show ((s.move t p).phase u).Knows known s.data
  rw [State.move_phase]
  split
  · exact hp
  · exact h u

omit [DecidableEq ι] in
theorem Informed.notify (h : Informed known s) : Informed known s.notify := by
  intro u
  have hu := h u
  simp only [State.notify]
  split
  · rename_i hphase
    rwa [hphase] at hu
  · exact hu

/-- The access of one thread, as the others see it. -/
theorem Informed.access {l : ℓ} {f : σ → σ × ℓ} (ho : Outline code held known)
    (hx : Exclusive held s) (h : Informed known s) (at_phase : s.phase t = .running l)
    (instr : code.instr l = .access f) :
    Informed known { s.move t (.running (f s.data).2) with data := (f s.data).1 } := by
  intro u
  show ((s.move t (.running (f s.data).2)).phase u).Knows known (f s.data).1
  have ht : known l s.data := by
    have := h t
    rwa [at_phase] at this
  rw [State.move_phase]
  split
  · have hpasses := ho.passes l
    rw [instr] at hpasses
    exact hpasses s.data ht
  · rename_i hut
    have hu := h u
    cases hphase : s.phase u with
    | idle => trivial
    | running m =>
      rw [hphase] at hu
      refine ho.free l f m s.data instr ht hu ?_
      by_contra hboth
      obtain ⟨hl, hm⟩ := (Bool.and_eq_true _ _).mp (by simpa using hboth)
      exact hut (hx.eq (by rw [hphase]; exact hm) (by rw [at_phase]; exact hl))
    | asleep woken expired => rwa [hphase] at hu
    | notified woken expired => rwa [hphase] at hu

theorem Code.Step.informed (ho : Outline code held known) (h : code.Step s e s')
    (hx : Exclusive held s) (hi : Informed known s) : Informed known s' := by
  cases h with
  | call at_phase => exact hi.set (ho.entry _ _)
  | @lock t l next at_phase instr free =>
    have hpasses := ho.passes l
    have ht := hi t
    rw [instr] at hpasses
    rw [at_phase] at ht
    exact hi.set (hpasses s.data ht)
  | @unlock t l next at_phase instr own =>
    have hpasses := ho.passes l
    have ht := hi t
    rw [instr] at hpasses
    rw [at_phase] at ht
    exact hi.set (hpasses s.data ht)
  | access at_phase instr => exact hi.access ho hx at_phase instr
  | @notifyAll t l next at_phase instr =>
    have hpasses := ho.passes l
    have ht := hi t
    rw [instr] at hpasses
    rw [at_phase] at ht
    exact hi.notify.set (hpasses s.data ht)
  | @sleep t l woken expired at_phase instr own =>
    have hpasses := ho.passes l
    rw [instr] at hpasses
    exact hi.set hpasses
  | @wake t woken expired at_phase =>
    have ht := hi t
    rw [at_phase] at ht
    exact hi.set (ht s.data).1
  | @resume t woken expired at_phase =>
    have ht := hi t
    rw [at_phase] at ht
    exact hi.set (ht s.data).1
  | @expire t woken expired at_phase =>
    have ht := hi t
    have hknown : known expired s.data := by
      rcases at_phase with hphase | hphase <;> rw [hphase] at ht <;>
        exact (ht s.data).2 expired rfl
    exact hi.set hknown
  | ret at_phase instr => exact hi.set trivial

/-- **What the outline says of a place is so whenever a thread is there.** -/
theorem Outline.of_run {d : σ} (hd : code.Disciplined held) (ho : Outline code held known)
    (h : Run code.Step (State.initial d) tr s) : Informed known s := by
  have hboth : Exclusive held s ∧ Informed known s := by
    refine h.stable (P := fun s => Exclusive held s ∧ Informed known s) ?_
      ⟨Exclusive.initial, fun _ => trivial⟩
    rintro s e s' ⟨hx, hi⟩ hstep
    exact ⟨hstep.exclusive hd hx, hstep.informed ho hx hi⟩
  exact hboth.2

end Outline

/-! ## 4. How long a call takes

A thread that is woken and sleeps again takes no bounded number of steps, so the bound is for data
with a property that sends nobody to sleep.  The other threads do not change what a thread has left
to do. -/

section Length

variable {s s' : State ι ℓ σ} {e : Event ι ω ρ} {t : ι} {tr : List (Event ι ω ρ)}
  {held : ℓ → Bool} {known : ℓ → σ → Prop} {rank : ℓ → Nat} {Q : σ → Prop} {bound : Nat}

/-- On data with the property `Q` every step falls in rank, and nobody goes to sleep. -/
def Instr.Falls (rank : ℓ → Nat) (known : ℓ → σ → Prop) (Q : σ → Prop) (l : ℓ) :
    Instr ℓ σ ρ → Prop
  | lock next | unlock next | notifyAll next => rank next < rank l
  | access f => ∀ d, Q d → known l d → rank (f d).2 < rank l
  | sleep _ _ => ∀ d, Q d → ¬ known l d
  | ret _ => 0 < rank l

/-- **The code runs down** once the data has the property `Q`, which no access takes from it. -/
structure Code.RunsDown (code : Code ℓ σ ω ρ) (known : ℓ → σ → Prop) (rank : ℓ → Nat)
    (Q : σ → Prop) (bound : Nat) : Prop where
  entry : ∀ op, rank (code.entry op) ≤ bound
  stable : ∀ l f d, code.instr l = .access f → Q d → Q (f d).1
  falls : ∀ l, (code.instr l).Falls rank known Q l

/-- How many steps are left at most, if nobody goes to sleep. -/
def Phase.left (rank : ℓ → Nat) : Phase ℓ → Nat
  | idle => 0
  | running l => rank l
  | asleep woken expired | notified woken expired => max (rank woken) (expired.elim 0 rank) + 1

/-- The thread an event belongs to. -/
def Event.thread : Event ι ω ρ → ι
  | call t _ | lock t | unlock t | access t | notifyAll t | sleep t | wake t | resume t
  | expire t | ret t _ => t

def Event.isCall : Event ι ω ρ → Bool
  | call _ _ => true
  | _ => false

omit [DecidableEq ι] in
theorem State.notify_left {u : ι} : (s.notify.phase u).left rank = (s.phase u).left rank := by
  simp only [State.notify]
  split
  · rename_i hphase
    rw [hphase]
    rfl
  · rfl

/-- A step of another thread. -/
theorem Code.Step.left_other {u : ι} (h : code.Step s e s') (hu : u ≠ e.thread) :
    (s'.phase u).left rank = (s.phase u).left rank := by
  have hmove : ∀ {p : Phase ℓ}, ((s.move e.thread p).phase u).left rank
      = (s.phase u).left rank := by
    intro p
    rw [State.move_phase, if_neg hu]
  cases h with
  | @notifyAll t l next at_phase instr =>
    have hne : u ≠ t := hu
    rw [State.move_phase, if_neg hne]
    exact State.notify_left
  | _ => exact hmove

/-- A call raises the thread to the rank of the method. -/
theorem Code.Step.left_call {op : ω} (h : code.Step s (.call t op) s') :
    (s'.phase t).left rank = rank (code.entry op) := by
  cases h with
  | call at_phase => rw [State.move_phase, if_pos rfl, Phase.left]

/-- **A thread falls in rank with every step it takes in a call.** -/
theorem Code.Step.left_own (hc : code.RunsDown known rank Q bound) (hi : Informed known s)
    (hq : Q s.data) (h : code.Step s e s') (he : e.isCall = false) :
    (s'.phase e.thread).left rank < (s.phase e.thread).left rank := by
  have hmove : ∀ {p : Phase ℓ}, ((s.move e.thread p).phase e.thread).left rank = p.left rank := by
    intro p
    rw [State.move_phase, if_pos rfl]
  have hfalls : ∀ {l : ℓ} {i : Instr ℓ σ ρ}, code.instr l = i → i.Falls rank known Q l := by
    rintro l _ rfl
    exact hc.falls l
  cases h with
  | call at_phase => cases he
  | lock at_phase instr free =>
    rw [Event.thread, at_phase]
    exact hmove.trans_lt (hfalls instr)
  | unlock at_phase instr own =>
    rw [Event.thread, at_phase]
    exact hmove.trans_lt (hfalls instr)
  | @access t l f at_phase instr =>
    have hknown := hi t
    rw [at_phase] at hknown
    rw [Event.thread, at_phase]
    exact hmove.trans_lt (hfalls instr s.data hq hknown)
  | notifyAll at_phase instr =>
    rw [Event.thread, at_phase, State.move_phase, if_pos rfl]
    exact hfalls instr
  | @sleep t l woken expired at_phase instr own =>
    have hknown := hi t
    rw [at_phase] at hknown
    exact absurd hknown (hfalls instr s.data hq)
  | wake at_phase =>
    rw [Event.thread, at_phase]
    refine hmove.trans_lt ?_
    simp only [Phase.left]
    omega
  | resume at_phase =>
    rw [Event.thread, at_phase]
    refine hmove.trans_lt ?_
    simp only [Phase.left]
    omega
  | expire at_phase =>
    rw [Event.thread]
    refine hmove.trans_lt ?_
    rcases at_phase with at_phase | at_phase <;> rw [at_phase] <;>
      simp only [Phase.left, Option.elim] <;> omega
  | @ret t l r at_phase instr =>
    rw [Event.thread, at_phase]
    exact hmove.trans_lt (hfalls instr)

/-- The thread calls a method. -/
def Event.calls (t : ι) (e : Event ι ω ρ) : Bool := e.thread = t && e.isCall

/-- The thread takes a step in a call. -/
def Event.works (t : ι) (e : Event ι ω ρ) : Bool := e.thread = t && !e.isCall

/-- What a step costs and what it brings, for one thread. -/
theorem Code.Step.left_le (hc : code.RunsDown known rank Q bound) (hi : Informed known s)
    (hq : Q s.data) (h : code.Step s e s') :
    (if e.works t = true then 1 else 0) + (s'.phase t).left rank
      ≤ (s.phase t).left rank + if e.calls t = true then bound else 0 := by
  by_cases ht : e.thread = t
  · subst ht
    cases hcall : e.isCall with
    | true =>
      cases h with
      | @call t op at_phase =>
        have hcalled : code.Step s (.call t op) (s.move t (.running (code.entry op))) :=
          .call at_phase
        have hleft : ((s.move t (.running (code.entry op))).phase t).left rank
            = rank (code.entry op) := hcalled.left_call
        have hentry := hc.entry op
        simp only [Event.works, Event.calls, Event.thread, Event.isCall, decide_true,
          Bool.and_true, Bool.not_true, Bool.and_false, if_true, hleft]
        simp only [Bool.false_eq_true, if_false]
        omega
      | _ => cases hcall
    | false =>
      have hlt := h.left_own hc hi hq hcall
      simp only [Event.works, Event.calls, hcall, decide_true, Bool.not_false, Bool.and_self,
        Bool.and_false, if_true, Bool.false_eq_true, if_false]
      omega
  · have hsame : (s'.phase t).left rank = (s.phase t).left rank := h.left_other (Ne.symm ht)
    simp only [Event.works, Event.calls, ht, decide_false, Bool.false_and, Bool.false_eq_true,
      if_false, hsame]
    omega

theorem Code.Step.data (hc : code.RunsDown known rank Q bound) (h : code.Step s e s')
    (hq : Q s.data) : Q s'.data := by
  cases h with
  | @access t l f at_phase instr => exact hc.stable l f s.data instr hq
  | _ => exact hq

/-- **Every call comes to an end.**  From a state with the property `Q` on, a thread takes no more
steps than its call has left and its new calls bring. -/
theorem Code.RunsDown.works_le (hc : code.RunsDown known rank Q bound)
    (hd : code.Disciplined held) (ho : Outline code held known) (hx : Exclusive held s)
    (hi : Informed known s) (hq : Q s.data) (h : Run code.Step s tr s') (t : ι) :
    tr.countP (Event.works t) + (s'.phase t).left rank
      ≤ (s.phase t).left rank + bound * tr.countP (Event.calls t) := by
  have hinv : (Exclusive held s' ∧ Informed known s' ∧ Q s'.data) ∧
      tr.countP (Event.works t) + (s'.phase t).left rank
        ≤ (s.phase t).left rank + bound * tr.countP (Event.calls t) := by
    induction h with
    | nil =>
      refine ⟨⟨hx, hi, hq⟩, ?_⟩
      simp
    | @snoc tr s₁ s₂ e hrun hnext ih =>
      obtain ⟨⟨hx₁, hi₁, hq₁⟩, hle⟩ := ih
      refine ⟨⟨hnext.exclusive hd hx₁, hnext.informed ho hx₁ hi₁, hnext.data hc hq₁⟩, ?_⟩
      have hstep := hnext.left_le hc hi₁ hq₁ (t := t)
      rw [List.countP_append, List.countP_append, List.countP_singleton, List.countP_singleton]
      have hcalls : bound * (tr.countP (Event.calls t) + if e.calls t = true then 1 else 0)
          = bound * tr.countP (Event.calls t) + if e.calls t = true then bound else 0 := by
        split <;> simp [Nat.mul_add]
      omega
  exact hinv.2

end Length

/-! ## 5. Nobody is left asleep

A notification may be made long after the mutex was left.  Until then the thread that owes it
cannot return, and so a state in which all threads have come to rest has no debts. -/

section Sleepers

variable {s s' : State ι ℓ σ} {e : Event ι ω ρ} {t : ι} {tr : List (Event ι ω ρ)}
  {held : ℓ → Bool} {known : ℓ → σ → Prop} {owes : ℓ → Bool} {Q : σ → Prop}

/-- Sleepers wait for `Q`.  Who makes it true owes a notification, and who owes one does not
return before it is made. -/
def Instr.Pays (known : ℓ → σ → Prop) (owes : ℓ → Bool) (Q : σ → Prop) (l : ℓ) :
    Instr ℓ σ ρ → Prop
  | lock next | unlock next => owes l = true → owes next = true
  | access f => ∀ d, known l d → (owes l = true ∨ ¬ Q d) → Q (f d).1 → owes (f d).2 = true
  | notifyAll _ => True
  | sleep _ _ => ∀ d, known l d → ¬ Q d
  | ret _ => owes l = false

/-- A thread in this phase has yet to notify. -/
def Phase.owing (owes : ℓ → Bool) : Phase ℓ → Bool
  | running l => owes l
  | _ => false

/-- **Who sleeps although `Q` holds is about to be notified.** -/
def Awaited (owes : ℓ → Bool) (Q : σ → Prop) (s : State ι ℓ σ) : Prop :=
  Q s.data → ∀ t woken expired, s.phase t = .asleep woken expired →
    ∃ u, (s.phase u).owing owes = true

/-- A thread that does not go to sleep, and pays what it owes. -/
theorem Awaited.move {p : Phase ℓ} {d : σ} {o : Option ι} (h : Awaited owes Q s)
    (hp : ∀ woken expired, p ≠ .asleep woken expired)
    (hpays : ((s.phase t).owing owes = true ∨ ¬ Q s.data) → Q d → p.owing owes = true) :
    Awaited owes Q { s.move t p with data := d, owner := o } := by
  intro hd u woken expired hu
  have hasleep : (s.move t p).phase u = .asleep woken expired := hu
  have hself : p.owing owes = true → ∃ u, ((s.move t p).phase u).owing owes = true := by
    intro howes
    refine ⟨t, ?_⟩
    rw [State.move_phase, if_pos rfl]
    exact howes
  show ∃ u, ((s.move t p).phase u).owing owes = true
  rw [State.move_phase] at hasleep
  split at hasleep
  · exact absurd hasleep (hp woken expired)
  · by_cases hq : Q s.data
    · obtain ⟨w, hw⟩ := h hq u woken expired hasleep
      by_cases hwt : w = t
      · exact hself (hpays (.inl (hwt ▸ hw)) hd)
      · refine ⟨w, ?_⟩
        rw [State.move_phase, if_neg hwt]
        exact hw
    · exact hself (hpays (.inr hq) hd)

theorem Code.Step.awaited (hpays : ∀ l, (code.instr l).Pays known owes Q l)
    (h : code.Step s e s') (hi : Informed known s) (ha : Awaited owes Q s) :
    Awaited owes Q s' := by
  have hinstr : ∀ {l : ℓ} {i : Instr ℓ σ ρ}, code.instr l = i → i.Pays known owes Q l := by
    rintro l _ rfl
    exact hpays l
  have hno : ∀ {t : ι} {p : Phase ℓ} {b : Prop}, s.phase t = p → p.owing owes = false →
      ((s.phase t).owing owes = true ∨ ¬ Q s.data) → Q s.data → b := by
    rintro t p b hphase hp (howes | hq) hd
    · rw [hphase, hp] at howes
      cases howes
    · exact absurd hd hq
  cases h with
  | call at_phase => exact ha.move (fun _ _ h => by cases h) (hno at_phase rfl)
  | @lock t l next at_phase instr free =>
    refine ha.move (fun _ _ h => by cases h) ?_
    rintro (howes | hq) hd
    · rw [at_phase] at howes
      exact hinstr instr howes
    · exact absurd hd hq
  | @unlock t l next at_phase instr own =>
    refine ha.move (fun _ _ h => by cases h) ?_
    rintro (howes | hq) hd
    · rw [at_phase] at howes
      exact hinstr instr howes
    · exact absurd hd hq
  | @access t l f at_phase instr =>
    have hknown := hi t
    rw [at_phase] at hknown
    refine ha.move (fun _ _ h => by cases h) ?_
    intro howes hd
    rw [at_phase] at howes
    exact hinstr instr s.data hknown howes hd
  | @notifyAll t l next at_phase instr =>
    intro _ u woken expired hu
    rw [State.move_phase] at hu
    split at hu
    · cases hu
    · exact absurd hu State.notify_phase_ne_asleep
  | @sleep t l woken expired at_phase instr own =>
    have hknown := hi t
    rw [at_phase] at hknown
    intro hq
    exact absurd hq (hinstr instr s.data hknown)
  | wake at_phase => exact ha.move (fun _ _ h => by cases h) (hno at_phase rfl)
  | resume at_phase => exact ha.move (fun _ _ h => by cases h) (hno at_phase rfl)
  | expire at_phase =>
    refine ha.move (fun _ _ h => by cases h) ?_
    rcases at_phase with at_phase | at_phase
    · exact hno at_phase rfl
    · exact hno at_phase rfl
  | @ret t l r at_phase instr =>
    exact ha.move (fun _ _ h => by cases h) (hno at_phase (hinstr instr))

/-- In every run. -/
theorem Awaited.of_run {d : σ} (hd : code.Disciplined held) (ho : Outline code held known)
    (hpays : ∀ l, (code.instr l).Pays known owes Q l)
    (h : Run code.Step (State.initial d) tr s) : Awaited owes Q s := by
  have hboth : (Exclusive held s ∧ Informed known s) ∧ Awaited owes Q s := by
    refine h.stable (P := fun s => (Exclusive held s ∧ Informed known s) ∧ Awaited owes Q s) ?_
      ⟨⟨Exclusive.initial, fun _ => trivial⟩, ?_⟩
    · rintro s e s' ⟨⟨hx, hi⟩, ha⟩ hstep
      exact ⟨⟨hstep.exclusive hd hx, hstep.informed ho hx hi⟩, hstep.awaited hpays hi ha⟩
    · intro _ t woken expired ht
      cases ht
  exact hboth.2

/-- Who is outside of a call or asleep has no step to take by itself. -/
theorem not_own_of_quiet (hphase : ∀ t, s.phase t = .idle ∨ ∃ w x, s.phase t = .asleep w x) :
    ¬ ∃ e s', e.own = true ∧ code.Step s e s' := by
  rintro ⟨e, s', hown, hstep⟩
  have hrunning : ∀ t l, s.phase t ≠ .running l := by
    intro t l ht
    rcases hphase t with h | ⟨w, x, h⟩ <;> rw [h] at ht <;> cases ht
  cases hstep with
  | call at_phase => cases hown
  | wake at_phase => cases hown
  | expire at_phase => cases hown
  | @resume t w x at_phase =>
    rcases hphase t with h | ⟨w, x, h⟩ <;> rw [h] at at_phase <;> cases at_phase
  | lock at_phase | unlock at_phase | access at_phase | notifyAll at_phase | sleep at_phase
  | ret at_phase => exact hrunning _ _ at_phase

/-- **When everything stands still**, every thread has returned or is asleep, the mutex is free,
and nobody sleeps if what the sleepers wait for is true. -/
theorem Awaited.quiet (hd : code.Disciplined held) (hx : Exclusive held s)
    (ha : Awaited owes Q s) (hstuck : ¬ ∃ e s', e.own = true ∧ code.Step s e s') :
    s.owner = none ∧ (∀ t, s.phase t = .idle ∨ ∃ w x, s.phase t = .asleep w x) ∧
      (Q s.data → ∀ t, s.phase t = .idle) := by
  have hphase : ∀ t, s.phase t = .idle ∨ ∃ w x, s.phase t = .asleep w x := by
    intro t
    cases hphase : s.phase t with
    | idle => exact .inl rfl
    | running l => exact absurd (exists_step_of_running hd hx hphase) hstuck
    | asleep w x => exact .inr ⟨w, x, rfl⟩
    | notified w x => exact absurd ⟨.resume t, _, rfl, .resume hphase⟩ hstuck
  have hnobody : ∀ t (f : Phase ℓ → Bool), f .idle = false → (∀ w x, f (.asleep w x) = false) →
      f (s.phase t) = false := by
    intro t f hidle hasleep
    rcases hphase t with ht | ⟨w, x, ht⟩ <;> rw [ht]
    · exact hidle
    · exact hasleep w x
  refine ⟨?_, hphase, ?_⟩
  · cases howner : s.owner with
    | none => rfl
    | some t =>
      have hholds := (hx.owner t).mpr howner
      rw [hnobody t (Phase.holds held) rfl (fun _ _ => rfl)] at hholds
      cases hholds
  · intro hq t
    rcases hphase t with ht | ⟨w, x, ht⟩
    · exact ht
    · obtain ⟨u, hu⟩ := ha hq t w x ht
      rw [hnobody u (Phase.owing owes) rfl (fun _ _ => rfl)] at hu
      cases hu

end Sleepers

end Monitor
