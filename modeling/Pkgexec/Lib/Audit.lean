/-
# Computations under audit

A computation with a state may do something on its way that its result does not show: a
difference that wraps around, a cast that drops bits, an access outside an array.  Under audit
it also keeps a log of such steps, and hands over the log and the state even where it stops with
an error.

* Section 1: the computations.  `watch` writes to the log what the state shows, `lift` runs a
  step that has nothing to log, `call` asks a component outside and logs what it answers, `stop`
  ends with an error.
* Section 2: `erase` forgets the log.  It commutes with everything, so an audited program is
  compared with the plain one operation by operation.
* Section 3: what there is to observe about machine words and arrays.
-/
import Mathlib.Algebra.Ring.Nat
import Mathlib.Data.List.Basic

namespace Audit

variable {ω σ ε α β : Type}

/-! ## 1. Computations with a log

The log and the state are outside of the `Except`, so a computation that fails has both, as they
were where it stopped. -/

/-- What a run leaves behind. -/
structure Trace (ω σ ε α : Type) where
  log : List ω
  result : Except ε α
  /-- The last state, also when the run stopped with an error. -/
  state : σ

/-- A computation with state `σ` that logs entries `ω`. -/
def AuditM (ω σ ε α : Type) : Type := σ → Trace ω σ ε α

namespace AuditM

/-- The second computation starts where the first ended, and its log comes after. -/
def andThen (m : AuditM ω σ ε α) (f : α → AuditM ω σ ε β) : AuditM ω σ ε β := fun s =>
  match (m s).result with
  | .ok a =>
    ⟨(m s).log ++ (f a (m s).state).log, (f a (m s).state).result, (f a (m s).state).state⟩
  | .error e => ⟨(m s).log, .error e, (m s).state⟩

instance : Monad (AuditM ω σ ε) where
  pure a := fun s => ⟨[], .ok a, s⟩
  bind := andThen

/-- Logs what the state shows. -/
def watch (f : σ → List ω) : AuditM ω σ ε Unit := fun s => ⟨f s, .ok (), s⟩

/-- Runs a step without a log.  A step that fails leaves the state alone. -/
def lift (m : StateT σ (Except ε) α) : AuditM ω σ ε α := fun s =>
  match m s with
  | .ok (a, s') => ⟨[], .ok a, s'⟩
  | .error e => ⟨[], .error e, s⟩

/-- Asks a component that is part of the state, and logs its answer. -/
def call (f : σ → β × σ) (entry : β → ω) : AuditM ω σ ε β := fun s =>
  ⟨[entry (f s).1], .ok (f s).1, (f s).2⟩

/-- Ends with an error. -/
def stop (e : ε) : AuditM ω σ ε α := fun s => ⟨[], .error e, s⟩

theorem bind_of_ok {m : AuditM ω σ ε α} {f : α → AuditM ω σ ε β} {s : σ} {a : α}
    (h : (m s).result = .ok a) :
    (m >>= f) s = ⟨(m s).log ++ (f a (m s).state).log, (f a (m s).state).result,
      (f a (m s).state).state⟩ := by
  change andThen m f s = _
  rw [andThen, h]

theorem bind_of_error {m : AuditM ω σ ε α} {f : α → AuditM ω σ ε β} {s : σ} {e : ε}
    (h : (m s).result = .error e) : (m >>= f) s = ⟨(m s).log, .error e, (m s).state⟩ := by
  change andThen m f s = _
  rw [andThen, h]

theorem lift_of_ok {m : StateT σ (Except ε) α} {s s' : σ} {a : α} (h : m s = .ok (a, s')) :
    (lift m : AuditM ω σ ε α) s = ⟨[], .ok a, s'⟩ := by
  rw [lift, h]

theorem lift_of_error {m : StateT σ (Except ε) α} {s : σ} {e : ε} (h : m s = .error e) :
    (lift m : AuditM ω σ ε α) s = ⟨[], .error e, s⟩ := by
  rw [lift, h]

theorem watch_bind (f : σ → List ω) (k : Unit → AuditM ω σ ε β) (s : σ) :
    (watch f >>= k) s = ⟨f s ++ (k () s).log, (k () s).result, (k () s).state⟩ :=
  bind_of_ok rfl

theorem call_bind (f : σ → β × σ) (entry : β → ω) (k : β → AuditM ω σ ε α) (s : σ) :
    (call f entry >>= k) s = ⟨entry (f s).1 :: (k (f s).1 (f s).2).log,
      (k (f s).1 (f s).2).result, (k (f s).1 (f s).2).state⟩ :=
  bind_of_ok rfl

theorem lift_bind_of_ok {m : StateT σ (Except ε) α} {k : α → AuditM ω σ ε β} {s s' : σ} {a : α}
    (h : m s = .ok (a, s')) : (lift m >>= k) s = k a s' := by
  have hlift : (lift m : AuditM ω σ ε α) s = ⟨[], .ok a, s'⟩ := lift_of_ok h
  have hresult : ((lift m : AuditM ω σ ε α) s).result = .ok a := by rw [hlift]
  rw [bind_of_ok hresult, hlift]
  rfl

theorem lift_bind_of_error {m : StateT σ (Except ε) α} {k : α → AuditM ω σ ε β} {s : σ} {e : ε}
    (h : m s = .error e) : (lift m >>= k) s = ⟨[], .error e, s⟩ := by
  have hlift : (lift m : AuditM ω σ ε α) s = ⟨[], .error e, s⟩ := lift_of_error h
  have hresult : ((lift m : AuditM ω σ ε α) s).result = .error e := by rw [hlift]
  rw [bind_of_error hresult, hlift]

/-! ## 2. Forgetting the log

An audited program is faithful when it erases to the plain one.  That is proved by going through
its text, as `erase` goes through sequences and loops; then the result of the audited run is that
of the plain one, and so is the state where the run succeeds. -/

/-- The computation without its log. -/
def erase (m : AuditM ω σ ε α) : StateT σ (Except ε) α := fun s =>
  match (m s).result with
  | .ok a => .ok (a, (m s).state)
  | .error e => .error e

theorem erase_of_ok {m : AuditM ω σ ε α} {s : σ} {a : α} (h : (m s).result = .ok a) :
    m.erase s = .ok (a, (m s).state) := by
  rw [erase, h]

theorem erase_of_error {m : AuditM ω σ ε α} {s : σ} {e : ε} (h : (m s).result = .error e) :
    m.erase s = .error e := by
  rw [erase, h]

/-- The result, from the computation without its log. -/
theorem result_eq (m : AuditM ω σ ε α) (s : σ) : (m s).result = (m.erase s).map Prod.fst := by
  cases h : (m s).result with
  | ok a =>
    rw [erase_of_ok h]
    rfl
  | error e =>
    rw [erase_of_error h]
    rfl

/-- The state, from a run of the computation without its log that succeeds. -/
theorem state_of_erase {m : AuditM ω σ ε α} {s s' : σ} {a : α} (h : m.erase s = .ok (a, s')) :
    (m s).state = s' := by
  cases hresult : (m s).result with
  | ok b =>
    rw [erase_of_ok hresult] at h
    exact congrArg Prod.snd (Except.ok.inj h)
  | error e =>
    rw [erase_of_error hresult] at h
    exact absurd h (by simp)

@[simp] theorem erase_pure (a : α) : erase (pure a : AuditM ω σ ε α) = pure a := rfl

@[simp] theorem erase_bind (m : AuditM ω σ ε α) (f : α → AuditM ω σ ε β) :
    erase (m >>= f) = erase m >>= fun a => erase (f a) := by
  funext s
  change erase (m >>= f) s = (erase m s >>= fun x => erase (f x.1) x.2)
  cases h : (m s).result with
  | ok a =>
    rw [erase_of_ok h, erase, bind_of_ok h]
    rfl
  | error e =>
    have hbind : ((m >>= f) s).result = .error e := by rw [bind_of_error h]
    rw [erase_of_error h, erase_of_error hbind]
    rfl

@[simp] theorem erase_watch (f : σ → List ω) :
    erase (watch f : AuditM ω σ ε Unit) = pure () := rfl

@[simp] theorem erase_lift (m : StateT σ (Except ε) α) :
    erase (lift m : AuditM ω σ ε α) = m := by
  funext s
  cases h : m s with
  | ok p =>
    obtain ⟨a, s'⟩ := p
    rw [erase, lift_of_ok h]
  | error e => rw [erase, lift_of_error h]

@[simp] theorem erase_forM (l : List α) (f : α → AuditM ω σ ε PUnit) :
    erase (l.forM f) = l.forM (fun a => erase (f a)) := by
  induction l with
  | nil => rfl
  | cons a l ih =>
    change erase (f a >>= fun _ => l.forM f) = (erase (f a) >>= fun _ => l.forM _)
    rw [erase_bind, ih]

end AuditM

/-! ## 3. Words and arrays

An entry has the numbers as they were before the step, so that whether the step went wrong can be
read off it. -/

/-- A step on unsigned words or on an array that could go wrong. -/
inductive Observation
  /-- `a - b`. -/
  | difference (a b : Nat)
  /-- A size cast to so many bits. -/
  | narrow (bits size : Nat)
  /-- An access at an index. -/
  | read (index : Nat)

/-- The difference does not wrap around and the cast drops nothing. -/
def Observation.Exact : Observation → Prop
  | .difference a b => b ≤ a
  | .narrow bits size => size < 2 ^ bits
  | .read _ => True

/-- The indices accessed, in order. -/
def reads (log : List Observation) : List Nat :=
  log.filterMap (fun | .read index => some index | _ => none)

@[simp] theorem reads_append (l l' : List Observation) : reads (l ++ l') = reads l ++ reads l' :=
  List.filterMap_append

@[simp] theorem reads_cons_difference (a b : Nat) (l : List Observation) :
    reads (.difference a b :: l) = reads l := rfl

@[simp] theorem reads_map_read (f : Nat → Nat) (l : List Nat) :
    reads (l.map (fun i => .read (f i))) = l.map f := by
  simp [reads, List.filterMap_map]

@[simp] theorem mem_reads {index : Nat} {log : List Observation} :
    index ∈ reads log ↔ .read index ∈ log := by
  simp only [reads, List.mem_filterMap]
  constructor
  · rintro ⟨o, ho, heq⟩
    cases o with
    | read i =>
      obtain rfl := Option.some.inj heq
      exact ho
    | difference a b => exact absurd heq (by simp)
    | narrow bits size => exact absurd heq (by simp)
  · intro h
    exact ⟨_, h, rfl⟩

end Audit
