/-
# Linearization points

Methods over a mutex and a condition variable implement an object with atomic operations when
each call has one access at which its operation takes effect, and every other instruction leaves
the object alone.  Which access that is may depend on what it finds.

`Points` is this condition, place by place: `place l` says of a thread at the place `l` whether
its operation has yet to take effect, or which reply it is about to give.  `Points.linearizable`
is the result for every run.
-/
import Pkgexec.Lib.Monitor
import Pkgexec.Lib.Atomic

namespace Monitor

open Transition Atomic

variable {ι ℓ σ σ' ω ρ : Type} [DecidableEq ι] {code : Code ℓ σ ω ρ} {O : Object σ' ω ρ}
  {held : ℓ → Bool} {known : ℓ → σ → Prop} {place : ℓ → Place ω ρ} {object : σ → σ'}

/-- What an instruction does to the object: nothing, or the whole operation at one access. -/
def Instr.Takes (O : Object σ' ω ρ) (known : ℓ → σ → Prop) (place : ℓ → Place ω ρ)
    (object : σ → σ') (l : ℓ) : Instr ℓ σ ρ → Prop
  | lock next | unlock next | notifyAll next => place next = place l
  | access f => ∀ d, known l d →
      (place (f d).2 = place l ∧ object (f d).1 = object d) ∨
        ∃ op r, place l = .called op ∧ place (f d).2 = .done r ∧
          O.step op (object d) r (object (f d).1)
  | sleep woken expired => place woken = place l ∧ ∀ x ∈ expired, place x = place l
  | ret r => place l = .done r

/-- **Linearization points.** -/
structure Points (code : Code ℓ σ ω ρ) (O : Object σ' ω ρ) (known : ℓ → σ → Prop)
    (place : ℓ → Place ω ρ) (object : σ → σ') : Prop where
  entry : ∀ op, place (code.entry op) = .called op
  instr : ∀ l, (code.instr l).Takes O known place object l

/-- What a client sees of an event. -/
def Event.action : Event ι ω ρ → Option (Action ι ω ρ)
  | call t op => some (.call t op)
  | ret t r => some (.reply t r)
  | _ => none

/-- The place a phase stands for. -/
def Phase.StandsFor (place : ℓ → Place ω ρ) (q : Place ω ρ) : Phase ℓ → Prop
  | idle => q = .idle
  | running l => q = place l
  | asleep woken expired | notified woken expired =>
    q = place woken ∧ ∀ x ∈ expired, q = place x

/-- The object, as the threads hold it. -/
structure Implements (place : ℓ → Place ω ρ) (object : σ → σ') (s : State ι ℓ σ)
    (a : Atomic.State ι σ' ω ρ) : Prop where
  object : a.object = object s.data
  place : ∀ t, (s.phase t).StandsFor place (a.place t)

variable {s s' : State ι ℓ σ} {a : Atomic.State ι σ' ω ρ} {t : ι}

/-- The object and the place of one thread change. -/
theorem Implements.set {p : Phase ℓ} {q : Place ω ρ} {d : σ} {o : Option ι} {x : σ'}
    (h : Implements place object s a) (hx : x = object d) (hp : p.StandsFor place q) :
    Implements place object { s.move t p with data := d, owner := o }
      { a.move t q with object := x } := by
  constructor
  · exact hx
  · intro u
    show ((s.move t p).phase u).StandsFor place ((a.move t q).place u)
    rw [State.move_phase, Atomic.State.move_place]
    split
    · exact hp
    · exact h.place u

/-- A step that the object does not notice. -/
theorem Implements.stay {p : Phase ℓ} {d : σ} {o : Option ι} (h : Implements place object s a)
    (hd : object d = object s.data) (hp : p.StandsFor place (a.place t)) :
    Implements place object { s.move t p with data := d, owner := o } a := by
  constructor
  · rw [h.object]
    exact hd.symm
  · intro u
    show ((s.move t p).phase u).StandsFor place (a.place u)
    rw [State.move_phase]
    split
    · rename_i hu
      rw [hu]
      exact hp
    · exact h.place u

omit [DecidableEq ι] in
theorem Implements.notify (h : Implements place object s a) :
    Implements place object s.notify a := by
  refine ⟨h.object, ?_⟩
  intro u
  have hu := h.place u
  simp only [State.notify]
  split
  · rename_i hphase
    rwa [hphase] at hu
  · exact hu

/-- **One step of a thread is at most one step of the object.** -/
theorem Code.Step.implements {e : Event ι ω ρ} (hp : Points code O known place object)
    (hi : Informed known s) (h : code.Step s e s') (ha : Implements place object s a) :
    ∃ tr a', Run O.Step a tr a' ∧ Implements place object s' a' ∧
      tr.filterMap Atomic.Event.action = e.action.toList := by
  have hinstr : ∀ {l : ℓ} {i : Instr ℓ σ ρ}, code.instr l = i →
      i.Takes O known place object l := by
    rintro l _ rfl
    exact hp.instr l
  have hplace : ∀ {t : ι} {l : ℓ}, s.phase t = .running l → a.place t = place l := by
    intro t l hphase
    have ht := ha.place t
    rwa [hphase] at ht
  cases h with
  | @call t op at_phase =>
    have hidle : a.place t = .idle := by
      have ht := ha.place t
      rwa [at_phase] at ht
    exact ⟨_, _, Run.nil.snoc (.call hidle), ha.set ha.object (hp.entry op).symm, rfl⟩
  | @lock t l next at_phase instr free =>
    refine ⟨[], a, .nil, ha.stay rfl ?_, rfl⟩
    exact (hplace at_phase).trans (hinstr instr).symm
  | @unlock t l next at_phase instr own =>
    refine ⟨[], a, .nil, ha.stay rfl ?_, rfl⟩
    exact (hplace at_phase).trans (hinstr instr).symm
  | @access t l f at_phase instr =>
    have hknown : known l s.data := by
      have ht := hi t
      rwa [at_phase] at ht
    rcases hinstr instr s.data hknown with ⟨hsame, hobject⟩ | ⟨op, r, hcalled, hdone, hstep⟩
    · refine ⟨[], a, .nil, ha.stay hobject ?_, rfl⟩
      exact (hplace at_phase).trans hsame.symm
    · have hpending : a.place t = .called op := (hplace at_phase).trans hcalled
      rw [← ha.object] at hstep
      exact ⟨_, _, Run.nil.snoc (.effect hpending hstep), ha.set rfl hdone.symm, rfl⟩
  | @notifyAll t l next at_phase instr =>
    refine ⟨[], a, .nil, ha.notify.stay rfl ?_, rfl⟩
    exact (hplace at_phase).trans (hinstr instr).symm
  | @sleep t l woken expired at_phase instr own =>
    obtain ⟨hwoken, hexpired⟩ := hinstr instr
    refine ⟨[], a, .nil, ha.stay rfl ⟨(hplace at_phase).trans hwoken.symm, ?_⟩, rfl⟩
    intro x hx
    exact (hplace at_phase).trans (hexpired x hx).symm
  | @wake t woken expired at_phase =>
    have ht := ha.place t
    rw [at_phase] at ht
    exact ⟨[], a, .nil, ha.stay rfl ht.1, rfl⟩
  | @resume t woken expired at_phase =>
    have ht := ha.place t
    rw [at_phase] at ht
    exact ⟨[], a, .nil, ha.stay rfl ht.1, rfl⟩
  | @expire t woken expired at_phase =>
    have ht := ha.place t
    have hexpired : a.place t = place expired := by
      rcases at_phase with at_phase | at_phase <;> rw [at_phase] at ht <;> exact ht.2 expired rfl
    exact ⟨[], a, .nil, ha.stay rfl hexpired, rfl⟩
  | @ret t l r at_phase instr =>
    have hdone : a.place t = .done r := (hplace at_phase).trans (hinstr instr)
    exact ⟨_, _, Run.nil.snoc (.reply hdone), ha.set ha.object rfl, rfl⟩

/-- **Code with linearization points is linearizable.** -/
theorem Points.linearizable {d : σ} {tr : List (Event ι ω ρ)}
    (hp : Points code O known place object) (hd : code.Disciplined held)
    (ho : Outline code held known) (hinitial : O.initial = object d)
    (h : Run code.Step (State.initial d) tr s) : O.Linearizable (tr.filterMap Event.action) := by
  have hstart : Implements place object (State.initial d : State ι ℓ σ) O.start :=
    ⟨hinitial, fun _ => rfl⟩
  refine linearizable_of_simulation (Implements place object) hstart ?_ h
  intro tr s e s' a hrun ha hstep
  exact hstep.implements hp (ho.of_run hd hrun) ha

end Monitor
