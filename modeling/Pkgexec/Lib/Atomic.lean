/-
# Objects with atomic operations, and their histories

An *object* is given by what each of its operations may do in one step: take the object from a
state to a state, and reply.  Clients call operations and receive the replies, any number of
clients at a time; between its call and its reply, each operation takes effect once, in one step
(`Step.effect`).

A *history* is what the clients see: calls and replies, in the order in which they happened.  A
history is *linearizable* when it is one of a run of the object.  An implementation whose steps
are smaller has linearizable histories when every one of its steps is matched by steps of the
object with the same calls and replies (`linearizable_of_simulation`).

The second half is what a client may conclude from a history who knows nothing but the sequential
object: what a reply says about the replies of later calls (`Linearizable.replied_after`) and
about earlier calls (`Linearizable.called_before`), and which replies are given only once
(`Linearizable.replied_once`).
-/
import Pkgexec.Lib.Transition
import Mathlib.Logic.Function.Basic

namespace Atomic

open Transition

/-! ## 1. Objects and histories

A call and its effect are two steps, and so are the effect and the reply: between them other
clients call and take effect, which is all that is concurrent here. -/

/-- What the operations of an object do, each in one step. -/
structure Object (σ ω ρ : Type) where
  initial : σ
  step : ω → σ → ρ → σ → Prop

/-- What a client sees. -/
inductive Action (ι ω ρ : Type)
  | call (t : ι) (op : ω)
  | reply (t : ι) (r : ρ)
  deriving DecidableEq

/-- Where a client is. -/
inductive Place (ω ρ : Type)
  | idle
  | called (op : ω)
  /-- The operation has taken effect. -/
  | done (r : ρ)

/-- What happens to the object. -/
inductive Event (ι ω ρ : Type)
  | call (t : ι) (op : ω)
  | effect (t : ι) (op : ω) (r : ρ)
  | reply (t : ι) (r : ρ)

/-- The part of an event that a client sees. -/
def Event.action {ι ω ρ : Type} : Event ι ω ρ → Option (Action ι ω ρ)
  | call t op => some (.call t op)
  | effect _ _ _ => none
  | reply t r => some (.reply t r)

structure State (ι σ ω ρ : Type) where
  object : σ
  place : ι → Place ω ρ

variable {ι σ ω ρ : Type} [DecidableEq ι] {O : Object σ ω ρ}

/-- A client goes on to a place. -/
def State.move (a : State ι σ ω ρ) (t : ι) (p : Place ω ρ) : State ι σ ω ρ :=
  { a with place := Function.update a.place t p }

@[simp] theorem State.move_object {a : State ι σ ω ρ} {t : ι} {p : Place ω ρ} :
    (a.move t p).object = a.object := rfl

@[simp] theorem State.move_place {a : State ι σ ω ρ} {t u : ι} {p : Place ω ρ} :
    (a.move t p).place u = if u = t then p else a.place u :=
  Function.update_apply _ _ _ _

namespace Object

/-- Nobody has called anything. -/
def start (O : Object σ ω ρ) : State ι σ ω ρ := ⟨O.initial, fun _ => .idle⟩

/-- Calls, effects and replies. -/
inductive Step (O : Object σ ω ρ) : State ι σ ω ρ → Event ι ω ρ → State ι σ ω ρ → Prop
  | call {a : State ι σ ω ρ} {t : ι} {op : ω} (at_place : a.place t = .idle) :
      O.Step a (.call t op) (a.move t (.called op))
  | effect {a : State ι σ ω ρ} {t : ι} {op : ω} {r : ρ} {o : σ}
      (at_place : a.place t = .called op) (happens : O.step op a.object r o) :
      O.Step a (.effect t op r) { a.move t (.done r) with object := o }
  | reply {a : State ι σ ω ρ} {t : ι} {r : ρ} (at_place : a.place t = .done r) :
      O.Step a (.reply t r) (a.move t .idle)

/-- **The clients could have seen this of an object with atomic operations.** -/
def Linearizable (O : Object σ ω ρ) (h : List (Action ι ω ρ)) : Prop :=
  ∃ tr a, Run O.Step O.start tr a ∧ tr.filterMap Event.action = h

end Object

/-! ## 2. Simulation

The steps that match one of the implementation are any number, so the effect may be put wherever it
is known to happen; only calls and replies have to be the same. -/

section Simulation

variable {σ' ε : Type} {step : σ' → ε → σ' → Prop} {s₀ s : σ'} {tr : List ε}
  {action : ε → Option (Action ι ω ρ)}

/-- **An implementation is linearizable** when every step it can reach is matched by steps of the
object, with the same calls and replies. -/
theorem linearizable_of_simulation (R : σ' → State ι σ ω ρ → Prop) (initially : R s₀ O.start)
    (matched : ∀ tr s e s' a, Run step s₀ tr s → R s a → step s e s' →
      ∃ tr' a', Run O.Step a tr' a' ∧ R s' a' ∧ tr'.filterMap Event.action = (action e).toList)
    (h : Run step s₀ tr s) : O.Linearizable (tr.filterMap action) := by
  obtain ⟨tr', a, hrun, -, hhistory⟩ := h.simulate R initially matched
  exact ⟨tr', a, hrun, hhistory⟩

end Simulation

/-! ## 3. What one step can do

By the place of one client: who is about to receive a reply now was so before, or takes effect in
this step. -/

namespace Object.Step

variable {a a' : State ι σ ω ρ} {e : Event ι ω ρ} {u : ι}

/-- A reply is pending since the operation took effect. -/
theorem done {r : ρ} (h : O.Step a e a') (hu : a'.place u = .done r) :
    a.place u = .done r ∨
      ∃ op, e = .effect u op r ∧ a.place u = .called op ∧ O.step op a.object r a'.object := by
  cases h with
  | call at_place =>
    rw [State.move_place] at hu
    split at hu
    · cases hu
    · exact .inl hu
  | @effect t op r' o at_place happens =>
    have hplace : (a.move t (.done r')).place u = .done r := hu
    rw [State.move_place] at hplace
    split at hplace
    · rename_i hut
      subst hut
      cases hplace
      exact .inr ⟨op, rfl, at_place, happens⟩
    · exact .inl hplace
  | reply at_place =>
    rw [State.move_place] at hu
    split at hu
    · cases hu
    · exact .inl hu

/-- An operation is pending since it was called. -/
theorem called {op : ω} (h : O.Step a e a') (hu : a'.place u = .called op) :
    a.place u = .called op ∨ e = .call u op := by
  cases h with
  | call at_place =>
    rw [State.move_place] at hu
    split at hu
    · rename_i hut
      subst hut
      cases hu
      exact .inr rfl
    · exact .inl hu
  | @effect t op' r o at_place happens =>
    have hplace : (a.move t (.done r)).place u = .called op := hu
    rw [State.move_place] at hplace
    split at hplace
    · cases hplace
    · exact .inl hplace
  | reply at_place =>
    rw [State.move_place] at hu
    split at hu
    · cases hu
    · exact .inl hu

/-- The object changes by effects only. -/
theorem object (h : O.Step a e a') :
    a'.object = a.object ∨
      ∃ t op r, a.place t = .called op ∧ O.step op a.object r a'.object := by
  cases h with
  | call at_place => exact .inl rfl
  | @effect t op r o at_place happens => exact .inr ⟨t, op, r, at_place, happens⟩
  | reply at_place => exact .inl rfl

end Object.Step

/-! ## 4. What a client may conclude

From runs.  The property of the object is a parameter throughout, and what has to be shown of it is
about the sequential object alone: that no operation undoes it, and which replies go with it. -/

section Conclusions

variable {a a' : State ι σ ω ρ} {e : Event ι ω ρ} {tr : List (Event ι ω ρ)} {P : σ → Prop}
  {t u : ι} {op : ω} {r : ρ}

/-- A property of the object that no operation undoes. -/
def Object.Stable (O : Object σ ω ρ) (P : σ → Prop) : Prop :=
  ∀ op o r o', P o → O.step op o r o' → P o'

theorem Object.Step.keeps (stable : O.Stable P) (h : O.Step a e a') (hp : P a.object) :
    P a'.object := by
  rcases h.object with hsame | ⟨t, op, r, -, hstep⟩
  · rwa [hsame]
  · exact stable op a.object r a'.object hp hstep

/-- The reply a client is about to receive was given by an object with the property. -/
def RepliesFrom (O : Object σ ω ρ) (P : σ → Prop) (u : ι) (a : State ι σ ω ρ) : Prop :=
  ∀ r, a.place u = .done r → ∃ op o o', P o ∧ O.step op o r o'

theorem Object.Step.repliesFrom (h : O.Step a e a') (hp : P a.object)
    (hu : RepliesFrom O P u a) : RepliesFrom O P u a' := by
  intro r hr
  rcases h.done hr with hbefore | ⟨op, -, -, hstep⟩
  · exact hu r hbefore
  · exact ⟨op, a.object, a'.object, hp, hstep⟩

/-- **Later calls.**  Once a stable property holds of the object, a client that is not in a call
receives only replies that the operations give to objects with that property. -/
theorem replied_after (stable : O.Stable P) (h : Run O.Step a tr a') (hp : P a.object)
    (hidle : a.place u = .idle) (hr : .reply u r ∈ tr) :
    ∃ op o o', P o ∧ O.step op o r o' := by
  obtain ⟨pre, post, rfl⟩ := List.append_of_mem hr
  obtain ⟨a₁, a₂, hpre, hstep, -⟩ := h.step_of_mem
  have hkept : P a₁.object ∧ RepliesFrom O P u a₁ := by
    refine hpre.stable (P := fun a => P a.object ∧ RepliesFrom O P u a) ?_ ⟨hp, ?_⟩
    · rintro a e a' ⟨hobject, hreplies⟩ hnext
      exact ⟨hnext.keeps stable hobject, hnext.repliesFrom hobject hreplies⟩
    · intro r hr
      rw [hidle] at hr
      cases hr
  cases hstep with
  | reply at_place => exact hkept.2 r at_place

/-- **The object when a reply is received**: a stable property that each effect with this reply
leaves behind holds from then on. -/
theorem replied_established (stable : O.Stable P)
    (establishes : ∀ op o o', O.step op o r o' → P o') (h : Run O.Step O.start tr a)
    (hr : .reply t r ∈ tr) : P a.object := by
  obtain ⟨pre, post, rfl⟩ := List.append_of_mem hr
  obtain ⟨a₁, a₂, hpre, hstep, hpost⟩ := h.step_of_mem
  have hpending : a₁.place t = .done r → P a₁.object := by
    refine hpre.stable (P := fun a => a.place t = .done r → P a.object) ?_ ?_
    · intro a e a' hi hnext hdone
      rcases hnext.done hdone with hbefore | ⟨op, -, -, hstep⟩
      · exact hnext.keeps stable (hi hbefore)
      · exact establishes op a.object a'.object hstep
    · intro hdone
      cases hdone
  cases hstep with
  | reply at_place =>
    have hp : P a₁.object := hpending at_place
    exact hpost.stable (P := fun a => P a.object) (fun _ _ _ hp hnext => hnext.keeps stable hp) hp

/-- **Earlier calls.**  A property that does not hold at first, and that only the operation `op`
brings about: when it holds, that operation has been called. -/
theorem called_before (initially : ¬ P O.initial)
    (origin : ∀ op' o r o', ¬ P o → O.step op' o r o' → P o' → op' = op)
    (h : Run O.Step O.start tr a) (hp : P a.object) : ∃ u, .call u op ∈ tr := by
  have hinv : (∀ t op', a.place t = .called op' → .call t op' ∈ tr) ∧
      (P a.object → ∃ u, .call u op ∈ tr) := by
    refine h.invariant (I := fun tr a => (∀ t op', a.place t = .called op' → .call t op' ∈ tr) ∧
      (P a.object → ∃ u, .call u op ∈ tr)) ⟨?_, ?_⟩ ?_
    · intro t op' ht
      cases ht
    · intro hp
      exact absurd hp initially
    · rintro tr a e a' ⟨hpending, hobject⟩ hnext
      constructor
      · intro t op' ht
        rcases hnext.called ht with hbefore | rfl
        · exact List.mem_append_left _ (hpending t op' hbefore)
        · exact List.mem_append_right _ (List.mem_singleton.mpr rfl)
      · intro hp
        by_cases hbefore : P a.object
        · obtain ⟨w, hw⟩ := hobject hbefore
          exact ⟨w, List.mem_append_left _ hw⟩
        · rcases hnext.object with hsame | ⟨t, op', r, hcalled, hstep⟩
          · exact absurd (hsame ▸ hp) hbefore
          · obtain rfl := origin op' a.object r a'.object hbefore hstep hp
            exact ⟨t, List.mem_append_left _ (hpending t op' hcalled)⟩
  exact hinv.2 hp

/-- What ties a reply that is given once to the run: how often it was received, and who is about
to receive it. -/
structure Single (P : σ → Prop) (r : ρ) (received : Nat) (a : State ι σ ω ρ) : Prop where
  most : received ≤ 1
  pending : ∀ t, a.place t = .done r → P a.object ∧ received = 0
  one : ∀ t u, a.place t = .done r → a.place u = .done r → t = u
  settled : received = 1 → P a.object

/-- Whether an event is the reply `r`. -/
def Event.replies [DecidableEq ρ] (r : ρ) : Event ι ω ρ → Bool
  | reply _ r' => r' = r
  | _ => false

/-- Somebody receives the reply, and then nobody is about to. -/
theorem Single.received {k : Nat} (hi : Single P r k a) (at_place : a.place t = .done r) :
    Single P r (k + 1) (a.move t .idle) := by
  obtain ⟨hp, rfl⟩ := hi.pending t at_place
  have hnone : ∀ u, (a.move t .idle).place u ≠ .done r := by
    intro u hu
    rw [State.move_place] at hu
    split at hu
    · cases hu
    · rename_i hut
      exact hut (hi.one u t hu at_place)
  refine ⟨Nat.le_refl 1, ?_, ?_, fun _ => hp⟩
  · intro u hu
    exact absurd hu (hnone u)
  · intro u _ hu
    exact absurd hu (hnone u)

/-- In any other step, who comes to be about to receive the reply has just taken effect. -/
theorem Single.kept {k : Nat} (stable : O.Stable P)
    (once : ∀ op o o', O.step op o r o' → ¬ P o ∧ P o') (hi : Single P r k a)
    (hnext : O.Step a e a') : Single P r k a' := by
  have hfresh : ∀ op, O.step op a.object r a'.object → (∀ w, a.place w ≠ .done r) ∧ k = 0 := by
    intro op hstep
    have hunset : ¬ P a.object := (once op _ _ hstep).1
    constructor
    · intro w hw
      exact hunset (hi.pending w hw).1
    · have hne : k ≠ 1 := fun hone => hunset (hi.settled hone)
      have := hi.most
      omega
  refine ⟨hi.most, ?_, ?_, fun hone => hnext.keeps stable (hi.settled hone)⟩
  · intro t ht
    rcases hnext.done ht with hbefore | ⟨op, -, -, hstep⟩
    · exact ⟨hnext.keeps stable (hi.pending t hbefore).1, (hi.pending t hbefore).2⟩
    · exact ⟨(once op _ _ hstep).2, (hfresh op hstep).2⟩
  · intro t u ht hu
    rcases hnext.done ht with htb | ⟨op, he, -, hstep⟩
    · rcases hnext.done hu with hub | ⟨op', -, -, hstep'⟩
      · exact hi.one t u htb hub
      · exact absurd htb ((hfresh op' hstep').1 t)
    · rcases hnext.done hu with hub | ⟨op', he', -, -⟩
      · exact absurd hub ((hfresh op hstep).1 u)
      · rw [he] at he'
        cases he'
        rfl

/-- **A reply that is given once.**  If the effects with the reply `r` lead from objects without a
stable property to objects with it, no run has two such replies. -/
theorem replied_once [DecidableEq ρ] (stable : O.Stable P)
    (once : ∀ op o o', O.step op o r o' → ¬ P o ∧ P o') (h : Run O.Step O.start tr a) :
    tr.countP (Event.replies r) ≤ 1 := by
  have hinv : Single P r (tr.countP (Event.replies r)) a := by
    refine h.invariant (I := fun tr a => Single P r (tr.countP (Event.replies r)) a) ?_ ?_
    · refine ⟨by simp, ?_, ?_, by simp⟩
      · intro t ht
        cases ht
      · intro t u ht
        cases ht
    · intro tr a e a' hi hnext
      rw [List.countP_append, List.countP_singleton]
      by_cases hreply : e.replies r = true
      · rw [if_pos hreply]
        cases hnext with
        | call at_place => cases hreply
        | effect at_place happens => cases hreply
        | @reply t r' at_place =>
          obtain rfl : r' = r := of_decide_eq_true hreply
          exact hi.received at_place
      · rw [if_neg hreply]
        exact hi.kept stable once hnext
  exact hinv.most

end Conclusions

/-! ## 5. Histories

The same conclusions from histories: the run is cut where the history is, and what is said of its
events is said of what the clients see. -/

section Histories

variable {h pre post : List (Action ι ω ρ)} {tr : List (Event ι ω ρ)} {P : σ → Prop} {t u : ι}
  {op : ω} {r r' : ρ}

omit [DecidableEq ι] in
theorem Event.eq_call {e : Event ι ω ρ} (h : e.action = some (.call t op)) : e = .call t op := by
  cases e <;> cases h
  rfl

omit [DecidableEq ι] in
theorem Event.eq_reply {e : Event ι ω ρ} (h : e.action = some (.reply t r)) : e = .reply t r := by
  cases e <;> cases h
  rfl

omit [DecidableEq ι] in
/-- A run is cut where its history is. -/
theorem exists_cut {x : Action ι ω ρ} (h : tr.filterMap Event.action = pre ++ x :: post) :
    ∃ tr₁ e tr₂, tr = tr₁ ++ e :: tr₂ ∧ e.action = some x ∧
      tr₁.filterMap Event.action = pre ∧ tr₂.filterMap Event.action = post := by
  obtain ⟨tr₁, tr₂, rfl, hpre, hrest⟩ := List.filterMap_eq_append_iff.mp h
  obtain ⟨silent, e, tr₃, rfl, hsilent, he, hpost⟩ := List.filterMap_eq_cons_iff.mp hrest
  refine ⟨tr₁ ++ silent, e, tr₃, by simp, he, ?_, hpost⟩
  rw [List.filterMap_append, hpre, List.filterMap_eq_nil_iff.mpr hsilent, List.append_nil]

omit [DecidableEq ι] in
theorem reply_mem_of_history (h : .reply t r ∈ tr.filterMap Event.action) : .reply t r ∈ tr := by
  obtain ⟨e, he, haction⟩ := List.mem_filterMap.mp h
  rwa [← Event.eq_reply haction]

/-- **A reply is about all later calls**: what it says for good of the object, their replies agree
with. -/
theorem Object.Linearizable.replied_after (stable : O.Stable P)
    (establishes : ∀ op o o', O.step op o r o' → P o')
    (h : O.Linearizable (pre ++ .call u op :: post)) (hr : .reply t r ∈ pre)
    (hr' : .reply u r' ∈ post) : ∃ op o o', P o ∧ O.step op o r' o' := by
  obtain ⟨tr, a, hrun, hhistory⟩ := h
  obtain ⟨tr₁, e, tr₂, rfl, he, hpre, hpost⟩ := exists_cut hhistory
  obtain rfl := Event.eq_call he
  subst hpre hpost
  obtain ⟨a₁, a₂, hfirst, hcall, hsecond⟩ := hrun.step_of_mem
  have hp : P a₁.object :=
    replied_established stable establishes hfirst (reply_mem_of_history hr)
  have hidle : a₁.place u = .idle := by
    cases hcall with
    | call at_place => exact at_place
  have hrest : Run O.Step a₁ ([] ++ [.call u op] ++ tr₂) a := (Run.nil.snoc hcall).append hsecond
  refine Atomic.replied_after stable hrest hp hidle ?_
  exact List.mem_append_right _ (reply_mem_of_history hr')

/-- **A reply is about earlier calls**: what it says of the object, one of them has brought
about. -/
theorem Object.Linearizable.called_before (stable : O.Stable P) (initially : ¬ P O.initial)
    (origin : ∀ op' o r o', ¬ P o → O.step op' o r o' → P o' → op' = op)
    (establishes : ∀ op o o', O.step op o r o' → P o')
    (h : O.Linearizable (pre ++ .reply t r :: post)) : ∃ u, .call u op ∈ pre := by
  obtain ⟨tr, a, hrun, hhistory⟩ := h
  obtain ⟨tr₁, e, tr₂, rfl, he, hpre, -⟩ := exists_cut hhistory
  obtain rfl := Event.eq_reply he
  subst hpre
  obtain ⟨a₁, a₂, hfirst, hreply, -⟩ := hrun.step_of_mem
  have hboth : P a₂.object :=
    replied_established stable establishes (hfirst.snoc hreply)
      (List.mem_append_right _ (List.mem_singleton.mpr rfl))
  have hp : P a₁.object := by
    cases hreply with
    | reply at_place => exact hboth
  obtain ⟨u, hu⟩ := Atomic.called_before initially origin hfirst hp
  exact ⟨u, List.mem_filterMap.mpr ⟨_, hu, rfl⟩⟩

/-- Whether a client receives the reply `r`. -/
def Action.replies [DecidableEq ρ] (r : ρ) : Action ι ω ρ → Bool
  | reply _ r' => r' = r
  | _ => false

/-- **A reply that is given once.** -/
theorem Object.Linearizable.replied_once [DecidableEq ρ] (stable : O.Stable P)
    (once : ∀ op o o', O.step op o r o' → ¬ P o ∧ P o') (hlin : O.Linearizable h) :
    h.countP (Action.replies r) ≤ 1 := by
  obtain ⟨tr, a, hrun, rfl⟩ := hlin
  have hcount : (tr.filterMap Event.action).countP (Action.replies r)
      = tr.countP (Event.replies r) := by
    rw [List.countP_filterMap]
    congr 1
    funext e
    cases e <;> rfl
  rw [hcount]
  exact Atomic.replied_once stable once hrun

end Histories

end Atomic
