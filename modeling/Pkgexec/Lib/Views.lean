/-
# A release/acquire memory

A location has messages, in an order of its own.  A thread has a view, how far it has come at each
location: it loads any message that is not behind its view, and so perhaps an old value, and
stores ahead of it.  What a thread knows goes on with a message, if the store releases, and
reaches whoever loads the message, if the load acquires.  A mutex passes on what was known where
it was left.  Nothing is loaded or stored ahead of the code.

If a location is stored under a mutex, releasing, and loaded without it only acquiring, then
whoever has come to a message knows what was known where it was stored (`Memory.Synced`), and
under the mutex a load finds the last message (`Memory.Latest`).
-/
import Mathlib.Order.BoundedOrder.Lattice

namespace Views

/-! ## 1. Memory

The order of the messages of a location is that of `T`, which is the same for all locations and
need not be discrete: a message may come between two others. -/

/-- How far one has come at each location. -/
abbrev View (Loc T : Type) : Type := Loc → T

structure Message (Loc T α : Type) where
  value : α
  view : View Loc T

structure Memory (ι Loc T : Type) (V : Loc → Type) where
  messages : (y : Loc) → T → Option (Message Loc T (V y))
  view : ι → View Loc T
  /-- Of the thread that left the mutex last, there. -/
  mutex : View Loc T

/-! ### Views

A view is a function and its order is that of functions, so to learn is to take a join.  The four
operations are `learn`, `put`, a load and a store; the last two are relations, as a load may find
several messages and a store several places. -/

section Points

variable {Loc T : Type} [DecidableEq Loc] [LinearOrder T] [OrderBot T] {y z : Loc} {n : T}
  {W : View Loc T}

/-- One message of one location. -/
def point (y : Loc) (n : T) : View Loc T := Function.update ⊥ y n

@[simp] theorem point_le : point y n ≤ W ↔ n ≤ W y := by
  rw [point, update_le_iff]
  exact ⟨And.left, fun h => ⟨h, fun _ _ => bot_le⟩⟩

@[simp] theorem point_self : point y n y = n := by
  rw [point, Function.update_self]

theorem point_of_ne (h : z ≠ y) : point y n z = ⊥ := by
  rw [point, Function.update_of_ne h]
  rfl

end Points

namespace Memory

section Learning

variable {ι Loc T : Type} {V : Loc → Type} [DecidableEq ι] [LinearOrder T]
  {m : Memory ι Loc T V} {t u : ι} {W : View Loc T}

/-- The thread comes to know more. -/
def learn (m : Memory ι Loc T V) (t : ι) (W : View Loc T) : Memory ι Loc T V :=
  { m with view := Function.update m.view t (m.view t ⊔ W) }

@[simp] theorem learn_messages : (m.learn t W).messages = m.messages := rfl

@[simp] theorem learn_mutex : (m.learn t W).mutex = m.mutex := rfl

@[simp] theorem learn_self : (m.learn t W).view t = m.view t ⊔ W := Function.update_self _ _ _

theorem learn_of_ne (h : u ≠ t) : (m.learn t W).view u = m.view u := Function.update_of_ne h _ _

/-- A view is the one that it was, or that of the thread that learns. -/
theorem learn_cases (u : ι) :
    (m.learn t W).view u = m.view u ∨ u = t ∧ (m.learn t W).view u = m.view t ⊔ W := by
  by_cases h : u = t
  · exact .inr ⟨h, h ▸ learn_self⟩
  · exact .inl (learn_of_ne h)

theorem le_learn (u : ι) : m.view u ≤ (m.learn t W).view u := by
  rcases learn_cases (m := m) (t := t) (W := W) u with h | ⟨rfl, h⟩
  · exact h.ge
  · rw [h]
    exact le_sup_left

end Learning

section Messages

variable {ι Loc T : Type} {V : Loc → Type} [DecidableEq Loc] [DecidableEq T]
  {m : Memory ι Loc T V} {y z : Loc} {n k : T} {msg : Message Loc T (V y)}
  {msg' : Message Loc T (V z)}

/-- A location gets a message. -/
def put (m : Memory ι Loc T V) (y : Loc) (n : T) (msg : Message Loc T (V y)) :
    Memory ι Loc T V :=
  { m with messages := Function.update m.messages y (Function.update (m.messages y) n (some msg)) }

@[simp] theorem put_view : (m.put y n msg).view = m.view := rfl

@[simp] theorem put_mutex : (m.put y n msg).mutex = m.mutex := rfl

@[simp] theorem put_self : (m.put y n msg).messages y n = some msg := by
  simp [put]

theorem put_of_ne (h : ¬ (z = y ∧ k = n)) :
    (m.put y n msg).messages z k = m.messages z k := by
  by_cases hz : z = y
  · subst hz
    have hk : k ≠ n := fun hk => h ⟨rfl, hk⟩
    simp only [put]
    rw [Function.update_self, Function.update_of_ne hk]
  · simp only [put]
    rw [Function.update_of_ne hz]

/-- A message is one that was, or the new one. -/
theorem put_cases (h : (m.put y n msg).messages z k = some msg') :
    m.messages z k = some msg' ∨ z = y ∧ k = n ∧ msg'.view = msg.view := by
  by_cases hnew : z = y ∧ k = n
  · obtain ⟨rfl, rfl⟩ := hnew
    rw [put_self] at h
    obtain rfl := Option.some.inj h
    exact .inr ⟨rfl, rfl, rfl⟩
  · rw [put_of_ne hnew] at h
    exact .inl h

/-- Where nothing was, nothing is lost. -/
theorem put_of_message (vacant : m.messages y n = none) (h : m.messages z k = some msg') :
    (m.put y n msg).messages z k = some msg' := by
  rw [put_of_ne, h]
  rintro ⟨rfl, rfl⟩
  rw [vacant] at h
  cases h

end Messages

section Accesses

variable {ι Loc T : Type} {V : Loc → Type} [DecidableEq ι] [DecidableEq Loc] [LinearOrder T]
  [OrderBot T]

/-- The initial values, known to all. -/
def initial (d : (y : Loc) → V y) : Memory ι Loc T V where
  messages := fun y n => if n = ⊥ then some ⟨d y, ⊥⟩ else none
  view := fun _ => ⊥
  mutex := ⊥

/-- A load finds a message that is not behind the thread. -/
inductive Loads (m : Memory ι Loc T V) (t : ι) (y : Loc) (acquire : Bool) :
    T → V y → Memory ι Loc T V → Prop
  | found {n : T} {msg : Message Loc T (V y)} (message : m.messages y n = some msg)
      (ahead : m.view t y ≤ n) :
      m.Loads t y acquire n msg.value
        (m.learn t (point y n ⊔ if acquire = true then msg.view else ⊥))

/-- A store takes a place ahead of the thread. -/
inductive Stores (m : Memory ι Loc T V) (t : ι) (y : Loc) (release : Bool) (v : V y) :
    T → Memory ι Loc T V → Prop
  | placed {n : T} (vacant : m.messages y n = none) (ahead : m.view t y < n) :
      m.Stores t y release v n ((m.learn t (point y n)).put y n
        ⟨v, if release = true then m.view t ⊔ point y n else point y n⟩)

variable {m m' : Memory ι Loc T V} {t : ι} {y : Loc} {order : Bool} {n : T} {v : V y}

theorem Loads.view_le (h : m.Loads t y order n v m') (u : ι) : m.view u ≤ m'.view u := by
  cases h
  exact le_learn u

theorem Loads.mutex_eq (h : m.Loads t y order n v m') : m'.mutex = m.mutex := by
  cases h
  rfl

theorem Loads.message (h : m.Loads t y order n v m') :
    ∃ msg, m.messages y n = some msg ∧ msg.value = v := by
  cases h with
  | found message ahead => exact ⟨_, message, rfl⟩

/-- What is loaded is not behind the thread, -/
theorem Loads.ahead (h : m.Loads t y order n v m') : m.view t y ≤ n := by
  cases h with
  | found message ahead => exact ahead

theorem Loads.known (h : m.Loads t y order n v m') : n ≤ m'.view t y := by
  cases h with
  | found message ahead =>
    rw [learn_self, Pi.sup_apply, Pi.sup_apply, point_self]
    exact le_sup_left.trans le_sup_right

theorem Loads.messages_eq (h : m.Loads t y order n v m') : m'.messages = m.messages := by
  cases h
  rfl

theorem Stores.view_le (h : m.Stores t y order v n m') (u : ι) : m.view u ≤ m'.view u := by
  cases h
  exact le_learn u

/-- and what it stores, the thread knows. -/
theorem Stores.known (h : m.Stores t y order v n m') : n ≤ m'.view t y := by
  cases h with
  | placed vacant ahead =>
    rw [put_view, learn_self, Pi.sup_apply, point_self]
    exact le_sup_right

theorem Stores.ahead (h : m.Stores t y order v n m') : m.view t y < n := by
  cases h with
  | placed vacant ahead => exact ahead

theorem Stores.mutex_eq (h : m.Stores t y order v n m') : m'.mutex = m.mutex := by
  cases h
  rfl

theorem Stores.messages_eq (h : m.Stores t y order v n m') {z : Loc} (hz : z ≠ y) :
    m'.messages z = m.messages z := by
  cases h
  funext k
  exact put_of_ne (fun hk => hz hk.1)

end Accesses

end Memory

/-! ## 2. What is known

`G` is the view under the mutex: of its owner, or what the last owner left.  A step of a thread
adds to a view, leaves the mutex or is an access to some location; the lemmas take one kind of step
each, and those about accesses to `x` say how they have to be ordered. -/

section Knowledge

variable {ι Loc T : Type} {V : Loc → Type} [LinearOrder T] {x : Loc} {m m' : Memory ι Loc T V}
  {W W' G : View Loc T}

/-- Who has come to a message of `x` knows what was known where it was stored; and there is such a
message. -/
structure Memory.Knows (x : Loc) (m : Memory ι Loc T V) (W : View Loc T) : Prop where
  passed : ∀ n msg, m.messages x n = some msg → n ≤ W x → msg.view ≤ W
  reached : ∃ msg, m.messages x (W x) = some msg

theorem Memory.Knows.sup (h : m.Knows x W) (h' : m.Knows x W') : m.Knows x (W ⊔ W') := by
  constructor
  · intro n msg hmsg hn
    rcases le_sup_iff.mp hn with hn | hn
    · exact (h.passed n msg hmsg hn).trans le_sup_left
    · exact (h'.passed n msg hmsg hn).trans le_sup_right
  · show ∃ msg, m.messages x (W x ⊔ W' x) = some msg
    rcases le_total (W x) (W' x) with hle | hle
    · rw [sup_eq_right.mpr hle]
      exact h'.reached
    · rw [sup_eq_left.mpr hle]
      exact h.reached

theorem Memory.Knows.congr (h : m.Knows x W) (hsame : m'.messages x = m.messages x) :
    m'.Knows x W := by
  constructor
  · rw [hsame]
    exact h.passed
  · rw [hsame]
    exact h.reached

variable [OrderBot T]

/-- **The location `x` is synchronized**, where `G` is what is known under the mutex: a message of
`x` carries what its store knew, which reaches whoever comes to the message, and the thread that
has the mutex anyway. -/
structure Memory.Synced (x : Loc) (m : Memory ι Loc T V) (G : View Loc T) : Prop where
  start : ∃ msg, m.messages x ⊥ = some msg ∧ msg.view = ⊥
  place : ∀ n msg, m.messages x n = some msg → msg.view x = n
  thread : ∀ t, m.Knows x (m.view t)
  mutex : m.Knows x m.mutex
  message : ∀ y n (msg : Message Loc T (V y)), m.messages y n = some msg → m.Knows x msg.view
  guard : ∀ n msg, m.messages x n = some msg → msg.view ≤ G

namespace Memory.Synced

variable {t : ι}

theorem initial {d : (y : Loc) → V y} : (Memory.initial d : Memory ι Loc T V).Synced x ⊥ := by
  have hview : ∀ y n (msg : Message Loc T (V y)),
      (Memory.initial d : Memory ι Loc T V).messages y n = some msg → n = ⊥ ∧ msg.view = ⊥ := by
    intro y n msg hmsg
    simp only [Memory.initial] at hmsg
    split at hmsg
    · rename_i hn
      exact ⟨hn, by rw [← Option.some.inj hmsg]⟩
    · cases hmsg
  have hstart : (Memory.initial d : Memory ι Loc T V).messages x ⊥ = some ⟨d x, ⊥⟩ := if_pos rfl
  have hknows : (Memory.initial d : Memory ι Loc T V).Knows x ⊥ := by
    refine ⟨?_, _, hstart⟩
    intro n msg hmsg _
    exact (hview x n msg hmsg).2.le
  refine ⟨⟨_, hstart, rfl⟩, ?_, fun _ => hknows, hknows, ?_, ?_⟩
  · intro n msg hmsg
    obtain ⟨rfl, hbot⟩ := hview x n msg hmsg
    rw [hbot]
    rfl
  · intro y n msg hmsg
    rw [(hview y n msg hmsg).2]
    exact hknows
  · intro n msg hmsg
    exact (hview x n msg hmsg).2.le

theorem mono (h : m.Synced x G) {G' : View Loc T} (hle : G ≤ G') : m.Synced x G' :=
  { h with guard := fun n msg hmsg => (h.guard n msg hmsg).trans hle }

theorem knows_of_bot (h : m.Synced x G) (hbot : W x = ⊥) : m.Knows x W := by
  obtain ⟨start, hstart, hview⟩ := h.start
  constructor
  · intro n msg hmsg hn
    rw [hbot, le_bot_iff] at hn
    subst hn
    rw [hstart] at hmsg
    rw [← Option.some.inj hmsg, hview]
    exact bot_le
  · exact ⟨start, hbot ▸ hstart⟩

/-- Of a message of `x` its view says the same as its place. -/
theorem point_le_view [DecidableEq Loc] (h : m.Synced x G) {n : T} {msg : Message Loc T (V x)}
    (hmsg : m.messages x n = some msg) : point x n ≤ msg.view :=
  point_le.mpr (h.place n msg hmsg).ge

/-- The mutex is left by the thread that had it. -/
theorem leave (h : m.Synced x G) : { m with mutex := m.view t }.Synced x G where
  start := h.start
  place := h.place
  thread := fun u => (h.thread u).congr rfl
  mutex := (h.thread t).congr rfl
  message := fun y n msg hmsg => (h.message y n msg hmsg).congr rfl
  guard := h.guard

variable [DecidableEq ι]

theorem learn (h : m.Synced x G) (hW : m.Knows x (m.view t ⊔ W)) : (m.learn t W).Synced x G where
  start := h.start
  place := h.place
  thread := by
    intro u
    rcases learn_cases (m := m) (t := t) (W := W) u with hu | ⟨rfl, hu⟩
    · rw [hu]
      exact (h.thread u).congr rfl
    · rw [hu]
      exact hW.congr rfl
  mutex := h.mutex.congr rfl
  message := fun y n msg hmsg => (h.message y n msg hmsg).congr rfl
  guard := h.guard

variable [DecidableEq Loc] {y : Loc} {n : T} {v : V x}

omit [DecidableEq ι] [DecidableEq Loc] in
theorem behind (h : m.Synced x (m.view t)) {msg : Message Loc T (V x)}
    (hmsg : m.messages x n = some msg) : n ≤ m.view t x := by
  have hle : msg.view x ≤ m.view t x := h.guard n msg hmsg x
  rwa [h.place n msg hmsg] at hle

/-- There is something to load, -/
theorem exists_load (h : m.Synced x G) (t : ι) (acquire : Bool) :
    ∃ n v m', m.Loads t x acquire n v m' := by
  obtain ⟨msg, hmsg⟩ := (h.thread t).reached
  exact ⟨_, _, _, .found hmsg le_rfl⟩

/-- and under the mutex a place to store. -/
theorem exists_store [NoMaxOrder T] (h : m.Synced x (m.view t)) (release : Bool) (v : V x) :
    ∃ n m', m.Stores t x release v n m' := by
  obtain ⟨n, hn⟩ := exists_gt (m.view t x)
  have hvacant : m.messages x n = none := by
    cases hmsg : m.messages x n with
    | none => rfl
    | some msg => exact absurd (h.behind hmsg) (not_le_of_gt hn)
  exact ⟨n, _, .placed hvacant hn⟩

/-- A load of another location. -/
theorem load_other (h : m.Synced x G) (hy : y ≠ x) {acquire : Bool} {w : V y}
    (hload : m.Loads t y acquire n w m') : m'.Synced x G := by
  cases hload with
  | @found msg message ahead =>
    refine h.learn ((h.thread t).sup (Knows.sup (h.knows_of_bot (point_of_ne hy.symm)) ?_))
    split
    · exact h.message y n msg message
    · exact h.knows_of_bot rfl

/-- A load that acquires. -/
theorem load_acquire (h : m.Synced x G) (hload : m.Loads t x true n v m') : m'.Synced x G := by
  cases hload with
  | @found msg message ahead =>
    rw [if_pos rfl, sup_eq_right.mpr (h.point_le_view message)]
    exact h.learn ((h.thread t).sup (h.message x n msg message))

/-- A load under the mutex, in any order. -/
theorem load_guarded (h : m.Synced x (m.view t)) {acquire : Bool}
    (hload : m.Loads t x acquire n v m') : m'.Synced x (m'.view t) := by
  cases hload with
  | @found msg message ahead =>
    have hview : msg.view ≤ m.view t := h.guard n msg message
    refine (h.learn ?_).mono (le_learn t)
    have hknown : point x n ⊔ (if acquire = true then msg.view else ⊥) ≤ m.view t := by
      refine sup_le ((h.point_le_view message).trans hview) ?_
      split
      · exact hview
      · exact bot_le
    rw [sup_eq_left.mpr hknown]
    exact h.thread t

/-- A store to another location, in any order. -/
theorem store_other (h : m.Synced x G) (hy : y ≠ x) {release : Bool} {w : V y}
    (hstore : m.Stores t y release w n m') : m'.Synced x G := by
  cases hstore with
  | placed vacant ahead =>
    have hpoint : m.Knows x (point y n) := h.knows_of_bot (point_of_ne hy.symm)
    have hlearned : m.Knows x (m.view t ⊔ point y n) := (h.thread t).sup hpoint
    have hl : (m.learn t (point y n)).Synced x G := h.learn hlearned
    have hsame : ∀ msg, ((m.learn t (point y n)).put y n msg).messages x = m.messages x := by
      intro msg
      funext k
      exact put_of_ne (fun hk => hy hk.1.symm)
    constructor
    · rw [hsame]
      exact h.start
    · rw [hsame]
      exact h.place
    · exact fun u => (hl.thread u).congr (hsame _)
    · exact h.mutex.congr (hsame _)
    · intro z k msg hmsg
      rcases put_cases hmsg with hmsg | ⟨-, -, hview⟩
      · exact (h.message z k msg hmsg).congr (hsame _)
      · rw [hview]
        split
        · exact hlearned.congr (hsame _)
        · exact hpoint.congr (hsame _)
    · rw [hsame]
      exact h.guard

/-- A store under the mutex, which releases. -/
theorem store_guarded (h : m.Synced x (m.view t)) (hstore : m.Stores t x true v n m') :
    m'.Synced x (m'.view t) := by
  cases hstore with
  | placed vacant ahead =>
    rw [if_pos rfl]
    -- every message is behind the thread, which has the mutex
    have hbehind : ∀ k msg, m.messages x k = some msg → k < n := by
      intro k msg hmsg
      exact (h.behind hmsg).trans_lt ahead
    have hself : (m.view t ⊔ point x n) x = n := by
      rw [Pi.sup_apply, point_self]
      exact sup_eq_right.mpr ahead.le
    have hold : ∀ {W}, m.Knows x W → ((m.learn t (point x n)).put x n
        ⟨v, m.view t ⊔ point x n⟩).Knows x W := by
      intro W hW
      obtain ⟨last, hlast⟩ := hW.reached
      refine ⟨?_, last, put_of_message vacant hlast⟩
      intro k msg hmsg hk
      rcases put_cases hmsg with hmsg | ⟨-, rfl, -⟩
      · exact hW.passed k msg hmsg hk
      · exact absurd (hbehind _ last hlast) (not_lt_of_ge hk)
    have hnew : ((m.learn t (point x n)).put x n
        ⟨v, m.view t ⊔ point x n⟩).Knows x (m.view t ⊔ point x n) := by
      constructor
      · intro k msg hmsg _
        rcases put_cases hmsg with hmsg | ⟨-, -, hview⟩
        · exact (h.guard k msg hmsg).trans le_sup_left
        · exact hview.le
      · rw [hself]
        exact ⟨_, put_self⟩
    constructor
    · obtain ⟨start, hstart, hview⟩ := h.start
      exact ⟨start, put_of_message vacant hstart, hview⟩
    · intro k msg hmsg
      rcases put_cases hmsg with hmsg | ⟨-, rfl, hview⟩
      · exact h.place k msg hmsg
      · rw [hview]
        exact hself
    · intro u
      rw [put_view]
      rcases learn_cases (m := m) (t := t) (W := point x n) u with hu | ⟨rfl, hu⟩
      · rw [hu]
        exact hold (h.thread u)
      · rw [hu]
        exact hnew
    · exact hold h.mutex
    · intro z k msg hmsg
      rcases put_cases hmsg with hmsg | ⟨-, -, hview⟩
      · exact hold (h.message z k msg hmsg)
      · rw [hview]
        exact hnew
    · intro k msg hmsg
      rw [put_view, learn_self]
      rcases put_cases hmsg with hmsg | ⟨-, -, hview⟩
      · exact (h.guard k msg hmsg).trans le_sup_left
      · exact hview.le

end Memory.Synced

end Knowledge

/-! ## 3. The last message

With the mutex a thread is behind no message of `x`, so the last one is all that it can load. -/

section Latest

variable {ι Loc T : Type} {V : Loc → Type} [DecidableEq ι] [DecidableEq Loc] [LinearOrder T]
  [OrderBot T] {x : Loc} {m m' : Memory ι Loc T V} {t : ι} {n : T} {d v : V x}

/-- The last message of the location has this value. -/
def Memory.Latest (x : Loc) (m : Memory ι Loc T V) (d : V x) : Prop :=
  ∃ n msg, m.messages x n = some msg ∧ msg.value = d ∧
    ∀ k msg', m.messages x k = some msg' → k ≤ n

namespace Memory.Latest

omit [DecidableEq ι] [DecidableEq Loc] in
theorem initial {c : (y : Loc) → V y} : (Memory.initial c : Memory ι Loc T V).Latest x (c x) := by
  refine ⟨⊥, ⟨c x, ⊥⟩, if_pos rfl, rfl, ?_⟩
  intro k msg hmsg
  simp only [Memory.initial] at hmsg
  split at hmsg
  · rename_i hk
    exact hk.le
  · cases hmsg

omit [DecidableEq ι] [DecidableEq Loc] [OrderBot T] in
theorem congr (h : m.Latest x d) (hsame : m'.messages x = m.messages x) : m'.Latest x d := by
  obtain ⟨n, msg, hmsg, hvalue, hlast⟩ := h
  exact ⟨n, msg, hsame ▸ hmsg, hvalue, hsame ▸ hlast⟩

/-- Under the mutex it is the one that is loaded, -/
theorem of_load (h : m.Latest x d) (hs : m.Synced x (m.view t)) {acquire : Bool}
    (hload : m.Loads t x acquire n v m') : v = d := by
  obtain ⟨k, msg, hmsg, hvalue, hlast⟩ := h
  cases hload with
  | @found msg' message ahead =>
    obtain rfl : n = k := le_antisymm (hlast n msg' message) ((hs.behind hmsg).trans ahead)
    rw [message] at hmsg
    rw [Option.some.inj hmsg, hvalue]

/-- and a store makes another one the last. -/
theorem of_store (hs : m.Synced x (m.view t)) {release : Bool}
    (hstore : m.Stores t x release v n m') : m'.Latest x v := by
  cases hstore with
  | placed vacant ahead =>
    refine ⟨n, _, put_self, rfl, ?_⟩
    intro k msg hmsg
    rcases put_cases hmsg with hmsg | ⟨-, rfl, -⟩
    · exact (hs.behind hmsg).trans ahead.le
    · exact le_rfl

end Memory.Latest

end Latest

end Views
