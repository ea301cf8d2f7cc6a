/-
# Bounded writers and readers

Serialisation code appends to an output of bounded size and reads from an input at an offset
below a limit, and every call may stop with an error.

* `Emits maximum stop w bs`: whatever was written before, `w` appends exactly `bs` if the bound
  allows it, and otherwise stops with one of the errors `stop` describes.
* `Reads m bs a`: wherever `bs` stands in an input, below the limit, `m` consumes exactly `bs`
  and returns `a`.

Both compose along concatenation, so the codec of a record follows from those of its fields.

* `Takes m P`: whatever `m` returns from a valid position, it has consumed bytes that stand
  there, below the limit, and they are what `P` says.

That is the converse of `Reads`, and it composes in the same way.
-/
import Pkgexec.Lib.Bytes

namespace Wire

variable {ε α β : Type}

/-! ## 1. Writers

A writer may stop in the middle of a field, and where it stops depends on what was written before.
`Emits` says so with the bytes of the whole: they are appended, or there was no room for them. -/

/-- A computation over the output so far. -/
abbrev WriterM (ε : Type) := StateT Bytes (Except ε)

/-- `w` appends `bs` as far as the bound allows. -/
structure Emits (maximum : Nat) (stop : ε → Prop) (w : WriterM ε Unit) (bs : Bytes) : Prop where
  fits : ∀ out : Bytes, out.length + bs.length ≤ maximum → w out = .ok ((), out ++ bs)
  exceeds : ∀ out : Bytes, out.length ≤ maximum → maximum < out.length + bs.length →
    ∃ e, w out = .error e ∧ stop e

/-- `w` always stops. -/
def Halts (maximum : Nat) (stop : ε → Prop) (w : WriterM ε Unit) : Prop :=
  ∀ out : Bytes, out.length ≤ maximum → ∃ e, w out = .error e ∧ stop e

section Writers

variable {maximum : Nat} {stop : ε → Prop} {v w : WriterM ε Unit} {xs ys : Bytes}

theorem bind_of_ok {out out' : Bytes} (h : v out = .ok ((), out')) :
    (v >>= fun _ => w) out = w out' := by
  simp only [bind, StateT.bind, h]
  rfl

theorem bind_of_error {out : Bytes} {e : ε} {f : Unit → WriterM ε Unit} (h : v out = .error e) :
    (v >>= f) out = .error e := by
  simp only [bind, StateT.bind, h]
  rfl

theorem Emits.pure : Emits maximum stop (pure ()) [] where
  fits := fun out _ => by rw [List.append_nil]; rfl
  exceeds := fun _ hle hlt => absurd hle (by simpa using hlt)

/-- One after the other. -/
theorem Emits.bind (hv : Emits maximum stop v xs) (hw : Emits maximum stop w ys) :
    Emits maximum stop (v >>= fun _ => w) (xs ++ ys) where
  fits := by
    intro out hfit
    rw [List.length_append] at hfit
    have hlen : (out ++ xs).length = out.length + xs.length := List.length_append
    rw [bind_of_ok (hv.fits out (by omega)), hw.fits _ (by omega), List.append_assoc]
  exceeds := by
    intro out hle hlt
    rw [List.length_append] at hlt
    have hlen : (out ++ xs).length = out.length + xs.length := List.length_append
    by_cases hfit : out.length + xs.length ≤ maximum
    · rw [bind_of_ok (hv.fits out hfit)]
      exact hw.exceeds _ (by omega) (by omega)
    · obtain ⟨e, he, hstop⟩ := hv.exceeds out hle (by omega)
      exact ⟨e, bind_of_error he, hstop⟩

/-- The elements of a list. -/
theorem Emits.forM {f : α → WriterM ε Unit} {g : α → Bytes} {l : List α}
    (h : ∀ a ∈ l, Emits maximum stop (f a) (g a)) :
    Emits maximum stop (l.forM f) (l.flatMap g) := by
  induction l with
  | nil => exact Emits.pure
  | cons a l ih =>
    rw [List.flatMap_cons]
    exact (h a List.mem_cons_self).bind (ih (fun b hb => h b (List.mem_cons_of_mem a hb)))

theorem Emits.congr (h : Emits maximum stop w xs) (heq : xs = ys) : Emits maximum stop w ys :=
  heq ▸ h

theorem Emits.bind_halts (hv : Emits maximum stop v xs) (hw : Halts maximum stop w) :
    Halts maximum stop (v >>= fun _ => w) := by
  intro out hle
  by_cases hfit : out.length + xs.length ≤ maximum
  · rw [bind_of_ok (hv.fits out hfit)]
    exact hw _ (by simpa using hfit)
  · obtain ⟨e, he, hstop⟩ := hv.exceeds out hle (by omega)
    exact ⟨e, bind_of_error he, hstop⟩

end Writers

/-! ## 2. Readers

`Reads` is about the bytes at the offset and says nothing of what stands before or after them,
except that the limit is not passed; so it holds of a field wherever the field is. -/

/-- A position in an input, of which only the part below the limit may be read. -/
structure Reader where
  input : Bytes
  limit : Nat
  offset : Nat

abbrev ReaderM (ε : Type) := StateT Reader (Except ε)

/-- `m` consumes `bs` and returns `a`, wherever `bs` stands.  The limit is a `std::size_t`. -/
def Reads (m : ReaderM ε α) (bs : Bytes) (a : α) : Prop :=
  ∀ ⦃pre suf : Bytes⦄ ⦃limit : Nat⦄, pre.length + bs.length ≤ limit → limit < 2 ^ 64 →
    m ⟨pre ++ bs ++ suf, limit, pre.length⟩
      = .ok (a, ⟨pre ++ bs ++ suf, limit, pre.length + bs.length⟩)

/-- The run where the bytes stand. -/
theorem Reads.run {m : ReaderM ε α} {bs : Bytes} {a : α} (h : Reads m bs a) (pre suf : Bytes)
    {limit : Nat} (hle : pre.length + bs.length ≤ limit) (hlt : limit < 2 ^ 64) :
    m ⟨pre ++ bs ++ suf, limit, pre.length⟩
      = .ok (a, ⟨pre ++ bs ++ suf, limit, pre.length + bs.length⟩) :=
  h hle hlt

theorem Reads.pure {a : α} : Reads (pure a : ReaderM ε α) [] a := fun _ _ _ _ _ => rfl

/-- One after the other, where the second may depend on what the first returned. -/
theorem Reads.bind {m : ReaderM ε α} {f : α → ReaderM ε β} {xs ys : Bytes} {a : α} {b : β}
    (hm : Reads m xs a) (hf : Reads (f a) ys b) : Reads (m >>= f) (xs ++ ys) b := by
  intro pre suf limit hle hlt
  simp only [List.length_append] at hle
  have hfirst := hm.run pre (ys ++ suf) (by omega) hlt
  have hsecond := hf.run (pre ++ xs) suf
    (by simp only [List.length_append]; omega) hlt
  simp only [List.append_assoc, List.length_append] at hfirst hsecond ⊢
  simp only [Bind.bind, StateT.bind, hfirst]
  rw [← Nat.add_assoc]
  exact hsecond

/-- The second reads nothing. -/
theorem Reads.bind_nil {m : ReaderM ε α} {f : α → ReaderM ε β} {bs : Bytes} {a : α} {b : β}
    (hm : Reads m bs a) (hf : Reads (f a) [] b) : Reads (m >>= f) bs b := by
  have hbind := hm.bind hf
  rwa [List.append_nil] at hbind

/-- What is read, through a function. -/
theorem Reads.map {m : ReaderM ε α} {bs : Bytes} {a : α} (h : Reads m bs a) (f : α → β) :
    Reads (m >>= fun x => Pure.pure (f x)) bs (f a) :=
  h.bind_nil Reads.pure

/-- A computation that reads nothing. -/
theorem Reads.lift {x : Except ε α} {a : α} (h : x = .ok a) :
    Reads (StateT.lift x : ReaderM ε α) [] a := by
  subst h
  exact fun _ _ _ _ _ => rfl

/-- What is read, through a function that may refuse it. -/
theorem Reads.bind_lift {m : ReaderM ε α} {f : α → Except ε β} {bs : Bytes} {a : α} {b : β}
    (hm : Reads m bs a) (h : f a = .ok b) : Reads (m >>= fun x => StateT.lift (f x)) bs b :=
  hm.bind_nil (Reads.lift h)

theorem Reads.lift_bind {x : Except ε α} {f : α → ReaderM ε β} {bs : Bytes} {a : α} {b : β}
    (h : x = .ok a) (hf : Reads (f a) bs b) : Reads ((StateT.lift x : ReaderM ε α) >>= f) bs b :=
  (Reads.lift h).bind hf

/-- `m` again and again. -/
def many (m : ReaderM ε α) : Nat → ReaderM ε (List α)
  | 0 => return []
  | count + 1 => do
    let a ← m
    let rest ← many m count
    return a :: rest

theorem Reads.many {m : ReaderM ε α} {g : α → Bytes} (h : ∀ a, Reads m (g a) a) (l : List α) :
    Reads (many m l.length) (l.flatMap g) l := by
  induction l with
  | nil => exact Reads.pure
  | cons a l ih => exact (h a).bind (ih.map (fun rest => a :: rest))

theorem Reads.congr {m : ReaderM ε α} {xs ys : Bytes} {a : α} (h : Reads m xs a)
    (heq : xs = ys) : Reads m ys a :=
  heq ▸ h

/-- **What stands at the front of a text is read in one way.** -/
theorem Reads.unique {m : ReaderM ε α} {xs ys r s : Bytes} {a b : α} (hx : Reads m xs a)
    (hy : Reads m ys b) (hlt : (xs ++ r).length < 2 ^ 64) (h : xs ++ r = ys ++ s) :
    xs = ys ∧ a = b := by
  have hxle : ([] : Bytes).length + xs.length ≤ (xs ++ r).length := by
    simp only [List.length_append, List.length_nil]
    omega
  have hyle : ([] : Bytes).length + ys.length ≤ (xs ++ r).length := by
    rw [h]
    simp only [List.length_append, List.length_nil]
    omega
  have hfirst := hx.run [] r hxle hlt
  have hsecond := hy.run [] s hyle hlt
  simp only [List.nil_append] at hfirst hsecond
  rw [← h, hfirst] at hsecond
  obtain ⟨hab, hreader⟩ := Prod.mk.inj (Except.ok.inj hsecond)
  have hlength : xs.length = ys.length := by
    simpa using congrArg Reader.offset hreader
  exact ⟨(List.append_inj h hlength).1, hab⟩

/-! ## 3. What was read

A reader of untrusted input has to be followed from the other end: it returned, and so the bytes it
consumed were such as it returns from.  `Takes` carries the position along, which is why it asks
for a valid one. -/

/-- The offset is within the limit, the limit within the input, and all are machine words. -/
structure Reader.Valid (r : Reader) : Prop where
  offset_le : r.offset ≤ r.limit
  limit_le : r.limit ≤ r.input.length
  limit_lt : r.limit < 2 ^ 64

/-- `r'` is `r` after the bytes `bs`, which stand at the offset. -/
structure Reader.Consumed (r : Reader) (bs : Bytes) (r' : Reader) : Prop where
  stands : r.input.drop r.offset = bs ++ r.input.drop (r.offset + bs.length)
  after : r' = { r with offset := r.offset + bs.length }
  valid : r'.Valid

/-- From a valid position, `m` consumes bytes `bs` and returns `a` only with `P bs a`. -/
def Takes (m : ReaderM ε α) (P : Bytes → α → Prop) : Prop :=
  ∀ ⦃r : Reader⦄ ⦃a : α⦄ ⦃r' : Reader⦄, r.Valid → m r = .ok (a, r') →
    ∃ bs, r.Consumed bs r' ∧ P bs a

theorem Reader.Consumed.nil {r : Reader} (h : r.Valid) : r.Consumed [] r where
  stands := rfl
  after := rfl
  valid := h

theorem Reader.Consumed.append {r r' r'' : Reader} {xs ys : Bytes} (h : r.Consumed xs r')
    (h' : r'.Consumed ys r'') : r.Consumed (xs ++ ys) r'' where
  stands := by
    have hstands := h'.stands
    rw [h.after] at hstands
    rw [h.stands, hstands, List.length_append, List.append_assoc, Nat.add_assoc]
  after := by
    rw [h'.after, h.after, List.length_append, Nat.add_assoc]
  valid := h'.valid

theorem Takes.pure {a : α} : Takes (pure a : ReaderM ε α) (fun bs x => bs = [] ∧ x = a) := by
  intro r x r' hvalid h
  obtain ⟨rfl, rfl⟩ := Prod.mk.inj (Except.ok.inj h)
  exact ⟨[], Reader.Consumed.nil hvalid, rfl, rfl⟩

/-- One after the other: the bytes of both. -/
theorem Takes.bind {m : ReaderM ε α} {f : α → ReaderM ε β} {P : Bytes → α → Prop}
    {Q : α → Bytes → β → Prop} (hm : Takes m P) (hf : ∀ a, Takes (f a) (Q a)) :
    Takes (m >>= f) (fun bs b => ∃ xs ys a, bs = xs ++ ys ∧ P xs a ∧ Q a ys b) := by
  intro r b r'' hvalid h
  cases hfirst : m r with
  | error e =>
    simp only [Bind.bind, StateT.bind, hfirst] at h
    exact absurd h (by simp [Except.bind])
  | ok ar =>
    obtain ⟨a, r'⟩ := ar
    simp only [Bind.bind, StateT.bind, hfirst] at h
    obtain ⟨xs, hxs, hP⟩ := hm hvalid hfirst
    obtain ⟨ys, hys, hQ⟩ := hf a hxs.valid h
    exact ⟨xs ++ ys, hxs.append hys, xs, ys, a, rfl, hP, hQ⟩

theorem Takes.mono {m : ReaderM ε α} {P Q : Bytes → α → Prop} (h : Takes m P)
    (hPQ : ∀ bs a, P bs a → Q bs a) : Takes m Q := by
  intro r a r' hvalid hrun
  obtain ⟨bs, hbs, hP⟩ := h hvalid hrun
  exact ⟨bs, hbs, hPQ bs a hP⟩

/-- A computation that reads nothing returns what it computes and leaves the reader alone. -/
theorem lift_eq_ok {x : Except ε α} {r r' : Reader} {a : α} :
    (StateT.lift x : ReaderM ε α) r = .ok (a, r') ↔ x = .ok a ∧ r' = r := by
  cases x with
  | error e => simp [StateT.lift, Bind.bind, Except.bind]
  | ok b => simp [StateT.lift, Bind.bind, Except.bind, Pure.pure, Except.pure, eq_comm]

theorem Takes.lift {x : Except ε α} {P : α → Prop} (h : ∀ a, x = .ok a → P a) :
    Takes (StateT.lift x : ReaderM ε α) (fun bs a => bs = [] ∧ P a) := by
  intro r a r' hvalid hrun
  obtain ⟨hx, rfl⟩ := lift_eq_ok.mp hrun
  exact ⟨[], Reader.Consumed.nil hvalid, rfl, h a hx⟩

end Wire
