/-
# The reader stays within its payload

`class reader` of `src/result_codec.cpp` compares a size with `limit_ - offset_`, both unsigned,
and has no guard for an offset beyond the limit.  That is safe as long as no operation moves the
offset past the limit.

* Section 1: the reader under audit.  It logs the difference that `reader::require` computes and
  the index of every byte that is accessed, and is the reader of `Codec` but for the log.
* Section 2: what every operation demands.  `Demands` says what an operation logs and where it
  leaves the reader, whether it succeeds or fails, from the sizes that it hands to `require`.
* Section 3: `reader_confined`, for every sequence of operations on every input that
  `decode_execution_result` admits.
* Section 4: what `decode_execution_result` reads is such a sequence.
-/
import Pkgexec.Lib.Audit
import Pkgexec.ResultCodec

namespace Pkgexec

open Audit Bytes Wire

/-! ## 1. The reader under audit

`slice` is where the source subtracts and where it accesses the input, so it is the one operation
with a `watch`; the others are written over it as in `Codec`. -/

abbrev AuditedReaderM := AuditM Observation Wire.Reader Error

namespace AuditedReader

/-- The difference that `reader::require` computes, unless the guard of the format stops it. -/
def remaining (fmt : Format) (r : Wire.Reader) : List Observation :=
  if fmt.guarded = true ∧ r.offset > r.limit then [] else [.difference r.limit r.offset]

/-- The accesses `input_[offset_++]`, `n` of them. -/
def accesses (n : Nat) (r : Wire.Reader) : List Observation :=
  (List.range n).map (fun index => .read (r.offset + index))

/-- `require(n)`, then the bytes. -/
def slice (fmt : Format) (n : Nat) : AuditedReaderM Bytes := do
  AuditM.watch (remaining fmt)
  AuditM.lift (Reader.require fmt n)
  AuditM.watch (accesses n)
  AuditM.lift (fun r => .ok ((r.input.drop r.offset).take n, { r with offset := r.offset + n }))

def byte (fmt : Format) : AuditedReaderM UInt8 := do
  let value ← slice fmt 1
  return value.headD 0

def accumulate {α : Type} (fmt : Format) (step : α → UInt8 → α) : Nat → α → AuditedReaderM α
  | 0, value => return value
  | n + 1, value => do
    let current ← byte fmt
    accumulate fmt step n (step value current)

def u16 (fmt : Format) : AuditedReaderM UInt16 :=
  accumulate fmt (fun value current => (value <<< 8) ||| current.toUInt16) 2 0

def u32 (fmt : Format) : AuditedReaderM UInt32 :=
  accumulate fmt (fun value current => (value <<< 8) ||| current.toUInt32) 4 0

def u64 (fmt : Format) : AuditedReaderM UInt64 :=
  accumulate fmt (fun value current => (value <<< 8) ||| current.toUInt64) 8 0

def boolean (fmt : Format) : AuditedReaderM Bool := do
  let value ← byte fmt
  if value > 1 then
    AuditM.lift (Reader.liftExcept
      (corrupt (fmt.message " encoding contains an invalid boolean")))
  else return value = 1

def text (fmt : Format) (maximum : Nat) : AuditedReaderM Str := do
  let size ← u32 fmt
  if size.toNat > maximum then
    AuditM.lift (Reader.liftExcept (corrupt (fmt.message " text field exceeds its limit")))
  else
    let value ← slice fmt size.toNat
    return ⟨value.take size.toNat, Reader.length_take_lt value size⟩

def identity (fmt : Format) : AuditedReaderM Bytes := do
  let value ← slice fmt 32
  return hexEncode value

def optional {α : Type} (fmt : Format) (body : AuditedReaderM α) : AuditedReaderM (Option α) := do
  if ← boolean fmt then
    let value ← body
    return some value
  else return none

def capture [External] (fmt : Format) (maximum : Nat) : AuditedReaderM (Option StreamCapture) :=
  optional fmt (do
    let count ← u64 fmt
    let hex ← identity fmt
    let digest ← AuditM.lift (Reader.liftExcept (Identity.fromSha256 hex))
    let material ← optional fmt (text fmt maximum)
    match material with
    | none => return StreamCapture.observed count digest
    | some material =>
      let retained := StreamCapture.retained material
      if retained.byteCount ≠ count ∨ retained.digest ≠ digest then
        AuditM.lift (Reader.liftExcept
          (corrupt (fmt.message " retained stream evidence is inconsistent")))
      else return retained)

/-! ### It is the reader of the model

Forgetting the log commutes with every operation. -/

section Erase

variable (fmt : Format)

@[simp] theorem erase_slice (n : Nat) : (slice fmt n).erase = Reader.slice fmt n := by
  simp [slice, Reader.slice]

@[simp] theorem erase_byte : (byte fmt).erase = Reader.byte fmt := by
  simp [byte, Reader.byte]

@[simp] theorem erase_accumulate {α : Type} (step : α → UInt8 → α) (n : Nat) (value : α) :
    (accumulate fmt step n value).erase = Reader.accumulate fmt step n value := by
  induction n generalizing value with
  | zero => rfl
  | succ n ih => simp [accumulate, Reader.accumulate, ih]

@[simp] theorem erase_u16 : (u16 fmt).erase = Reader.u16 fmt := erase_accumulate fmt _ 2 0

@[simp] theorem erase_u32 : (u32 fmt).erase = Reader.u32 fmt := erase_accumulate fmt _ 4 0

@[simp] theorem erase_u64 : (u64 fmt).erase = Reader.u64 fmt := erase_accumulate fmt _ 8 0

@[simp] theorem erase_boolean : (boolean fmt).erase = Reader.boolean fmt := by
  simp only [boolean, Reader.boolean, AuditM.erase_bind, erase_byte]
  refine bind_congr (fun value => ?_)
  split <;> simp

@[simp] theorem erase_text (maximum : Nat) : (text fmt maximum).erase = Reader.text fmt maximum := by
  simp only [text, Reader.text, AuditM.erase_bind, erase_u32]
  refine bind_congr (fun size => ?_)
  split <;> simp

@[simp] theorem erase_identity : (identity fmt).erase = Reader.identity fmt := by
  simp [identity, Reader.identity]

@[simp] theorem erase_optional {α : Type} (body : AuditedReaderM α) :
    (optional fmt body).erase = Reader.optional fmt body.erase := by
  simp only [optional, Reader.optional, AuditM.erase_bind, erase_boolean]
  refine bind_congr (fun flag => ?_)
  split <;> simp

@[simp] theorem erase_capture [External] (maximum : Nat) :
    (capture fmt maximum).erase = Reader.capture fmt maximum := by
  simp only [capture, Reader.capture, erase_optional, AuditM.erase_bind, erase_u64, erase_identity,
    AuditM.erase_lift, erase_text]
  refine congrArg (Reader.optional fmt) ?_
  refine bind_congr (fun count => bind_congr (fun hex => bind_congr (fun digest =>
    bind_congr (fun material => ?_))))
  cases material with
  | none => rfl
  | some material =>
    dsimp only
    split <;> simp

end Erase

/-! ## 2. What every operation demands

An operation hands a size to `reader::require`, and accesses that many bytes where they are there;
then it may go on, with a size that depends on what it has read.  So the run of an operation is
known once its demands are: the list of these sizes.  The demands are read off the reader of the
model, and say what the log and the reader are after a run, also after one that fails. -/

/-- The steps for one size after the other, up to the first that does not fit. -/
def steps (limit : Nat) : Nat → List Nat → List Observation
  | _, [] => []
  | offset, size :: sizes =>
    .difference limit offset ::
      if offset + size ≤ limit then
        (List.range size).map (fun index => .read (offset + index)) ++
          steps limit (offset + size) sizes
      else []

/-- The offset after them. -/
def reached (limit : Nat) : Nat → List Nat → Nat
  | offset, [] => offset
  | offset, size :: sizes =>
    if offset + size ≤ limit then reached limit (offset + size) sizes else offset

section Steps

variable {limit : Nat}

theorem steps_append {sizes : List Nat} (sizes' : List Nat) {offset : Nat}
    (h : offset + sizes.sum ≤ limit) : steps limit offset (sizes ++ sizes') =
      steps limit offset sizes ++ steps limit (offset + sizes.sum) sizes' := by
  induction sizes generalizing offset with
  | nil => rfl
  | cons size sizes ih =>
    rw [List.sum_cons] at h
    have hfits : offset + size ≤ limit := by omega
    have hrest : offset + size + sizes.sum ≤ limit := by omega
    simp only [List.cons_append, steps, if_pos hfits, ih hrest, List.sum_cons, List.append_assoc,
      Nat.add_assoc]

theorem reached_append {sizes : List Nat} (sizes' : List Nat) {offset : Nat}
    (h : offset + sizes.sum ≤ limit) : reached limit offset (sizes ++ sizes') =
      reached limit (offset + sizes.sum) sizes' := by
  induction sizes generalizing offset with
  | nil => rfl
  | cons size sizes ih =>
    rw [List.sum_cons] at h
    have hfits : offset + size ≤ limit := by omega
    have hrest : offset + size + sizes.sum ≤ limit := by omega
    simp only [List.cons_append, reached, if_pos hfits, ih hrest, List.sum_cons, Nat.add_assoc]

theorem reached_of_fits {sizes : List Nat} {offset : Nat} (h : offset + sizes.sum ≤ limit) :
    reached limit offset sizes = offset + sizes.sum := by
  have happend := reached_append [] h
  rwa [List.append_nil] at happend

theorem reached_le (sizes : List Nat) {offset : Nat} (h : offset ≤ limit) :
    reached limit offset sizes ≤ limit := by
  induction sizes generalizing offset with
  | nil => exact h
  | cons size sizes ih =>
    rw [reached]
    split
    · rename_i hfits
      exact ih hfits
    · exact h

/-- Every difference is computed at an offset within the limit. -/
theorem exact_steps (sizes : List Nat) {offset : Nat} (h : offset ≤ limit) :
    ∀ o ∈ steps limit offset sizes, o.Exact := by
  induction sizes generalizing offset with
  | nil =>
    intro o ho
    exact absurd ho List.not_mem_nil
  | cons size sizes ih =>
    intro o ho
    rcases List.mem_cons.mp ho with rfl | ho
    · exact h
    · split at ho
      · rename_i hfits
        rcases List.mem_append.mp ho with ho | ho
        · obtain ⟨index, -, rfl⟩ := List.mem_map.mp ho
          trivial
        · exact ih hfits o ho
      · exact absurd ho List.not_mem_nil

/-- Every byte before the offset is accessed once, in order, and no other. -/
theorem reads_steps (sizes : List Nat) (offset : Nat) :
    List.range offset ++ reads (steps limit offset sizes) =
      List.range (reached limit offset sizes) := by
  induction sizes generalizing offset with
  | nil => exact List.append_nil _
  | cons size sizes ih =>
    rw [reached, steps]
    split
    · have hread : reads ((List.range size).map (fun index => .read (offset + index))) =
          (List.range size).map (offset + ·) := reads_map_read (offset + ·) (List.range size)
      rw [← ih (offset + size), reads_cons_difference, reads_append, hread, List.range_add,
        List.append_assoc]
    · exact List.append_nil _

end Steps

/-- The sizes demanded after `m`, when it succeeds. -/
def follow {α : Type} (m : ReaderM α) (next : α → Wire.Reader → List Nat) (r : Wire.Reader) :
    List Nat :=
  match m r with
  | .ok (a, r') => next a r'
  | .error _ => []

@[simp] theorem follow_nil {α : Type} (m : ReaderM α) (r : Wire.Reader) :
    follow m (fun _ _ => []) r = [] := by
  unfold follow
  split <;> rfl

/-- The offset is within the limit, and the limit is a word. -/
structure Within (r : Wire.Reader) : Prop where
  offset_le : r.offset ≤ r.limit
  limit_lt : r.limit < 2 ^ 64

/-- A run that has demanded `sizes` from `r` on. -/
structure Served {α : Type} (r : Wire.Reader) (sizes : List Nat)
    (t : Trace Observation Wire.Reader Error α) : Prop where
  log : t.log = steps r.limit r.offset sizes
  state : t.state = { r with offset := reached r.limit r.offset sizes }
  fits : ∀ a, t.result = .ok a → r.offset + sizes.sum ≤ r.limit

def Demands {α : Type} (m : AuditedReaderM α) (sizes : Wire.Reader → List Nat) : Prop :=
  ∀ r, Within r → Served r (sizes r) (m r)

section Demands

variable {α β : Type} {fmt : Format} {sizes sizes' : Wire.Reader → List Nat}

theorem Demands.congr {m : AuditedReaderM α} (hm : Demands m sizes)
    (h : ∀ r, sizes r = sizes' r) : Demands m sizes' := by
  obtain rfl : sizes = sizes' := funext h
  exact hm

theorem Demands.pure {a : α} : Demands (Pure.pure a : AuditedReaderM α) (fun _ => []) :=
  fun _ hr => ⟨rfl, rfl, fun _ _ => hr.offset_le⟩

/-- A check of what was read does not touch the reader. -/
theorem Demands.check {x : Except Error α} :
    Demands (AuditM.lift (Reader.liftExcept x)) (fun _ => []) := by
  intro r hr
  cases x with
  | ok a => exact ⟨rfl, rfl, fun _ _ => hr.offset_le⟩
  | error e => exact ⟨rfl, rfl, fun _ _ => hr.offset_le⟩

theorem Demands.ite {c : Prop} [Decidable c] {m n : AuditedReaderM α} (hm : Demands m sizes)
    (hn : Demands n sizes') :
    Demands (if c then m else n) (fun r => if c then sizes r else sizes' r) := by
  intro r hr
  split
  · exact hm r hr
  · exact hn r hr

/-- What comes after demands its sizes where the first has succeeded. -/
theorem Demands.bind {m : AuditedReaderM α} {f : α → AuditedReaderM β}
    {next : α → Wire.Reader → List Nat} (hm : Demands m sizes) (hf : ∀ a, Demands (f a) (next a)) :
    Demands (m >>= f) (fun r => sizes r ++ follow m.erase next r) := by
  intro r hr
  obtain ⟨hlog, hstate, hfits⟩ := hm r hr
  cases hresult : (m r).result with
  | error e =>
    have hnone : follow m.erase next r = [] := by rw [follow, AuditM.erase_of_error hresult]
    change Served r (sizes r ++ follow m.erase next r) ((m >>= f) r)
    rw [AuditM.bind_of_error hresult, hnone, List.append_nil]
    exact ⟨hlog, hstate, by simp⟩
  | ok a =>
    have hnext : follow m.erase next r = next a (m r).state := by
      rw [follow, AuditM.erase_of_ok hresult]
    have hfirst := hfits a hresult
    rw [reached_of_fits hfirst] at hstate
    have hwithin : Within (m r).state := by
      rw [hstate]
      exact ⟨hfirst, hr.limit_lt⟩
    obtain ⟨hlog', hstate', hfits'⟩ := hf a _ hwithin
    change Served r (sizes r ++ follow m.erase next r) ((m >>= f) r)
    rw [AuditM.bind_of_ok hresult, hnext]
    refine ⟨?_, ?_, ?_⟩
    · dsimp only
      rw [steps_append _ hfirst, hlog, hlog', hstate]
    · dsimp only
      rw [reached_append _ hfirst, hstate', hstate]
    · intro b hb
      have hrest := hfits' b hb
      rw [hstate] at hrest ⊢
      dsimp only at hrest ⊢
      rw [List.sum_append]
      omega

theorem require_eq {size : Nat} {r : Wire.Reader} (hle : r.offset ≤ r.limit)
    (hlt : r.limit < 2 ^ 64) : Reader.require fmt size r =
      if r.offset + size ≤ r.limit then .ok ((), r)
      else corrupt (fmt.message " encoding is truncated") := by
  have hsub : sizeSub r.limit r.offset = r.limit - r.offset := sizeSub_eq hle hlt
  rw [Reader.require, hsub]
  by_cases hfits : r.offset + size ≤ r.limit
  · rw [if_neg (by omega), if_pos hfits]
  · rw [if_pos (by omega), if_neg hfits]

/-- What comes after demands nothing. -/
theorem Demands.bind_nil {m : AuditedReaderM α} {f : α → AuditedReaderM β} (hm : Demands m sizes)
    (hf : ∀ a, Demands (f a) (fun _ => [])) : Demands (m >>= f) sizes := by
  refine (hm.bind hf).congr ?_
  intro r
  rw [follow_nil, List.append_nil]

/-- A check that ends with an error or with a value. -/
theorem Demands.ite_nil {c : Prop} [Decidable c] {m n : AuditedReaderM α}
    (hm : Demands m (fun _ => [])) (hn : Demands n (fun _ => [])) :
    Demands (if c then m else n) (fun _ => []) :=
  (hm.ite hn).congr (fun _ => ite_self _)

/-- What `slice` does within the limit: the difference is computed first, and the bytes are
accessed, and the offset is moved, only when they are there. -/
theorem slice_eq {n : Nat} {r : Wire.Reader} (hle : r.offset ≤ r.limit) (hlt : r.limit < 2 ^ 64) :
    slice fmt n r =
      if r.offset + n ≤ r.limit then
        ⟨[.difference r.limit r.offset] ++ accesses n r,
          .ok ((r.input.drop r.offset).take n), { r with offset := r.offset + n }⟩
      else ⟨[.difference r.limit r.offset], corrupt (fmt.message " encoding is truncated"), r⟩ := by
  have hremaining : remaining fmt r = [.difference r.limit r.offset] := if_neg (by omega)
  have hrequire := @require_eq fmt n r hle hlt
  simp only [slice, AuditM.watch_bind, hremaining]
  by_cases hfits : r.offset + n ≤ r.limit
  · rw [if_pos hfits] at hrequire ⊢
    simp only [AuditM.lift_bind_of_ok hrequire, AuditM.watch_bind]
    simp [AuditM.lift]
  · rw [if_neg hfits] at hrequire ⊢
    simp only [AuditM.lift_bind_of_error hrequire, List.append_nil]
    rfl

theorem demands_slice (n : Nat) : Demands (slice fmt n) (fun _ => [n]) := by
  rintro r ⟨hle, hlt⟩
  rw [slice_eq hle hlt]
  by_cases hfits : r.offset + n ≤ r.limit
  · rw [if_pos hfits]
    refine ⟨?_, ?_, fun _ _ => by simpa using hfits⟩
    · simp only [steps, if_pos hfits, List.append_nil, List.singleton_append, accesses]
    · simp only [reached, if_pos hfits]
  · rw [if_neg hfits]
    refine ⟨?_, ?_, fun a ha => absurd ha (by simp [corrupt, raise])⟩
    · simp only [steps, if_neg hfits]
    · simp only [reached, if_neg hfits]

theorem demands_byte : Demands (byte fmt) (fun _ => [1]) :=
  (demands_slice 1).bind_nil (fun _ => Demands.pure)

theorem byte_of_fits {r : Wire.Reader} (hr : Within r) (hfits : r.offset + 1 ≤ r.limit) :
    ∃ a, (byte fmt r).result = .ok a := by
  have hslice := @slice_eq fmt 1 r hr.offset_le hr.limit_lt
  rw [if_pos hfits] at hslice
  refine ⟨((r.input.drop r.offset).take 1).headD 0, ?_⟩
  rw [byte, AuditM.bind_of_ok (congrArg Trace.result hslice)]
  rfl

theorem byte_of_not_fits {r : Wire.Reader} (hr : Within r) (hfits : ¬ r.offset + 1 ≤ r.limit) :
    byte fmt r =
      ⟨[.difference r.limit r.offset], corrupt (fmt.message " encoding is truncated"), r⟩ := by
  have hslice := @slice_eq fmt 1 r hr.offset_le hr.limit_lt
  rw [if_neg hfits] at hslice
  rw [byte, AuditM.bind_of_error (congrArg Trace.result hslice), hslice]
  rfl

/-- A number demands its bytes one by one, up to the first that is not there. -/
theorem demands_accumulate (step : α → UInt8 → α) (n : Nat) (value : α) :
    Demands (accumulate fmt step n value) (fun _ => List.replicate n 1) := by
  induction n generalizing value with
  | zero => exact Demands.pure
  | succ n ih =>
    intro r hr
    by_cases hfits : r.offset + 1 ≤ r.limit
    · obtain ⟨a, ha⟩ := @byte_of_fits fmt r hr hfits
      have hrest : follow (byte fmt).erase (fun _ _ => List.replicate n 1) r =
          List.replicate n 1 := by
        rw [follow, AuditM.erase_of_ok ha]
      have hserved : Served r ([1] ++ follow (byte fmt).erase (fun _ _ => List.replicate n 1) r)
          (accumulate fmt step (n + 1) value r) :=
        demands_byte.bind (fun current => ih (step value current)) r hr
      rw [hrest] at hserved
      exact hserved
    · have hbyte := @byte_of_not_fits fmt r hr hfits
      rw [accumulate, AuditM.bind_of_error (congrArg Trace.result hbyte), hbyte]
      refine ⟨?_, ?_, fun a ha => absurd ha (by simp)⟩
      · simp only [List.replicate_succ, steps, if_neg hfits]
      · simp only [List.replicate_succ, reached, if_neg hfits]

theorem demands_u32 : Demands (u32 fmt) (fun _ => List.replicate 4 1) := demands_accumulate _ 4 0

theorem demands_u64 : Demands (u64 fmt) (fun _ => List.replicate 8 1) := demands_accumulate _ 8 0

theorem demands_boolean : Demands (boolean fmt) (fun _ => [1]) :=
  demands_byte.bind_nil (fun _ => Demands.check.ite_nil Demands.pure)

theorem demands_identity : Demands (identity fmt) (fun _ => [32]) :=
  (demands_slice 32).bind_nil (fun _ => Demands.pure)

/-- `text` demands its size, and what the size says unless that is too much. -/
def textDemands (fmt : Format) (maximum : Nat) (r : Wire.Reader) : List Nat :=
  List.replicate 4 1 ++
    follow (Reader.u32 fmt) (fun size _ => if size.toNat > maximum then [] else [size.toNat]) r

theorem demands_text (maximum : Nat) : Demands (text fmt maximum) (textDemands fmt maximum) := by
  refine (demands_u32.bind (fun size => Demands.check.ite
    ((demands_slice size.toNat).bind_nil (fun _ => Demands.pure)))).congr ?_
  intro r
  rw [erase_u32]
  rfl

/-- An optional value demands its flag, and its own sizes when it is there. -/
def optionalDemands (fmt : Format) (body : Wire.Reader → List Nat) (r : Wire.Reader) : List Nat :=
  1 :: follow (Reader.boolean fmt) (fun flag r' => if flag then body r' else []) r

theorem demands_optional {body : AuditedReaderM α} (h : Demands body sizes) :
    Demands (optional fmt body) (optionalDemands fmt sizes) := by
  refine (demands_boolean.bind (fun flag =>
    (h.bind_nil (fun _ => Demands.pure)).ite Demands.pure)).congr ?_
  intro r
  rw [erase_boolean]
  rfl

/-- `capture` demands the count and the digest, and the material when it is there. -/
def captureDemands [External] (fmt : Format) (maximum : Nat) : Wire.Reader → List Nat :=
  optionalDemands fmt (fun r =>
    List.replicate 8 1 ++ follow (Reader.u64 fmt) (fun _ r =>
      32 :: follow (Reader.identity fmt) (fun hex =>
        follow (Reader.liftExcept (Identity.fromSha256 hex)) (fun (_ : Sha256Digest) =>
          optionalDemands fmt (textDemands fmt maximum))) r) r)

theorem demands_capture [External] (maximum : Nat) :
    Demands (capture fmt maximum) (captureDemands fmt maximum) := by
  refine demands_optional ?_
  refine (demands_u64.bind (fun count => demands_identity.bind (fun hex =>
    Demands.check.bind (fun digest => (demands_optional (demands_text maximum)).bind_nil
      (fun material => ?_))))).congr ?_
  · cases material with
    | none => exact Demands.pure
    | some material => exact Demands.check.ite_nil Demands.pure
  · intro r
    simp only [erase_u64, erase_identity, AuditM.erase_lift]
    rfl

end Demands

end AuditedReader

/-! ## 3. Sequences of operations

A caller may make any calls, in any order, and go on until one fails.  The demands of a sequence
are those of its calls, each from where the calls before have left the reader. -/

/-- A call of the reader of execution results.  A value that is read is dropped: the caller may
choose the next call by it, and all sequences are considered. -/
inductive ReaderOp
  | byte
  | u16
  | u32
  | u64
  | boolean
  | text (maximum : Nat)
  | identity
  | capture

namespace ReaderOp

variable [External]

/-- The call. -/
def run : ReaderOp → ReaderM Unit
  | byte => do let _ ← Reader.byte resultFormat
  | u16 => do let _ ← Reader.u16 resultFormat
  | u32 => do let _ ← Reader.u32 resultFormat
  | u64 => do let _ ← Reader.u64 resultFormat
  | boolean => do let _ ← Reader.boolean resultFormat
  | text maximum => do let _ ← Reader.text resultFormat maximum
  | identity => do let _ ← Reader.identity resultFormat
  | capture => do let _ ← Reader.capture resultFormat maximumCaptureMaterialSize

/-- The call under audit. -/
def audited : ReaderOp → AuditedReaderM Unit
  | byte => do let _ ← AuditedReader.byte resultFormat
  | u16 => do let _ ← AuditedReader.u16 resultFormat
  | u32 => do let _ ← AuditedReader.u32 resultFormat
  | u64 => do let _ ← AuditedReader.u64 resultFormat
  | boolean => do let _ ← AuditedReader.boolean resultFormat
  | text maximum => do let _ ← AuditedReader.text resultFormat maximum
  | identity => do let _ ← AuditedReader.identity resultFormat
  | capture => do let _ ← AuditedReader.capture resultFormat maximumCaptureMaterialSize

theorem erase_audited (op : ReaderOp) : op.audited.erase = op.run := by
  cases op <;> simp [audited, run]

/-- The sizes it demands. -/
def demands : ReaderOp → Wire.Reader → List Nat
  | byte, _ => [1]
  | u16, _ => List.replicate 2 1
  | u32, _ => List.replicate 4 1
  | u64, _ => List.replicate 8 1
  | boolean, _ => [1]
  | text maximum, r => AuditedReader.textDemands resultFormat maximum r
  | identity, _ => [32]
  | capture, r => AuditedReader.captureDemands resultFormat maximumCaptureMaterialSize r

open AuditedReader in
/-- **One operation.** -/
theorem demands_audited (op : ReaderOp) : Demands op.audited op.demands := by
  cases op with
  | byte => exact demands_byte.bind_nil (fun _ => Demands.pure)
  | u16 => exact (demands_accumulate _ 2 0).bind_nil (fun _ => Demands.pure)
  | u32 => exact demands_u32.bind_nil (fun _ => Demands.pure)
  | u64 => exact demands_u64.bind_nil (fun _ => Demands.pure)
  | boolean => exact demands_boolean.bind_nil (fun _ => Demands.pure)
  | text maximum => exact (demands_text maximum).bind_nil (fun _ => Demands.pure)
  | identity => exact demands_identity.bind_nil (fun _ => Demands.pure)
  | capture => exact (demands_capture _).bind_nil (fun _ => Demands.pure)

end ReaderOp

section Sequences

variable [External]

/-- The calls one after the other, up to the first error. -/
def auditedRun (ops : List ReaderOp) : AuditedReaderM Unit := ops.forM ReaderOp.audited

theorem erase_auditedRun (ops : List ReaderOp) :
    (auditedRun ops).erase = ops.forM ReaderOp.run := by
  refine (AuditM.erase_forM ops ReaderOp.audited).trans ?_
  simp only [ReaderOp.erase_audited]

/-- The sizes demanded by a sequence, up to the first error. -/
def sequenceDemands : List ReaderOp → Wire.Reader → List Nat
  | [], _ => []
  | op :: ops, r => op.demands r ++ AuditedReader.follow op.run (fun _ => sequenceDemands ops) r

/-- The run lemma. -/
theorem demands_auditedRun (ops : List ReaderOp) :
    AuditedReader.Demands (auditedRun ops) (sequenceDemands ops) := by
  induction ops with
  | nil => exact AuditedReader.Demands.pure
  | cons op ops ih =>
    refine (op.demands_audited.bind (fun _ => ih)).congr ?_
    intro r
    rw [op.erase_audited]
    rfl

/-- The reader of `input` up to `limit` is where its limit lets it be; it has computed no
difference that wraps around, and has accessed every byte before its offset once, in order, and
no other. -/
structure Confined (input : Bytes) (limit : Nat) (log : List Observation) (r : Wire.Reader) :
    Prop where
  reader : r = ⟨input, limit, r.offset⟩
  offset_le : r.offset ≤ limit
  exact : ∀ o ∈ log, o.Exact
  accessed : reads log = List.range r.offset

/-- From the start of the payload, after any sequence of calls. -/
theorem confined_auditedRun {input : Bytes} {limit : Nat} (hlt : limit < 2 ^ 64)
    (ops : List ReaderOp) :
    Confined input limit (auditedRun ops ⟨input, limit, 0⟩).log
      (auditedRun ops ⟨input, limit, 0⟩).state := by
  obtain ⟨hlog, hstate, -⟩ := demands_auditedRun ops ⟨input, limit, 0⟩ ⟨Nat.zero_le _, hlt⟩
  rw [hlog, hstate]
  exact ⟨rfl, AuditedReader.reached_le _ (Nat.zero_le _),
    AuditedReader.exact_steps _ (Nat.zero_le _), AuditedReader.reads_steps _ 0⟩

omit [External] in
theorem finish_eq_ok {fmt : Format} {r : Wire.Reader} :
    (∃ x, Reader.finish fmt r = .ok x) ↔ r.offset = r.limit := by
  unfold Reader.finish
  by_cases h : r.offset = r.limit
  · rw [if_neg (not_not.mpr h)]
    exact iff_of_true ⟨_, rfl⟩ h
  · rw [if_pos h]
    exact iff_of_false (by simp [corrupt]) h

/-- **The reader never leaves its payload.**  Take any input of an admitted size and any sequence
of calls, up to its first error.  The offset is within the limit and the limit within the input;
no difference has wrapped around; every byte below the offset has been accessed once and in
order, and no byte from the limit on; and `finish` succeeds when the limit is reached and not
before.  Nothing is missing from the log: it has the difference and the accesses of every size that
the calls demand, and the reader is where these lead, up to the error of a run that fails.  (A
prefix of a sequence is a sequence, so this holds after every call.) -/
theorem reader_confined (b : Bytes) (hshort : b.length ≤ resultFormat.maximum)
    (hlong : encodingMagic.length + 2 + checksumSize ≤ b.length) (ops : List ReaderOp) :
    let limit := b.length - checksumSize
    let t := auditedRun ops ⟨b, limit, 0⟩
    (t.state.offset ≤ t.state.limit ∧ t.state.limit ≤ t.state.input.length ∧
      t.state.limit = limit ∧ t.state.input = b) ∧
    (∀ a c, .difference a c ∈ t.log → c ≤ a) ∧
    (∀ index, .read index ∈ t.log → index < limit) ∧
    reads t.log = List.range t.state.offset ∧
    ((∃ x, Reader.finish resultFormat t.state = .ok x) ↔ t.state.offset = limit) ∧
    (auditedRun ops).erase = ops.forM ReaderOp.run ∧
    t.log = AuditedReader.steps limit 0 (sequenceDemands ops ⟨b, limit, 0⟩) ∧
    t.state = ⟨b, limit, AuditedReader.reached limit 0 (sequenceDemands ops ⟨b, limit, 0⟩)⟩ := by
  intro limit t
  have hmaximum := resultFormat.maximum_lt
  have hlt : limit < 2 ^ 64 := by omega
  obtain ⟨hreader, hle, hexact, haccessed⟩ : Confined b limit t.log t.state :=
    confined_auditedRun hlt ops
  have hinput : t.state.input = b := by rw [hreader]
  have hlimit : t.state.limit = limit := by rw [hreader]
  obtain ⟨hlog, hstate, -⟩ := demands_auditedRun ops ⟨b, limit, 0⟩ ⟨Nat.zero_le _, hlt⟩
  refine ⟨⟨?_, ?_, hlimit, hinput⟩, ?_, ?_, haccessed, ?_, erase_auditedRun ops, hlog, hstate⟩
  · rwa [hlimit]
  · rw [hlimit, hinput]
    omega
  · intro a c hmem
    exact hexact _ hmem
  · intro index hmem
    have hread : index ∈ reads t.log := mem_reads.mpr hmem
    rw [haccessed, List.mem_range] at hread
    omega
  · rw [finish_eq_ok, hlimit]

end Sequences

open Sample in
/-- In the shortest admitted input: a number, an absent stream and a text, of whose size only the
first byte is left to read. -/
theorem reader_confined_shortest :
    (auditedRun [.u64, .capture, .text 5] ⟨List.replicate 42 0, 10, 0⟩).state.offset ≤
        (auditedRun [.u64, .capture, .text 5] ⟨List.replicate 42 0, 10, 0⟩).state.limit ∧
      reads (auditedRun [.u64, .capture, .text 5] ⟨List.replicate 42 0, 10, 0⟩).log =
        List.range (auditedRun [.u64, .capture, .text 5]
          ⟨List.replicate 42 0, 10, 0⟩).state.offset ∧
      (auditedRun [.u64, .capture, .text 5] ⟨List.replicate 42 0, 10, 0⟩).log =
        AuditedReader.steps 10 0 (List.replicate 8 1 ++ [1] ++ List.replicate 4 1) ∧
      (auditedRun [.u64, .capture, .text 5] ⟨List.replicate 42 0, 10, 0⟩).state.offset = 10 := by
  have hshort : (List.replicate 42 (0 : UInt8)).length ≤ resultFormat.maximum := by decide
  have hlong : encodingMagic.length + 2 + checksumSize ≤ (List.replicate 42 (0 : UInt8)).length := by
    decide
  have hdemands : sequenceDemands [.u64, .capture, .text 5] ⟨List.replicate 42 0, 10, 0⟩ =
      List.replicate 8 1 ++ [1] ++ List.replicate 4 1 := by decide +kernel
  obtain ⟨⟨hle, -⟩, -, -, haccessed, -, -, hlog, hstate⟩ :=
    reader_confined _ hshort hlong [.u64, .capture, .text 5]
  have hoffset := congrArg Wire.Reader.offset hstate
  have hlimit : (List.replicate 42 (0 : UInt8)).length - checksumSize = 10 := by decide
  rw [hlimit, hdemands] at hlog hoffset
  exact ⟨hle, haccessed, hlog, hoffset⟩

/-! ## 4. The decoder's reads

`decode_execution_result` chooses the next call by what it has read.  Along a decoding that
succeeds the calls made are a sequence, and Section 3 applies to it. -/

section Decoder

variable [External]

/-- What `m` does to the reader when it succeeds, some sequence of calls does. -/
def Performs {α : Type} (m : ReaderM α) : Prop :=
  ∀ r a r', m r = .ok (a, r') → ∃ ops : List ReaderOp, ops.forM ReaderOp.run r = .ok ((), r')

theorem Performs.pure {α : Type} {a : α} : Performs (Pure.pure a : ReaderM α) := by
  intro r a' r' h
  obtain ⟨-, rfl⟩ := Prod.mk.inj (Except.ok.inj h)
  exact ⟨[], rfl⟩

theorem Performs.check {α : Type} {x : Except Error α} :
    Performs (Reader.liftExcept x : ReaderM α) := by
  intro r a r' h
  obtain ⟨-, rfl⟩ := lift_eq_ok.mp h
  exact ⟨[], rfl⟩

theorem Performs.bind {α β : Type} {m : ReaderM α} {f : α → ReaderM β} (hm : Performs m)
    (hf : ∀ a, Performs (f a)) : Performs (m >>= f) := by
  intro r b r'' h
  obtain ⟨⟨a, r'⟩, hfirst, hsecond⟩ := bind_ok (x := m r) (f := fun x => f x.1 x.2) h
  obtain ⟨ops, hops⟩ := hm r a r' hfirst
  obtain ⟨ops', hops'⟩ := hf a r' b r'' hsecond
  refine ⟨ops ++ ops', ?_⟩
  change (forM (ops ++ ops') ReaderOp.run : ReaderM Unit) r = .ok ((), r'')
  rw [List.forM_append]
  exact bind_eq_ok.mpr ⟨((), r'), hops, hops'⟩

/-- One call. -/
theorem Performs.op {α : Type} {m : ReaderM α} (op : ReaderOp)
    (h : op.run = m >>= fun _ => Pure.pure ()) : Performs m := by
  intro r a r' hm
  refine ⟨[op], ?_⟩
  change (op.run >>= fun _ => Pure.pure ()) r = .ok ((), r')
  rw [h]
  exact bind_eq_ok.mpr ⟨((), r'), bind_eq_ok.mpr ⟨(a, r'), hm, rfl⟩, rfl⟩

theorem performs_optional {α : Type} {body : ReaderM α} (h : Performs body) :
    Performs (Reader.optional resultFormat body) := by
  refine (Performs.op .boolean rfl).bind ?_
  intro flag
  split
  · exact h.bind (fun _ => Performs.pure)
  · exact Performs.pure

theorem performs_enum {E : Type} (decode : UInt8 → Except Error E) : Performs (readEnum decode) :=
  (Performs.op .byte rfl).bind (fun _ => Performs.check)

theorem performs_termination : Performs decodeTermination := by
  refine (Performs.op .byte rfl).bind (fun kind => ?_)
  refine (performs_optional (Performs.op .u32 rfl)).bind (fun value => ?_)
  refine (performs_optional (performs_enum decodeLimit)).bind (fun limit => ?_)
  exact Performs.check

theorem performs_many {α : Type} {m : ReaderM α} (h : Performs m) (count : Nat) :
    Performs (many m count) := by
  induction count with
  | zero => exact Performs.pure
  | succ count ih => exact h.bind (fun a => ih.bind (fun rest => Performs.pure))

theorem performs_magic (magic : Bytes) : Performs (readMagic magic) := by
  induction magic with
  | nil => exact Performs.pure
  | cons expected rest ih =>
    refine (Performs.op .byte rfl).bind (fun value => ?_)
    exact Performs.check.bind (fun _ => ih)

/-- **What `decode_execution_result` reads is a sequence of calls.** -/
theorem performs_readRecord (q : ExecutionRequest) (p : BackendCapabilityProfile) :
    Performs (readRecord q p) := by
  unfold readRecord
  -- the header, and the identities of the request and the profile
  refine (performs_magic _).bind (fun _ => ?_)
  refine (Performs.op .u16 rfl).bind (fun version => Performs.check.bind (fun _ => ?_))
  refine (Performs.op .identity rfl).bind (fun requestIdentity => ?_)
  refine (Performs.op .identity rfl).bind (fun backendIdentity => ?_)
  refine (Performs.op .identity rfl).bind (fun evidenceIdentity => ?_)
  refine Performs.check.bind (fun _ => Performs.check.bind (fun _ => ?_))
  -- the process evidence
  refine (performs_enum decodeStatus).bind (fun status => ?_)
  refine (performs_enum decodeStartState).bind (fun startState => ?_)
  refine (performs_optional ((Performs.op .identity rfl).bind (fun _ => Performs.check))).bind
    (fun interpreter => ?_)
  refine (performs_optional performs_termination).bind (fun termination => ?_)
  refine (Performs.op .capture rfl).bind (fun standardOutput => ?_)
  refine (Performs.op .capture rfl).bind (fun standardError => ?_)
  -- the guarantees and the outcome
  refine (Performs.op .u16 rfl).bind (fun count => Performs.check.bind (fun _ => ?_))
  refine (performs_many (performs_enum decodeGuarantee) count.toNat).bind (fun guarantees => ?_)
  refine Performs.check.bind (fun _ => ?_)
  refine (performs_enum decodeCleanup).bind (fun cleanup => ?_)
  refine (performs_optional (performs_enum decodeFailure)).bind (fun failure => ?_)
  refine (Performs.op (.text maximumDiagnosticSize) rfl).bind (fun diagnostic => ?_)
  exact Performs.pure

/-- **So the decoder stays within the payload as well**: a record that is read leaves the reader
where some sequence of calls leaves it, confined. -/
theorem readRecord_confined {q : ExecutionRequest} {p : BackendCapabilityProfile} {b : Bytes}
    {limit : Nat} {record : ResultRecord} {r : Wire.Reader} (hlt : limit < 2 ^ 64)
    (h : readRecord q p ⟨b, limit, 0⟩ = .ok (record, r)) :
    ∃ ops, (auditedRun ops ⟨b, limit, 0⟩).state = r ∧
      Confined b limit (auditedRun ops ⟨b, limit, 0⟩).log r := by
  obtain ⟨ops, hops⟩ := performs_readRecord q p _ _ _ h
  rw [← erase_auditedRun] at hops
  have hstate : (auditedRun ops ⟨b, limit, 0⟩).state = r := AuditM.state_of_erase hops
  have hconfined := @confined_auditedRun _ b limit hlt ops
  rw [hstate] at hconfined
  exact ⟨ops, hstate, hconfined⟩

end Decoder

end Pkgexec
