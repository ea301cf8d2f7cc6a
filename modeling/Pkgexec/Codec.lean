/-
# The writer and the reader of the codecs

`class writer` and `class reader` of `src/result_codec.cpp`.  Those of `src/profile_codec.cpp`
are the same but for the size bound, the error code, the name in the messages and one
comparison, so a `Format` holds what differs.

A size is a `std::size_t`, and where the source subtracts two of them the difference wraps
around (`sizeSub`).  For every field there is one lemma that says which bytes are written and
one that says they are read back.
-/
import Pkgexec.Evidence
import Pkgexec.Lib.Wire

namespace Pkgexec

open Bytes Wire

/-! ## 1. Formats

What the two codecs do not share is data: a name, a bound, a code, and whether the reader compares
its offset with its limit before it subtracts.  `decodeEnum` is the form of every `decode_...`
function that turns a byte into an enumerator. -/

/-- What tells one codec from the other. -/
structure Format where
  /-- The first words of its messages. -/
  subject : String
  /-- The largest encoding. -/
  maximum : Nat
  /-- The error of an encoding that is too large. -/
  code : ErrorCode
  /-- Whether `reader::require` first compares the offset with the limit. -/
  guarded : Bool
  maximum_lt : maximum < 2 ^ 32

/-- A message about the format. -/
def Format.message (fmt : Format) (message : String) : Bytes := text fmt.subject ++ text message

/-- `a - b` on `std::size_t`. -/
def sizeSub (a b : Nat) : Nat := (a + 2 ^ 64 - b) % 2 ^ 64

/-- Without an underflow it is the difference. -/
theorem sizeSub_eq {a b : Nat} (hle : b ≤ a) (hlt : a < 2 ^ 64) : sizeSub a b = a - b := by
  have hshift : a + 2 ^ 64 - b = (a - b) + 2 ^ 64 := by omega
  rw [sizeSub, hshift, Nat.add_mod_right, Nat.mod_eq_of_lt (by omega)]

/-- `corrupt(message)`. -/
def corrupt {α : Type} (message : Bytes) : Except Error α := raise .corruptEncoding message

/-- The byte of an enumerator, refused when it is none. -/
def decodeEnum {E : Type} [DecidableEq E] [Enumeration E] (fmt : Format) (message : String)
    (value : UInt8) : Except Error E :=
  match ofValue? value.toNat with
  | some e => .ok e
  | none => corrupt (fmt.message message)

/-- The byte of an enumerator is decoded to it. -/
theorem decodeEnum_enumByte {E : Type} [DecidableEq E] [Enumeration E] (fmt : Format)
    (message : String) (e : E) : decodeEnum fmt message (enumByte e) = .ok e := by
  simp [decodeEnum]

/-! ## 2. The writer

Each operation appends to the output and then compares its size with the bound; only `raw` compares
first, with a subtraction.  Nothing is said of the output of a writer that fails, as no caller sees
it. -/

abbrev Writer := WriterM Error Unit

namespace Writer

/-- `writer::check_size`. -/
def checkSize (fmt : Format) : Writer := fun output =>
  if output.length > fmt.maximum then
    raise fmt.code (fmt.message " encoding exceeds maximum size")
  else .ok ((), output)

def byte (fmt : Format) (value : UInt8) : Writer := fun output =>
  checkSize fmt (output ++ [value])

def u16 (fmt : Format) (value : UInt16) : Writer := do
  byte fmt ((value >>> 8) &&& 0xff).toUInt8
  byte fmt (value &&& 0xff).toUInt8

def u32 (fmt : Format) (value : UInt32) : Writer :=
  [24, 16, 8, 0].forM (fun shift => byte fmt ((value >>> shift) &&& 0xff).toUInt8)

def u64 (fmt : Format) (value : UInt64) : Writer :=
  [56, 48, 40, 32, 24, 16, 8, 0].forM (fun shift => byte fmt ((value >>> shift) &&& 0xff).toUInt8)

def boolean (fmt : Format) (value : Bool) : Writer := byte fmt (if value then 1 else 0)

def raw (fmt : Format) (data : Bytes) : Writer := fun output =>
  if data.length = 0 then .ok ((), output)
  else if data.length > sizeSub fmt.maximum output.length then
    raise fmt.code (fmt.message " encoding exceeds maximum size")
  else .ok ((), output ++ data)

/-- `throw error(code, message)` in a writer. -/
def fail (code : ErrorCode) (message : Bytes) : Writer := fun _ => raise code message

def text (fmt : Format) (value : Bytes) : Writer :=
  if value.length > 2 ^ 32 - 1 then fail fmt.code (fmt.message " text field is too large")
  else do
    u32 fmt (.ofNat value.length)
    raw fmt value

/-- The loop of `writer::identity` over pairs of digits. -/
def digits (fmt : Format) : Bytes → Writer
  | high :: low :: rest => do
    byte fmt ((digit high <<< 4) ||| digit low)
    digits fmt rest
  | _ => return ()

def identity (fmt : Format) (value : Bytes) : Writer :=
  match requireSha256Hex value with
  | .error e => fail e.code e.what
  | .ok _ => digits fmt value

/-- `boolean(value.has_value())`, and what is written when there is a value. -/
def optional {α : Type} (fmt : Format) (value : Option α) (body : α → Writer) : Writer := do
  boolean fmt value.isSome
  match value with
  | none => return ()
  | some value => body value

def capture [External] (fmt : Format) (value : Option StreamCapture) : Writer :=
  optional fmt value (fun value => do
    u64 fmt value.byteCount
    identity fmt value.digest.hex.val
    optional fmt value.material (fun material => text fmt material.val))

/-! ### What is written

For each operation the bytes that it appends when they fit.  That an operation stops when they do
not fit is part of `Emits`, so the size of a whole record decides whether it can be written. -/

section Emits

variable {fmt : Format}

/-- `w` appends `bs` within the bound of the format. -/
def Emits (fmt : Format) (w : Writer) (bs : Bytes) : Prop :=
  Wire.Emits fmt.maximum (fun e : Error => e.code = fmt.code) w bs

theorem emits_byte (value : UInt8) : Emits fmt (byte fmt value) [value] where
  fits := by
    intro out hfit
    have hle : ¬ (out ++ [value]).length > fmt.maximum := by simpa using hfit
    rw [byte, checkSize, if_neg hle]
  exceeds := by
    intro out _ hlt
    have hgt : (out ++ [value]).length > fmt.maximum := by simpa using hlt
    exact ⟨⟨fmt.code, fmt.message " encoding exceeds maximum size"⟩,
      by rw [byte, checkSize, if_pos hgt, raise], rfl⟩

theorem emits_raw (data : Bytes) : Emits fmt (raw fmt data) data where
  fits := by
    intro out hfit
    have hlt := fmt.maximum_lt
    rw [raw, sizeSub_eq (by omega) (by omega)]
    split
    · rename_i hnil
      rw [List.eq_nil_of_length_eq_zero hnil, List.append_nil]
    · rw [if_neg (by omega)]
  exceeds := by
    intro out hle hexceeds
    have hlt := fmt.maximum_lt
    exact ⟨⟨fmt.code, fmt.message " encoding exceeds maximum size"⟩,
      by rw [raw, sizeSub_eq hle (by omega), if_neg (by omega), if_pos (by omega), raise], rfl⟩

/-- The shifts and masks of the source are the bytes of the number, most significant first. -/
theorem byte16 (value shift : UInt16) (h : shift < 16) :
    ((value >>> shift) &&& 0xff).toUInt8 = UInt8.ofNat (value.toNat / 2 ^ shift.toNat) := by
  rw [← ofNat_shift_mask]
  apply UInt8.toNat_inj.mp
  have hs : shift.toNat % 16 = shift.toNat := Nat.mod_eq_of_lt h
  simp [hs]

theorem byte32 (value shift : UInt32) (h : shift < 32) :
    ((value >>> shift) &&& 0xff).toUInt8 = UInt8.ofNat (value.toNat / 2 ^ shift.toNat) := by
  rw [← ofNat_shift_mask]
  apply UInt8.toNat_inj.mp
  have hs : shift.toNat % 32 = shift.toNat := Nat.mod_eq_of_lt h
  simp [hs]

theorem byte64 (value shift : UInt64) (h : shift < 64) :
    ((value >>> shift) &&& 0xff).toUInt8 = UInt8.ofNat (value.toNat / 2 ^ shift.toNat) := by
  rw [← ofNat_shift_mask]
  apply UInt8.toNat_inj.mp
  have hs : shift.toNat % 64 = shift.toNat := Nat.mod_eq_of_lt h
  simp [hs]

theorem emits_u16 (value : UInt16) : Emits fmt (u16 fmt value) (bigEndian 2 value.toNat) := by
  refine ((emits_byte _).bind (emits_byte _)).congr ?_
  have hlow := byte16 value 0 (by decide)
  have hhigh := byte16 value 8 (by decide)
  simp only [UInt16.shiftRight_zero] at hlow
  rw [hlow, hhigh]
  simp [bigEndian]

theorem emits_u32 (value : UInt32) : Emits fmt (u32 fmt value) (bigEndian 4 value.toNat) := by
  have hlt : ∀ shift ∈ ([24, 16, 8, 0] : List UInt32), shift < 32 := by simp
  have hbytes : Emits fmt (u32 fmt value) ([24, 16, 8, 0].flatMap
      (fun shift : UInt32 => [UInt8.ofNat (value.toNat / 2 ^ shift.toNat)])) := by
    refine Wire.Emits.forM (fun shift hs => ?_)
    rw [byte32 value shift (hlt shift hs)]
    exact emits_byte _
  exact hbytes.congr (by simp [bigEndian, Nat.div_div_eq_div_mul])

theorem emits_u64 (value : UInt64) : Emits fmt (u64 fmt value) (bigEndian 8 value.toNat) := by
  have hlt : ∀ shift ∈ ([56, 48, 40, 32, 24, 16, 8, 0] : List UInt64), shift < 64 := by simp
  have hbytes : Emits fmt (u64 fmt value) ([56, 48, 40, 32, 24, 16, 8, 0].flatMap
      (fun shift : UInt64 => [UInt8.ofNat (value.toNat / 2 ^ shift.toNat)])) := by
    refine Wire.Emits.forM (fun shift hs => ?_)
    rw [byte64 value shift (hlt shift hs)]
    exact emits_byte _
  exact hbytes.congr (by simp [bigEndian, Nat.div_div_eq_div_mul])

theorem emits_boolean (value : Bool) :
    Emits fmt (boolean fmt value) [if value then (1 : UInt8) else 0] :=
  emits_byte _

/-- A refusal with the code of the format stops as a lack of room does. -/
theorem halts_fail (code : ErrorCode) (message : Bytes) (h : code = fmt.code) :
    Halts fmt.maximum (fun e : Error => e.code = fmt.code) (fail code message) :=
  fun _ _ => ⟨_, rfl, h⟩

/-- A length in 32 bits and the bytes: a longer text would not fit the format. -/
theorem emits_text (value : Bytes) :
    Emits fmt (text fmt value) (bigEndian 4 value.length ++ value) := by
  unfold text
  split
  · rename_i hlong
    have hlt := fmt.maximum_lt
    exact {
      fits := fun _ hfit => absurd hfit (by simp only [List.length_append]; omega)
      exceeds := fun out hle _ => halts_fail _ _ rfl out hle }
  · have hlen : (UInt32.ofNat value.length).toNat = value.length := by
      rw [UInt32.toNat_ofNat', Nat.mod_eq_of_lt (by omega)]
    have hsize := @emits_u32 fmt (.ofNat value.length)
    rw [hlen] at hsize
    exact hsize.bind (emits_raw value)

/-- Each pair of digits is a byte. -/
theorem emits_digits : ∀ value : Bytes, Emits fmt (digits fmt value) (hexDecode value)
  | [] => Wire.Emits.pure
  | [_] => Wire.Emits.pure
  | _ :: _ :: rest => (emits_byte _).bind (emits_digits rest)

/-- An identity is a text of digits already, so its check passes. -/
theorem emits_identity {kind : IdentityKind} (i : Identity kind) :
    Emits fmt (identity fmt i.hex.val) (hexDecode i.hex.val) := by
  rw [identity, requireSha256Hex_ok i.isHex]
  exact emits_digits _

/-- The checksum of a payload, as the codecs write it. -/
theorem emits_checksum [External] (bytes : Bytes) :
    Emits fmt (identity fmt (sha256Hex bytes)) (External.sha256 bytes).val := by
  have h := @emits_identity fmt _ (Sha256Digest.ofBytes bytes)
  have hhex : (Sha256Digest.ofBytes bytes).hex.val = hexEncode (External.sha256 bytes).val := rfl
  rwa [hhex, hexDecode_hexEncode] at h

theorem emits_optional {α : Type} {value : Option α} {body : α → Writer} {g : α → Bytes}
    (h : ∀ a, Emits fmt (body a) (g a)) :
    Emits fmt (optional fmt value body) (IdentityBuilder.optionField g value) := by
  cases value with
  | none => exact (emits_boolean false).bind Wire.Emits.pure
  | some a => exact (emits_boolean true).bind (h a)

/-- The bytes of a capture. -/
def captureBytes [External] (value : Option StreamCapture) : Bytes :=
  IdentityBuilder.optionField (fun c => bigEndian 8 c.byteCount.toNat ++
    (hexDecode c.digest.hex.val ++
      IdentityBuilder.optionField (fun m : Str => bigEndian 4 m.val.length ++ m.val) c.material))
    value

theorem emits_capture [External] (value : Option StreamCapture) :
    Emits fmt (capture fmt value) (captureBytes value) :=
  emits_optional (fun c => (emits_u64 c.byteCount).bind
    ((emits_identity c.digest).bind (emits_optional (fun m => emits_text m.val))))

end Emits

end Writer

/-! ## 3. The reader

The reader has an input, a limit below which it may read, and an offset.  Every operation asks for
its bytes with `require`, whose subtraction wraps around should the offset ever pass the limit;
`ReaderBounds` shows that it does not. -/

abbrev ReaderM := Wire.ReaderM Error

namespace Reader

/-- A failure of the computation itself. -/
def liftExcept {α : Type} (x : Except Error α) : ReaderM α := StateT.lift x

/-- `reader::require`. -/
def require (fmt : Format) (size : Nat) : ReaderM Unit := fun r =>
  if (fmt.guarded = true ∧ r.offset > r.limit) ∨ size > sizeSub r.limit r.offset then
    corrupt (fmt.message " encoding is truncated")
  else .ok ((), r)

/-- `require(n)`, then `input_[offset_++]` `n` times. -/
def slice (fmt : Format) (n : Nat) : ReaderM Bytes := do
  require fmt n
  fun r => .ok ((r.input.drop r.offset).take n, { r with offset := r.offset + n })

def byte (fmt : Format) : ReaderM UInt8 := do
  let value ← slice fmt 1
  return value.headD 0

/-- `for (int index = 0; index < n; ++index) value = step(value, byte());` -/
def accumulate {α : Type} (fmt : Format) (step : α → UInt8 → α) : Nat → α → ReaderM α
  | 0, value => return value
  | n + 1, value => do
    let current ← byte fmt
    accumulate fmt step n (step value current)

def u16 (fmt : Format) : ReaderM UInt16 :=
  accumulate fmt (fun value current => (value <<< 8) ||| current.toUInt16) 2 0

def u32 (fmt : Format) : ReaderM UInt32 :=
  accumulate fmt (fun value current => (value <<< 8) ||| current.toUInt32) 4 0

def u64 (fmt : Format) : ReaderM UInt64 :=
  accumulate fmt (fun value current => (value <<< 8) ||| current.toUInt64) 8 0

def boolean (fmt : Format) : ReaderM Bool := do
  let value ← byte fmt
  if value > 1 then
    liftExcept (corrupt (fmt.message " encoding contains an invalid boolean"))
  else return value = 1

theorem length_take_lt (bs : Bytes) (size : UInt32) : (bs.take size.toNat).length < 2 ^ 64 := by
  have hsize := size.toNat_lt
  have htake : (bs.take size.toNat).length ≤ size.toNat := List.length_take_le _ _
  omega

def text (fmt : Format) (maximum : Nat) : ReaderM Str := do
  let size ← u32 fmt
  if size.toNat > maximum then
    liftExcept (corrupt (fmt.message " text field exceeds its limit"))
  else
    let value ← slice fmt size.toNat
    return ⟨value.take size.toNat, length_take_lt value size⟩

def identity (fmt : Format) : ReaderM Bytes := do
  let value ← slice fmt 32
  return hexEncode value

/-- `if (boolean()) ...` -/
def optional {α : Type} (fmt : Format) (body : ReaderM α) : ReaderM (Option α) := do
  if ← boolean fmt then
    let value ← body
    return some value
  else return none

def capture [External] (fmt : Format) (maximum : Nat) : ReaderM (Option StreamCapture) :=
  optional fmt (do
    let count ← u64 fmt
    let hex ← identity fmt
    let digest ← liftExcept (Identity.fromSha256 hex)
    let material ← optional fmt (text fmt maximum)
    match material with
    | none => return StreamCapture.observed count digest
    | some material =>
      let retained := StreamCapture.retained material
      if retained.byteCount ≠ count ∨ retained.digest ≠ digest then
        liftExcept (corrupt (fmt.message " retained stream evidence is inconsistent"))
      else return retained)

def finish (fmt : Format) : ReaderM Unit := fun r =>
  if r.offset ≠ r.limit then
    corrupt (fmt.message " encoding contains trailing payload bytes")
  else .ok ((), r)

/-! ### What both decoders do with it

The decoders read enumerators and compare the magic in the same way, so both are said here once for
any format. -/

/-- A byte that is decoded at once. -/
def enum {E : Type} (fmt : Format) (decode : UInt8 → Except Error E) : ReaderM E := do
  let value ← byte fmt
  liftExcept (decode value)

/-- `for (const auto expected : encoding_magic) if (input.byte() != expected) corrupt(...);` -/
def magic (fmt : Format) : Bytes → ReaderM Unit
  | [] => return ()
  | expected :: rest => do
    let value ← byte fmt
    liftExcept (refuseIf (value ≠ expected) .corruptEncoding
      (fmt.message " encoding has invalid magic"))
    magic fmt rest

/-! ### What is read back

The converse of what is written: where the bytes of a field stand, below the limit, they are read
as that field. -/

section Reads

variable {fmt : Format}

/-- Bytes that are there are handed out. -/
theorem reads_slice {n : Nat} {bs : Bytes} (hlen : bs.length = n) :
    Reads (slice fmt n) bs bs := by
  intro pre suf limit hle hlt
  subst hlen
  have hrequire : require fmt bs.length ⟨pre ++ bs ++ suf, limit, pre.length⟩
      = .ok ((), ⟨pre ++ bs ++ suf, limit, pre.length⟩) := by
    rw [require, if_neg]
    rintro (⟨-, hover⟩ | hover)
    · have : pre.length > limit := hover
      omega
    · have : bs.length > sizeSub limit pre.length := hover
      rw [sizeSub_eq (by omega) hlt] at this
      omega
  simp only [slice, bind, StateT.bind, hrequire]
  simp [Except.bind]

theorem reads_byte (b : UInt8) : Reads (byte fmt) [b] b :=
  (reads_slice rfl).map (fun value => value.headD 0)

theorem reads_enum {E : Type} [DecidableEq E] [Enumeration E] {decode : UInt8 → Except Error E}
    {e : E} (h : decode (enumByte e) = .ok e) : Reads (enum fmt decode) [enumByte e] e :=
  (reads_byte _).bind_lift h

theorem reads_magic (bytes : Bytes) : Reads (magic fmt bytes) bytes () := by
  induction bytes with
  | nil => exact Reads.pure
  | cons b rest ih =>
    have hsame : refuseIf (b ≠ b) .corruptEncoding
        (fmt.message " encoding has invalid magic") = .ok () := by simp
    exact (reads_byte b).bind (Reads.lift_bind hsame ih)

/-- A number is folded from its bytes. -/
theorem reads_accumulate {α : Type} {step : α → UInt8 → α} (bs : Bytes) (value : α) :
    Reads (accumulate fmt step bs.length value) bs (bs.foldl step value) := by
  induction bs generalizing value with
  | nil => exact Reads.pure
  | cons b bs ih => exact (reads_byte b).bind (ih (step value b))

theorem reads_u16 (value : UInt16) : Reads (u16 fmt) (bigEndian 2 value.toNat) value := by
  have h := @reads_accumulate fmt UInt16 (fun v b => (v <<< 8) ||| b.toUInt16)
    (bigEndian 2 value.toNat) 0
  rw [length_bigEndian] at h
  rwa [← foldWord16, foldWord16_bigEndian] at h

theorem reads_u32 (value : UInt32) : Reads (u32 fmt) (bigEndian 4 value.toNat) value := by
  have h := @reads_accumulate fmt UInt32 (fun v b => (v <<< 8) ||| b.toUInt32)
    (bigEndian 4 value.toNat) 0
  rw [length_bigEndian] at h
  rwa [← foldWord32, foldWord32_bigEndian] at h

theorem reads_u64 (value : UInt64) : Reads (u64 fmt) (bigEndian 8 value.toNat) value := by
  have h := @reads_accumulate fmt UInt64 (fun v b => (v <<< 8) ||| b.toUInt64)
    (bigEndian 8 value.toNat) 0
  rw [length_bigEndian] at h
  rwa [← foldWord64, foldWord64_bigEndian] at h

theorem reads_boolean (value : Bool) :
    Reads (boolean fmt) [if value then (1 : UInt8) else 0] value := by
  refine ((reads_byte _).bind ?_).congr (List.append_nil _)
  cases value <;> exact Reads.pure

/-- A text is read back when it is within the maximum that the caller gives. -/
theorem reads_text {maximum : Nat} {value : Str} (h : value.val.length ≤ maximum)
    (h32 : value.val.length < 2 ^ 32) :
    Reads (text fmt maximum) (bigEndian 4 value.val.length ++ value.val) value := by
  have hlen : (UInt32.ofNat value.val.length).toNat = value.val.length := by
    rw [UInt32.toNat_ofNat', Nat.mod_eq_of_lt h32]
  have hsize := @reads_u32 fmt (.ofNat value.val.length)
  rw [hlen] at hsize
  refine hsize.bind ?_
  rw [if_neg (by omega)]
  have hslice := (@reads_slice fmt _ _ hlen.symm).map (fun bs : Bytes =>
    (⟨bs.take (UInt32.ofNat value.val.length).toNat, length_take_lt bs _⟩ : Str))
  have hvalue : (⟨value.val.take (UInt32.ofNat value.val.length).toNat,
      length_take_lt value.val _⟩ : Str) = value :=
    Subtype.ext (List.take_of_length_le hlen.ge)
  rwa [hvalue] at hslice

theorem reads_identity {kind : IdentityKind} (i : Identity kind) :
    Reads (identity fmt) (hexDecode i.hex.val) i.hex.val := by
  have h := (@reads_slice fmt _ _ i.length_hexDecode_hex).map hexEncode
  rwa [i.hexEncode_hexDecode_hex] at h

/-- The flag says whether to read on. -/
theorem reads_optional {α : Type} {body : ReaderM α} {g : α → Bytes} {value : Option α}
    (h : ∀ a ∈ value, Reads body (g a) a) :
    Reads (optional fmt body) (IdentityBuilder.optionField g value) value := by
  cases value with
  | none => exact (reads_boolean false).bind Reads.pure
  | some a =>
    exact (reads_boolean true).bind ((h a rfl).map some)

/-- A capture whose material respects the bound is read back, its two checks being about values
the material determines. -/
theorem reads_capture [External] {maximum : Nat} {value : Option StreamCapture}
    (h : ∀ c ∈ value, ∀ m ∈ c.material, m.val.length ≤ maximum ∧ m.val.length < 2 ^ 32) :
    Reads (capture fmt maximum) (Writer.captureBytes value) value := by
  refine reads_optional (fun c hc => ?_)
  have hmaterial : Reads (optional fmt (text fmt maximum)) (IdentityBuilder.optionField
      (fun m : Str => bigEndian 4 m.val.length ++ m.val) c.material) c.material :=
    reads_optional (fun m hm => reads_text (h c hc m hm).1 (h c hc m hm).2)
  refine (reads_u64 c.byteCount).bind ((reads_identity c.digest).bind
    (Reads.lift_bind (Identity.fromSha256_hex c.digest) (hmaterial.bind_nil ?_)))
  cases hm : c.material with
  | none =>
    rw [← StreamCapture.eq_observed hm]
    exact Reads.pure
  | some m =>
    simp only [← StreamCapture.eq_retained hm, ne_eq, not_true_eq_false, or_self, if_false]
    exact Reads.pure

end Reads

/-! ### What is consumed

And the other way: whatever a read returns, the bytes for it stood at the offset.  This is needed
for the header of a record, which is read before anything is known of the record. -/

section Takes

variable {fmt : Format}

/-- At a valid position nothing wraps around. -/
theorem slice_eq {n : Nat} {r : Wire.Reader} (h : r.Valid) :
    slice fmt n r = if r.offset + n ≤ r.limit then
        .ok ((r.input.drop r.offset).take n, { r with offset := r.offset + n })
      else corrupt (fmt.message " encoding is truncated") := by
  have hle := h.offset_le
  have hsub : sizeSub r.limit r.offset = r.limit - r.offset := sizeSub_eq hle h.limit_lt
  simp only [slice, bind, StateT.bind, require, hsub]
  split
  · rename_i hover
    rw [if_neg (by omega)]
    rfl
  · rename_i hfits
    rw [if_pos (by omega)]
    rfl

/-- What is handed out stands at the offset, below the limit. -/
theorem takes_slice {n : Nat} :
    Takes (slice fmt n) (fun bs value => bs.length = n ∧ value = bs) := by
  intro r value r' hvalid h
  rw [slice_eq hvalid] at h
  split at h
  · rename_i hfits
    obtain ⟨rfl, rfl⟩ := Prod.mk.inj (Except.ok.inj h)
    have hlimit := hvalid.limit_le
    have hlen : ((r.input.drop r.offset).take n).length = n := by
      rw [List.length_take, List.length_drop]
      omega
    refine ⟨(r.input.drop r.offset).take n, ⟨?_, ?_, ?_⟩, hlen, rfl⟩
    · rw [hlen, ← List.drop_drop, List.take_append_drop]
    · rw [hlen]
    · exact ⟨hfits, hvalid.limit_le, hvalid.limit_lt⟩
  · exact absurd h raise_ne_ok

theorem takes_byte : Takes (byte fmt) (fun bs value => bs = [value]) := by
  refine (takes_slice.bind (fun _ => Takes.pure)).mono ?_
  rintro bs value ⟨xs, ys, taken, rfl, ⟨hlen, rfl⟩, rfl, rfl⟩
  obtain ⟨b, rfl⟩ := List.length_eq_one_iff.mp hlen
  rfl

theorem takes_magic (bytes : Bytes) : Takes (magic fmt bytes) (fun bs _ => bs = bytes) := by
  induction bytes with
  | nil => exact Takes.pure.mono (fun bs _ h => h.1)
  | cons expected rest ih =>
    have hsame : ∀ value u, refuseIf (value ≠ expected) .corruptEncoding
        (fmt.message " encoding has invalid magic") = .ok u → value = expected :=
      fun value u h => not_not.mp (refuseIf_eq_ok.mp h)
    refine (takes_byte.bind (fun value => (Takes.lift (hsame value)).bind (fun _ => ih))).mono ?_
    rintro bs u ⟨xs, ys, value, rfl, rfl, xs', ys', _, rfl, ⟨rfl, rfl⟩, rfl⟩
    rfl

theorem takes_accumulate {α : Type} {step : α → UInt8 → α} (n : Nat) (value : α) :
    Takes (accumulate fmt step n value)
      (fun bs result => bs.length = n ∧ result = bs.foldl step value) := by
  induction n generalizing value with
  | zero =>
    refine Takes.pure.mono ?_
    rintro bs result ⟨rfl, rfl⟩
    exact ⟨rfl, rfl⟩
  | succ n ih =>
    refine (takes_byte.bind (fun current => ih (step value current))).mono ?_
    rintro bs result ⟨xs, ys, current, rfl, rfl, hlen, rfl⟩
    exact ⟨by simp [hlen], rfl⟩

theorem takes_u16 : Takes (u16 fmt) (fun bs value => bs = bigEndian 2 value.toNat) := by
  refine (takes_accumulate 2 0).mono ?_
  rintro bs value ⟨hlen, rfl⟩
  exact (bigEndian_foldWord16 hlen).symm

theorem takes_identity :
    Takes (identity fmt) (fun bs hex => bs.length = 32 ∧ hex = hexEncode bs) := by
  refine (takes_slice.bind (fun _ => Takes.pure)).mono ?_
  rintro bs hex ⟨xs, ys, taken, rfl, ⟨hlen, rfl⟩, rfl, rfl⟩
  rw [List.append_nil]
  exact ⟨hlen, rfl⟩

end Takes

end Reader

end Pkgexec
