/-
# Byte strings: sizes, big-endian integers, hexadecimal text

What a program that hashes and serialises by hand needs to know about byte strings:

* `Vec` and `Str`, sequences whose size fits a 64-bit `std::size_t`;
* `bigEndian`/`ofBigEndian`, unsigned integers of a fixed number of bytes, and the shift
  loops on machine words that compute them;
* `hexEncode`/`hexDecode`, lowercase hexadecimal text, a bijection between byte strings and
  the texts of even length over the sixteen digits;
* a trailer of a known length, cut off again.
-/
import Pkgexec.Lib.Ranges

/-- A raw byte buffer. -/
abbrev Bytes := List UInt8

/-- `std::vector`: a sequence whose `size()` is a 64-bit `std::size_t`. -/
abbrev Vec (α : Type) := {l : List α // l.length < 2 ^ 64}

/-- The empty vector. -/
def Vec.nil {α : Type} : Vec α := ⟨[], Nat.two_pow_pos 64⟩

/-- `std::string`. -/
abbrev Str := Vec UInt8

namespace Bytes

/-- The bytes of a (Latin-1) string literal. -/
def text (s : String) : Bytes := s.toList.map (fun c => c.toNat.toUInt8)

/-- A property of every byte is checked on the 256 of them. -/
theorem forall_byte {p : UInt8 → Prop} (h : ∀ n : Fin 256, p (UInt8.ofNat n)) (b : UInt8) : p b := by
  have hb := h ⟨b.toNat, b.toNat_lt⟩
  simpa using hb

/-! ## 1. Big-endian integers

Of natural numbers.  The machine words come in with the loops that read them, which shift by eight
and add a byte, and lose what is shifted out at the top. -/

/-- The low `n` bytes of `v`, most significant first: the loop that stores `v & 0xff` from
the last position down and shifts `v` right by eight each time. -/
def bigEndian : Nat → Nat → Bytes
  | 0, _ => []
  | n + 1, v => bigEndian n (v / 256) ++ [UInt8.ofNat v]

/-- The unsigned integer a big-endian byte string denotes. -/
def ofBigEndian (bs : Bytes) : Nat := bs.foldl (fun acc b => acc * 256 + b.toNat) 0

@[simp] theorem length_bigEndian : ∀ n v : Nat, (bigEndian n v).length = n
  | 0, _ => rfl
  | n + 1, v => by simp [bigEndian, length_bigEndian n]

theorem ofBigEndian_concat (bs : Bytes) (b : UInt8) :
    ofBigEndian (bs ++ [b]) = ofBigEndian bs * 256 + b.toNat := by
  simp [ofBigEndian]

theorem ofBigEndian_bigEndian : ∀ n v : Nat, ofBigEndian (bigEndian n v) = v % 256 ^ n
  | 0, v => by simp [bigEndian, ofBigEndian, Nat.mod_one]
  | n + 1, v => by
    rw [bigEndian, ofBigEndian_concat, ofBigEndian_bigEndian n]
    have hlow : (UInt8.ofNat v).toNat = v % 256 := by simp
    rw [hlow, Nat.pow_succ, Nat.mul_comm (256 ^ n), Nat.mod_mul]
    omega

theorem ofBigEndian_lt (bs : Bytes) : ofBigEndian bs < 256 ^ bs.length := by
  induction bs using List.reverseRecOn with
  | nil => exact Nat.one_pos
  | append_singleton bs b ih =>
    have hb : b.toNat < 256 := b.toNat_lt
    rw [ofBigEndian_concat, List.length_append, List.length_singleton, Nat.pow_succ]
    omega

/-- Every byte string is the encoding of the number it denotes. -/
theorem bigEndian_ofBigEndian (bs : Bytes) : bigEndian bs.length (ofBigEndian bs) = bs := by
  induction bs using List.reverseRecOn with
  | nil => rfl
  | append_singleton bs b ih =>
    have hb : b.toNat < 256 := b.toNat_lt
    have hhigh : (ofBigEndian bs * 256 + b.toNat) / 256 = ofBigEndian bs := by omega
    have hlow : UInt8.ofNat (ofBigEndian bs * 256 + b.toNat) = b := by
      apply UInt8.toNat_inj.mp
      rw [UInt8.toNat_ofNat']
      omega
    rw [List.length_append, List.length_singleton, bigEndian, ofBigEndian_concat, hhigh, hlow, ih]

/-- Below `256 ^ n` the encoding in `n` bytes loses nothing. -/
theorem bigEndian_inj {n v w : Nat} (hv : v < 256 ^ n) (hw : w < 256 ^ n)
    (h : bigEndian n v = bigEndian n w) : v = w := by
  have := congrArg ofBigEndian h
  rwa [ofBigEndian_bigEndian, ofBigEndian_bigEndian, Nat.mod_eq_of_lt hv,
    Nat.mod_eq_of_lt hw] at this

/-- One round of a shift-and-or loop, on the numbers the words denote. -/
theorem shift_or_byte (v : Nat) (b : UInt8) : v <<< 8 ||| b.toNat = v * 256 + b.toNat := by
  have hb : b.toNat < 2 ^ 8 := b.toNat_lt
  rw [← Nat.shiftLeft_add_eq_or_of_lt hb, Nat.shiftLeft_eq]

theorem mod_or_byte {v : Nat} {b : UInt8} {k : Nat} :
    (v <<< 8 % 2 ^ (k + 8) ||| b.toNat) = (v * 256 + b.toNat) % 2 ^ (k + 8) := by
  have hb : b.toNat < 2 ^ (k + 8) :=
    lt_of_lt_of_le b.toNat_lt (Nat.pow_le_pow_right (by decide) (Nat.le_add_left 8 k))
  rw [← shift_or_byte, Nat.or_mod_two_pow, Nat.mod_eq_of_lt hb]

/-- The reading loop of a 16-bit word. -/
def foldWord16 (bs : Bytes) : UInt16 := bs.foldl (fun v b => (v <<< 8) ||| b.toUInt16) 0

/-- The reading loop of a 32-bit word. -/
def foldWord32 (bs : Bytes) : UInt32 := bs.foldl (fun v b => (v <<< 8) ||| b.toUInt32) 0

/-- The reading loop of a 64-bit word. -/
def foldWord64 (bs : Bytes) : UInt64 := bs.foldl (fun v b => (v <<< 8) ||| b.toUInt64) 0

theorem foldWord16_toNat (bs : Bytes) : (foldWord16 bs).toNat = ofBigEndian bs % 2 ^ 16 := by
  induction bs using List.reverseRecOn with
  | nil => rfl
  | append_singleton bs b ih =>
    have hstep : (foldWord16 (bs ++ [b])).toNat
        = ((foldWord16 bs).toNat * 256 + b.toNat) % 2 ^ 16 := by
      simpa [foldWord16] using mod_or_byte (k := 8)
    rw [hstep, ih, ofBigEndian_concat]
    omega

theorem foldWord32_toNat (bs : Bytes) : (foldWord32 bs).toNat = ofBigEndian bs % 2 ^ 32 := by
  induction bs using List.reverseRecOn with
  | nil => rfl
  | append_singleton bs b ih =>
    have hstep : (foldWord32 (bs ++ [b])).toNat
        = ((foldWord32 bs).toNat * 256 + b.toNat) % 2 ^ 32 := by
      simpa [foldWord32] using mod_or_byte (k := 24)
    rw [hstep, ih, ofBigEndian_concat]
    omega

theorem foldWord64_toNat (bs : Bytes) : (foldWord64 bs).toNat = ofBigEndian bs % 2 ^ 64 := by
  induction bs using List.reverseRecOn with
  | nil => rfl
  | append_singleton bs b ih =>
    have hstep : (foldWord64 (bs ++ [b])).toNat
        = ((foldWord64 bs).toNat * 256 + b.toNat) % 2 ^ 64 := by
      simpa [foldWord64] using mod_or_byte (k := 56)
    rw [hstep, ih, ofBigEndian_concat]
    omega

/-- Reading back the bytes of a word, whatever loop wrote them. -/
@[simp] theorem foldWord16_bigEndian (v : UInt16) : foldWord16 (bigEndian 2 v.toNat) = v := by
  apply UInt16.toNat_inj.mp
  rw [foldWord16_toNat, ofBigEndian_bigEndian]
  have := v.toNat_lt
  omega

@[simp] theorem foldWord32_bigEndian (v : UInt32) : foldWord32 (bigEndian 4 v.toNat) = v := by
  apply UInt32.toNat_inj.mp
  rw [foldWord32_toNat, ofBigEndian_bigEndian]
  have := v.toNat_lt
  omega

@[simp] theorem foldWord64_bigEndian (v : UInt64) : foldWord64 (bigEndian 8 v.toNat) = v := by
  apply UInt64.toNat_inj.mp
  rw [foldWord64_toNat, ofBigEndian_bigEndian]
  have := v.toNat_lt
  omega

/-- Two bytes are the encoding of the word they make. -/
theorem bigEndian_foldWord16 {bs : Bytes} (h : bs.length = 2) :
    bigEndian 2 (foldWord16 bs).toNat = bs := by
  have hlt : ofBigEndian bs < 2 ^ 16 := by
    have hbound := ofBigEndian_lt bs
    rwa [h] at hbound
  rw [foldWord16_toNat, Nat.mod_eq_of_lt hlt, ← h, bigEndian_ofBigEndian]

/-- A byte cut out of a number by shifting and masking. -/
theorem ofNat_shift_mask (v s : Nat) :
    UInt8.ofNat ((v >>> s) &&& 0xff) = UInt8.ofNat (v / 2 ^ s) := by
  apply UInt8.toNat_inj.mp
  rw [Nat.and_two_pow_sub_one_eq_mod _ 8, Nat.shiftRight_eq_div_pow]
  simp

/-! ## 2. Hexadecimal text

Encoding and decoding are functions on all byte strings.  Only on texts of digits, and only of an
even number of them, is decoding the inverse. -/

/-- `"0123456789abcdef"[nibble]`. -/
def alphabet (nibble : UInt8) : UInt8 := (text "0123456789abcdef").getD nibble.toNat 0

/-- Two lowercase digits for every byte, high nibble first. -/
def hexEncode (bs : Bytes) : Bytes :=
  bs.flatMap (fun b : UInt8 => [alphabet ((b >>> 4) &&& 0x0f), alphabet (b &&& 0x0f)])

/-- The value of a lowercase hexadecimal digit. -/
def digit (c : UInt8) : UInt8 := if 0x30 ≤ c ∧ c ≤ 0x39 then c - 0x30 else c - 0x61 + 10

/-- The bytes that pairs of digits stand for. -/
def hexDecode : Bytes → Bytes
  | hi :: lo :: t => ((digit hi <<< 4) ||| digit lo) :: hexDecode t
  | _ => []

/-- `0`-`9` and `a`-`f`. -/
def IsHexDigit (c : UInt8) : Prop := (0x30 ≤ c ∧ c ≤ 0x39) ∨ (0x61 ≤ c ∧ c ≤ 0x66)

instance (c : UInt8) : Decidable (IsHexDigit c) := inferInstanceAs (Decidable (_ ∨ _))

@[simp] theorem length_hexEncode (bs : Bytes) : (hexEncode bs).length = 2 * bs.length := by
  simp [hexEncode, Nat.mul_comm]

theorem alphabet_isHexDigit (b : UInt8) :
    IsHexDigit (alphabet ((b >>> 4) &&& 0x0f)) ∧ IsHexDigit (alphabet (b &&& 0x0f)) :=
  forall_byte (p := fun b => IsHexDigit (alphabet ((b >>> 4) &&& 0x0f)) ∧
    IsHexDigit (alphabet (b &&& 0x0f))) (by decide +kernel) b

theorem hexEncode_isHexDigit {bs : Bytes} : ∀ c ∈ hexEncode bs, IsHexDigit c := by
  intro c hc
  obtain ⟨b, -, hb⟩ := List.mem_flatMap.mp hc
  rcases List.mem_pair.mp hb with rfl | rfl
  · exact (alphabet_isHexDigit b).1
  · exact (alphabet_isHexDigit b).2

theorem digits_of_byte (b : UInt8) :
    (digit (alphabet ((b >>> 4) &&& 0x0f)) <<< 4) ||| digit (alphabet (b &&& 0x0f)) = b :=
  forall_byte (p := fun b => (digit (alphabet ((b >>> 4) &&& 0x0f)) <<< 4) |||
    digit (alphabet (b &&& 0x0f)) = b) (by decide +kernel) b

@[simp] theorem hexDecode_hexEncode : ∀ bs : Bytes, hexDecode (hexEncode bs) = bs
  | [] => rfl
  | b :: t => by
    have ih := hexDecode_hexEncode t
    simp only [hexEncode, List.flatMap_cons, List.cons_append, List.nil_append, hexDecode,
      digits_of_byte] at ih ⊢
    rw [ih]

theorem hexEncode_injective : Function.Injective hexEncode :=
  Function.LeftInverse.injective hexDecode_hexEncode

/-- The sixteen digits, one by one. -/
theorem forall_hexDigit {p : UInt8 → Prop} (h : ∀ n : Fin 16, p (alphabet (UInt8.ofNat n)))
    {c : UInt8} (hc : IsHexDigit c) : p c := by
  have hex : ∀ c : UInt8, IsHexDigit c → ∃ n : Fin 16, c = alphabet (UInt8.ofNat n) :=
    fun c => forall_byte (p := fun c => IsHexDigit c → ∃ n : Fin 16, c = alphabet (UInt8.ofNat n))
      (by decide +kernel) c
  obtain ⟨n, rfl⟩ := hex c hc
  exact h n

theorem byte_of_digits {hi lo : UInt8} (hhi : IsHexDigit hi) (hlo : IsHexDigit lo) :
    alphabet ((((digit hi <<< 4) ||| digit lo) >>> 4) &&& 0x0f) = hi ∧
      alphabet (((digit hi <<< 4) ||| digit lo) &&& 0x0f) = lo := by
  revert lo
  refine forall_hexDigit (p := fun hi => ∀ {lo : UInt8}, IsHexDigit lo →
    alphabet ((((digit hi <<< 4) ||| digit lo) >>> 4) &&& 0x0f) = hi ∧
      alphabet (((digit hi <<< 4) ||| digit lo) &&& 0x0f) = lo) (fun n lo hlo => ?_) hhi
  refine forall_hexDigit (p := fun lo => alphabet ((((digit (alphabet (UInt8.ofNat n)) <<< 4) |||
    digit lo) >>> 4) &&& 0x0f) = alphabet (UInt8.ofNat n) ∧
      alphabet (((digit (alphabet (UInt8.ofNat n)) <<< 4) ||| digit lo) &&& 0x0f) = lo)
    (fun m => ?_) hlo
  revert n m
  decide +kernel

/-- Decoding loses nothing on texts of an even number of digits. -/
theorem hexEncode_hexDecode : ∀ {h : Bytes}, h.length % 2 = 0 → (∀ c ∈ h, IsHexDigit c) →
    hexEncode (hexDecode h) = h
  | [], _, _ => rfl
  | [_], hlen, _ => by simp at hlen
  | hi :: lo :: t, hlen, hdig => by
    have ih : hexEncode (hexDecode t) = t :=
      hexEncode_hexDecode (by simp at hlen ⊢; omega) (fun c hc => hdig c (by simp [hc]))
    obtain ⟨h1, h2⟩ := byte_of_digits (hdig hi (by simp)) (hdig lo (by simp))
    simp only [hexDecode, hexEncode, List.flatMap_cons, List.cons_append, List.nil_append, h1,
      h2] at ih ⊢
    rw [ih]

theorem length_hexDecode : ∀ h : Bytes, (hexDecode h).length = h.length / 2
  | [] => rfl
  | [_] => by simp [hexDecode]
  | _ :: _ :: t => by
    simp only [hexDecode, List.length_cons, length_hexDecode t]
    omega

/-! ## 3. Trailers

For formats that end in a digest of what stands before it. -/

section Trailer

variable {α : Type} {front trailer whole : List α} {n : Nat}

/-- What stands before a trailer of a known length, and the trailer. -/
theorem cut_trailer (h : whole = front ++ trailer) (hlen : trailer.length = n) :
    whole.length - n = front.length ∧ whole.take (whole.length - n) = front ∧
      whole.drop (whole.length - n) = trailer := by
  have hfront : whole.length - n = front.length := by
    rw [h, List.length_append, hlen, Nat.add_sub_cancel]
  refine ⟨hfront, ?_, ?_⟩
  · rw [hfront, h, List.take_left]
  · rw [hfront, h, List.drop_left]

/-- The trailer is no longer than that. -/
theorem take_trailer (whole : List α) (n : Nat) :
    (whole.drop (whole.length - n)).take n = whole.drop (whole.length - n) := by
  apply List.take_of_length_le
  rw [List.length_drop]
  omega

end Trailer

end Bytes
