import Mathlib.Data.Nat.Bitwise
import Mathlib.Data.List.Flatten
import Mathlib.Tactic.Ring

/-!
# Numbers of variable length

Numbers written in groups of seven bits, where the high bit of a byte says that
another byte follows: the lowest group first, or the highest first with one
added for every continuation.
-/

namespace Takos.Foundation

/-- The lowest group first. -/
inductive LittleVarint : List UInt8 → Nat → Prop where
  | last {byte : UInt8} (final : byte.toNat < 128) :
      LittleVarint [byte] byte.toNat
  | more {byte : UInt8} {bytes : List UInt8} {value : Nat}
      (continued : 128 ≤ byte.toNat) (rest : LittleVarint bytes value) :
      LittleVarint (byte :: bytes) (byte.toNat - 128 + 128 * value)

/-- The highest group first, after the groups that make up `seen`. -/
inductive OffsetVarint : Nat → List UInt8 → Nat → Prop where
  | last {seen : Nat} {byte : UInt8} (final : byte.toNat < 128) :
      OffsetVarint seen [byte] (seen * 128 + byte.toNat)
  | more {seen : Nat} {byte : UInt8} {bytes : List UInt8} {value : Nat}
      (continued : 128 ≤ byte.toNat)
      (rest : OffsetVarint (seen * 128 + (byte.toNat - 128) + 1) bytes value) :
      OffsetVarint seen (byte :: bytes) value

theorem LittleVarint.length_pos {bytes : List UInt8} {value : Nat}
    (varint : LittleVarint bytes value) : 0 < bytes.length := by
  cases varint <;> simp

theorem LittleVarint.unique {first second left right : List UInt8}
    {value other : Nat} (varint : LittleVarint first value)
    (again : LittleVarint second other)
    (same : first ++ left = second ++ right) :
    first = second ∧ value = other ∧ left = right := by
  induction varint generalizing second other with
  | @last byte final =>
      cases again with
      | last _ =>
          obtain ⟨rfl, rfl⟩ := List.cons.inj same
          exact ⟨rfl, rfl, rfl⟩
      | more continued _ =>
          obtain ⟨rfl, _⟩ := List.cons.inj same
          omega
  | @more byte bytes value continued rest ih =>
      cases again with
      | last final =>
          obtain ⟨rfl, _⟩ := List.cons.inj same
          omega
      | more _ others =>
          obtain ⟨rfl, further⟩ := List.cons.inj same
          obtain ⟨rfl, rfl, rfl⟩ := ih others further
          exact ⟨rfl, rfl, rfl⟩

theorem high_bit_eq_zero_iff (byte : UInt8) :
    byte.toNat &&& 0x80 = 0 ↔ byte.toNat < 128 := by
  have small : byte.toNat < 256 := byte.toNat_lt
  rw [show (0x80 : Nat) = 2 ^ 7 from rfl, Nat.and_two_pow,
    Nat.testBit_eq_decide_div_mod_eq]
  by_cases final : byte.toNat < 128
  · simp [final]
    omega
  · simp [final]
    omega

theorem low_bits (byte : UInt8) : byte.toNat &&& 0x7f = byte.toNat % 128 :=
  Nat.and_two_pow_sub_one_eq_mod byte.toNat 7

end Takos.Foundation

/-!
# Bit lists

The bits of a number and of a sequence of bytes, least significant first, and
the two numbers that a bit list denotes: one read least significant first, one
most significant first.
-/

namespace Takos.Foundation

/-- The low `width` bits of a number, least significant first. -/
def toBits : Nat → Nat → List Bool
  | 0, _ => []
  | width + 1, value => decide (value % 2 = 1) :: toBits width (value / 2)

/-- The number whose bits are given least significant first. -/
def ofBits : List Bool → Nat
  | [] => 0
  | bit :: rest => bit.toNat + 2 * ofBits rest

/-- The number whose bits are given most significant first. -/
def codeOf (word : List Bool) : Nat :=
  word.foldl (fun code bit => 2 * code + bit.toNat) 0

def bitsOf (bytes : List UInt8) : List Bool :=
  bytes.flatMap fun byte => toBits 8 byte.toNat

/-- The `width` bytes of a number, the most significant first. -/
def bigEndian : Nat → Nat → List UInt8
  | 0, _ => []
  | width + 1, value =>
    UInt8.ofNat (value / 256 ^ width) :: bigEndian width value

def ofBigEndian (bytes : List UInt8) : Nat :=
  bytes.foldl (fun value byte => 256 * value + byte.toNat) 0

@[simp] theorem toBits_zero (value : Nat) : toBits 0 value = [] := rfl

@[simp] theorem length_toBits (width value : Nat) :
    (toBits width value).length = width := by
  induction width generalizing value with
  | zero => rfl
  | succ width ih => simp [toBits, ih]

theorem toBits_add (low high value : Nat) :
    toBits (low + high) value =
      toBits low value ++ toBits high (value / 2 ^ low) := by
  induction low generalizing value with
  | zero => simp
  | succ low ih =>
      rw [Nat.add_right_comm, toBits, ih, toBits, Nat.div_div_eq_div_mul,
        pow_succ', List.cons_append]

theorem toBits_mod (width value : Nat) :
    toBits width (value % 2 ^ width) = toBits width value := by
  induction width generalizing value with
  | zero => rfl
  | succ width ih =>
      have parity : value % 2 ^ (width + 1) % 2 = value % 2 :=
        Nat.mod_mod_of_dvd value (dvd_pow_self 2 width.succ_ne_zero)
      have half : value % 2 ^ (width + 1) / 2 = value / 2 % 2 ^ width := by
        rw [pow_succ', Nat.mod_mul_right_div_self]
      rw [toBits, parity, half, ih, toBits]

theorem toBits_stacked {width low : Nat} (more high : Nat)
    (small : low < 2 ^ width) :
    toBits (width + more) (low + high * 2 ^ width) =
      toBits width low ++ toBits more high := by
  have remains : (low + high * 2 ^ width) % 2 ^ width = low := by
    rw [Nat.add_mul_mod_self_right, Nat.mod_eq_of_lt small]
  have above : (low + high * 2 ^ width) / 2 ^ width = high := by
    rw [Nat.add_mul_div_right _ _ (Nat.two_pow_pos width),
      Nat.div_eq_of_lt small, Nat.zero_add]
  rw [toBits_add, above, ← toBits_mod, remains]

theorem ofBits_lt (bits : List Bool) : ofBits bits < 2 ^ bits.length := by
  induction bits with
  | nil => decide
  | cons bit rest ih =>
      have := bit.toNat_le
      rw [ofBits, List.length_cons, pow_succ]
      omega

theorem ofBits_toBits (width value : Nat) :
    ofBits (toBits width value) = value % 2 ^ width := by
  induction width generalizing value with
  | zero => simp [ofBits, Nat.mod_one]
  | succ width ih =>
      have half : value / 2 % 2 ^ width = value % 2 ^ (width + 1) / 2 := by
        rw [pow_succ', Nat.mod_mul_right_div_self]
      have parity : value % 2 ^ (width + 1) % 2 = value % 2 :=
        Nat.mod_mod_of_dvd value (dvd_pow_self 2 width.succ_ne_zero)
      have lowest : (decide (value % 2 = 1)).toNat = value % 2 := by
        rcases Nat.mod_two_eq_zero_or_one value with even | odd
        · simp [even]
        · simp [odd]
      rw [toBits, ofBits, ih, half, lowest]
      omega

theorem toBits_ofBits (bits : List Bool) :
    toBits bits.length (ofBits bits) = bits := by
  induction bits with
  | nil => rfl
  | cons bit rest ih =>
      have lowest : (bit.toNat + 2 * ofBits rest) % 2 = bit.toNat := by
        have := bit.toNat_le
        omega
      have half : (bit.toNat + 2 * ofBits rest) / 2 = ofBits rest := by
        have := bit.toNat_le
        omega
      rw [List.length_cons, ofBits, toBits, lowest, half, ih]
      cases bit <;> rfl

@[simp] theorem codeOf_nil : codeOf [] = 0 := rfl

@[simp] theorem codeOf_append_singleton (word : List Bool) (bit : Bool) :
    codeOf (word ++ [bit]) = 2 * codeOf word + bit.toNat := by
  simp [codeOf]

@[simp] theorem bitsOf_nil : bitsOf [] = [] := rfl

@[simp] theorem bitsOf_cons (byte : UInt8) (bytes : List UInt8) :
    bitsOf (byte :: bytes) = toBits 8 byte.toNat ++ bitsOf bytes := by
  simp [bitsOf]

@[simp] theorem bitsOf_append (left right : List UInt8) :
    bitsOf (left ++ right) = bitsOf left ++ bitsOf right := by
  simp [bitsOf]

@[simp] theorem length_bitsOf (bytes : List UInt8) :
    (bitsOf bytes).length = 8 * bytes.length := by
  induction bytes with
  | nil => rfl
  | cons byte bytes ih => simp [ih]; omega

@[simp] theorem length_bigEndian (width value : Nat) :
    (bigEndian width value).length = width := by
  induction width with
  | zero => rfl
  | succ width ih => simp [bigEndian, ih]

private theorem foldl_bigEndian (width value seen : Nat) :
    (bigEndian width value).foldl
        (fun value byte => 256 * value + byte.toNat) seen =
      seen * 256 ^ width + value % 256 ^ width := by
  induction width generalizing seen with
  | zero => simp [bigEndian, Nat.mod_one]
  | succ width ih =>
      have split : value % 256 ^ (width + 1) =
          value % 256 ^ width + 256 ^ width * (value / 256 ^ width % 256) :=
        Nat.mod_mul
      rw [bigEndian, List.foldl_cons, ih, UInt8.toNat_ofNat', split]
      ring

theorem ofBigEndian_bigEndian {width value : Nat} (small : value < 256 ^ width) :
    ofBigEndian (bigEndian width value) = value := by
  rw [ofBigEndian, foldl_bigEndian, Nat.mod_eq_of_lt small, Nat.zero_mul,
    Nat.zero_add]

theorem or_shiftLeft_of_lt {width low : Nat} (high : Nat)
    (small : low < 2 ^ width) :
    low ||| (high <<< width) = low + high * 2 ^ width := by
  rw [Nat.lor_comm, ← Nat.shiftLeft_add_eq_or_of_lt small,
    Nat.shiftLeft_eq, Nat.add_comm]

theorem and_mask (value width : Nat) :
    value &&& ((1 <<< width) - 1) = value % 2 ^ width := by
  rw [Nat.shiftLeft_eq, Nat.one_mul, Nat.and_two_pow_sub_one_eq_mod]

end Takos.Foundation
