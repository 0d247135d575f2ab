import Takos.Foundation.CanonicalCode
import Takos.Packs.InflateRaw

/-!
# What the bit reader reads

A reader stands before a list of bits: the buffered ones and those of the bytes
it has not fetched.  Reading a number of bits or a code word takes them off the
front of that list.
-/

namespace Takos.Packs

open Takos.Foundation

/-- A reader with the bits that follow its position. -/
structure Buffered (buf : List UInt8) (reader : BitReader) (bits : List Bool) :
    Prop where
  buffer : reader.buf = buf
  small : reader.bitBuf < 2 ^ reader.bitCnt
  inside : reader.pos ≤ buf.length
  rest : toBits reader.bitCnt reader.bitBuf ++ bitsOf (buf.drop reader.pos) =
    bits

/-- Between two reads less than one byte is buffered. -/
structure Reading (buf : List UInt8) (reader : BitReader) (bits : List Bool) :
    Prop extends Buffered buf reader bits where
  partialByte : reader.bitCnt < 8

section

variable {buf : List UInt8} {reader : BitReader}

theorem Buffered.length {bits : List Bool} (buffered : Buffered buf reader bits) :
    bits.length = reader.unread := by
  rw [← buffered.rest, BitReader.unread, buffered.buffer, List.length_append,
    length_toBits, length_bitsOf, List.length_drop, Nat.add_comm]

theorem Reading.start {start : Nat} (inside : start ≤ buf.length) :
    Reading buf (BitReader.new buf start) (bitsOf (buf.drop start)) where
  buffer := rfl
  small := Nat.one_pos
  inside := inside
  rest := rfl
  partialByte := Nat.succ_pos 7

theorem Buffered.fetch {bits : List Bool} (buffered : Buffered buf reader bits)
    {byte : UInt8} (found : reader.buf[reader.pos]? = some byte) :
    Buffered buf
      { reader with
        bitBuf := reader.bitBuf ||| (byte.toNat <<< reader.bitCnt)
        bitCnt := reader.bitCnt + 8
        pos := reader.pos + 1 } bits := by
  rw [buffered.buffer] at found
  obtain ⟨bound, byteEq⟩ := List.getElem?_eq_some_iff.mp found
  have stacked := or_shiftLeft_of_lt byte.toNat buffered.small
  refine ⟨buffered.buffer, ?_, bound, ?_⟩
  · show reader.bitBuf ||| (byte.toNat <<< reader.bitCnt) <
      2 ^ (reader.bitCnt + 8)
    calc reader.bitBuf ||| (byte.toNat <<< reader.bitCnt)
        = reader.bitBuf + byte.toNat * 2 ^ reader.bitCnt := stacked
      _ < 2 ^ reader.bitCnt + byte.toNat * 2 ^ reader.bitCnt :=
          Nat.add_lt_add_right buffered.small _
      _ = (byte.toNat + 1) * 2 ^ reader.bitCnt := by
          rw [Nat.add_mul, Nat.one_mul, Nat.add_comm]
      _ ≤ 2 ^ 8 * 2 ^ reader.bitCnt :=
          Nat.mul_le_mul_right _ (Nat.succ_le_of_lt byte.toNat_lt)
      _ = 2 ^ (reader.bitCnt + 8) := by rw [Nat.add_comm, pow_add]
  · have dropped : buf.drop reader.pos = byte :: buf.drop (reader.pos + 1) := by
      rw [← byteEq, ← List.drop_eq_getElem_cons]
    show toBits (reader.bitCnt + 8)
      (reader.bitBuf ||| (byte.toNat <<< reader.bitCnt)) ++
        bitsOf (buf.drop (reader.pos + 1)) = bits
    rw [stacked, toBits_stacked 8 byte.toNat buffered.small,
      ← buffered.rest, dropped, bitsOf_cons, List.append_assoc]

theorem fill_buffered (n rounds : Nat) {bits : List Bool}
    (buffered : Buffered buf reader bits) (enough : n ≤ bits.length)
    (suffices_rounds : n ≤ reader.bitCnt + 8 * rounds)
    (bounded : reader.bitCnt < n + 8) :
    ∃ filled, BitReader.fill n rounds reader = .ok filled ∧
      Buffered buf filled bits ∧ n ≤ filled.bitCnt ∧
        filled.bitCnt < n + 8 := by
  induction rounds generalizing reader with
  | zero => exact ⟨reader, rfl, buffered, by omega, bounded⟩
  | succ rounds ih =>
      by_cases short : reader.bitCnt < n
      · have available : reader.pos < reader.buf.length := by
          have length := buffered.length
          rw [BitReader.unread] at length
          omega
        have found : reader.buf[reader.pos]? = some reader.buf[reader.pos] :=
          List.getElem?_eq_getElem available
        obtain ⟨filled, ran, rest⟩ := ih (buffered.fetch found)
          (by simp only; omega) (by simp only; omega)
        refine ⟨filled, ?_, rest⟩
        rw [BitReader.fill, if_pos short, found]
        exact ran
      · refine ⟨reader, ?_, buffered, by omega, bounded⟩
        rw [BitReader.fill, if_neg short]

theorem Reading.bits {word rest : List Bool}
    (reading : Reading buf reader (word ++ rest)) :
    ∃ next, reader.bits word.length = .ok (ofBits word, next) ∧
      Reading buf next rest := by
  obtain ⟨filled, ran, buffered, enough, bounded⟩ :=
    fill_buffered word.length word.length reading.toBuffered
      (by rw [List.length_append]; exact Nat.le_add_right _ _)
      (by omega) (by have := reading.partialByte; omega)
  have split : toBits filled.bitCnt filled.bitBuf =
      toBits word.length filled.bitBuf ++
        toBits (filled.bitCnt - word.length)
          (filled.bitBuf / 2 ^ word.length) := by
    rw [← toBits_add, Nat.add_sub_cancel' enough]
  have cut := buffered.rest
  rw [split, List.append_assoc] at cut
  obtain ⟨front, back⟩ :=
    List.append_inj cut (length_toBits word.length filled.bitBuf)
  have value : filled.bitBuf % 2 ^ word.length = ofBits word := by
    rw [← ofBits_toBits, front]
  have afterwards : Reading buf
      { filled with
        bitBuf := filled.bitBuf >>> word.length
        bitCnt := filled.bitCnt - word.length } rest := by
    refine ⟨⟨buffered.buffer, ?_, buffered.inside, ?_⟩, ?_⟩
    · show filled.bitBuf >>> word.length < 2 ^ (filled.bitCnt - word.length)
      rw [Nat.shiftRight_eq_div_pow]
      apply Nat.div_lt_of_lt_mul
      rw [← pow_add, Nat.add_sub_cancel' enough]
      exact buffered.small
    · show toBits (filled.bitCnt - word.length)
        (filled.bitBuf >>> word.length) ++ bitsOf (buf.drop filled.pos) = rest
      rw [Nat.shiftRight_eq_div_pow]
      exact back
    · show filled.bitCnt - word.length < 8
      omega
  refine ⟨_, ?_, afterwards⟩
  simp only [BitReader.bits, ran, bind, Except.bind, and_mask, value]
  rfl

theorem Reading.number {width value : Nat} {rest : List Bool}
    (small : value < 2 ^ width)
    (reading : Reading buf reader (toBits width value ++ rest)) :
    ∃ next, reader.bits width = .ok (value, next) ∧ Reading buf next rest := by
  obtain ⟨next, ran, following⟩ := reading.bits
  rw [length_toBits, ofBits_toBits, Nat.mod_eq_of_lt small] at ran
  exact ⟨next, ran, following⟩

theorem Reading.bit {bit : Bool} {rest : List Bool}
    (reading : Reading buf reader (bit :: rest)) :
    ∃ next, reader.bits 1 = .ok (bit.toNat, next) ∧ Reading buf next rest :=
  @Reading.bits buf reader [bit] rest reading

theorem Reading.alignToByte {padding rest : List Bool}
    (reading : Reading buf reader (padding ++ rest))
    (width : padding.length = reader.bitCnt) :
    reader.alignToByte = BitReader.new buf reader.pos ∧
      rest = bitsOf (buf.drop reader.pos) := by
  have low : reader.bitCnt &&& 7 = reader.bitCnt := by
    have := Nat.and_two_pow_sub_one_eq_mod reader.bitCnt 3
    rw [show (7 : Nat) = 2 ^ 3 - 1 from rfl, this]
    exact Nat.mod_eq_of_lt reading.partialByte
  have split := reading.rest
  constructor
  · rw [BitReader.alignToByte, low, Nat.sub_self, Nat.zero_shiftRight,
      Nat.sub_zero, BitReader.new, ← reading.buffer]
  · exact (List.append_inj split
      (by rw [length_toBits, width])).2.symm

theorem Reading.bitCnt_eq {bits : List Bool} (reading : Reading buf reader bits) :
    reader.bitCnt = bits.length % 8 := by
  have length := reading.toBuffered.length
  have := reading.partialByte
  rw [BitReader.unread] at length
  omega

theorem Reading.readByteRaw {byte : UInt8} {bytes : List UInt8} {pos : Nat}
    (dropped : buf.drop pos = byte :: bytes) :
    (BitReader.new buf pos).readByteRaw =
        .ok (byte, BitReader.new buf (pos + 1)) ∧
      buf.drop (pos + 1) = bytes := by
  have found : buf[pos]? = some byte := by
    rw [← List.head?_drop, dropped, List.head?_cons]
  constructor
  · simp only [BitReader.readByteRaw, BitReader.new, found]
  · rw [← List.tail_drop, dropped, List.tail_cons]

end

end Takos.Packs
