import Takos.Foundation.Bits
import Takos.Packs.PackReader

/-!
# The delta format

A delta declares the sizes of its base and of its result, and goes on with
operations that copy a range of the base or insert bytes of its own.
`applyDelta` accepts exactly these byte sequences, as long as no size is written
in more than 147 bytes: the weight of a further byte is not finite, and even a
byte that adds nothing makes the size `NaN`.
-/

namespace Takos.Packs

open Takos.Foundation

/-- The value of an operand of which only the flagged bytes are written. -/
def operandValue : List Bool → List UInt8 → Nat
  | [], _ => 0
  | false :: flags, bytes => 256 * operandValue flags bytes
  | true :: _, [] => 0
  | true :: flags, byte :: bytes => byte.toNat + 256 * operandValue flags bytes

def offsetFlags (op : UInt8) : List Bool := toBits 4 op.toNat

def sizeFlags (op : UInt8) : List Bool := toBits 3 (op.toNat / 16)

def copiedOffset (op : UInt8) (bytes : List UInt8) : Nat :=
  operandValue (offsetFlags op) bytes

/-- A size of zero stands for 65536. -/
def copiedSize (op : UInt8) (bytes : List UInt8) : Nat :=
  if operandValue (sizeFlags op) bytes = 0 then 65536
  else operandValue (sizeFlags op) bytes

/-- Operations with what they make of the base. -/
inductive DeltaOps (base : List UInt8) : List UInt8 → List UInt8 → Prop where
  | done : DeltaOps base [] []
  | copy {op : UInt8} {offset size bytes made : List UInt8}
      (flagged : 128 ≤ op.toNat)
      (offsetCount : offset.length = (offsetFlags op).count true)
      (sizeCount : size.length = (sizeFlags op).count true)
      (inside : copiedOffset op offset + copiedSize op size ≤ base.length)
      (rest : DeltaOps base bytes made) :
      DeltaOps base (op :: (offset ++ (size ++ bytes)))
        ((base.drop (copiedOffset op offset)).take (copiedSize op size) ++ made)
  | insert {op : UInt8} {literal bytes made : List UInt8}
      (unflagged : op.toNat < 128) (positive : op.toNat ≠ 0)
      (length : literal.length = op.toNat) (rest : DeltaOps base bytes made) :
      DeltaOps base (op :: (literal ++ bytes)) (literal ++ made)

/-- A delta that is well formed for its base, with its result. -/
structure DeltaFor (base delta result : List UInt8) : Prop where
  parts : ∃ source target ops : List UInt8,
    delta = source ++ (target ++ ops) ∧ LittleVarint source base.length ∧
      LittleVarint target result.length ∧ DeltaOps base ops result

/-- No size at the front of a delta is written in more than 147 bytes. -/
def SizesShort (delta : List UInt8) : Prop :=
  ∀ (source target ops : List UInt8) (sourceSize targetSize : Nat),
    delta = source ++ (target ++ ops) → LittleVarint source sourceSize →
      LittleVarint target targetSize →
        source.length ≤ 147 ∧ target.length ≤ 147

theorem readDeltaSizeFrom_none (shift offset : Nat) (bytes : List UInt8)
    {total next : Nat} :
    readDeltaSizeFrom none shift offset bytes ≠ .ok (some total, next) := by
  induction bytes generalizing shift offset with
  | nil =>
      intro impossible
      cases impossible
  | cons byte bytes ih =>
      have lost : addScaled none (byte.toNat &&& 0x7f) shift = none := by
        unfold addScaled
        split <;> rfl
      rw [readDeltaSizeFrom, lost]
      split
      · rintro ⟨⟩
      · exact ih _ _

theorem readDeltaSizeFrom_iff (bytes : List UInt8) (seen shift offset : Nat)
    {total next : Nat} :
    readDeltaSizeFrom (some seen) shift offset bytes = .ok (some total, next) ↔
      ∃ varint rest value, bytes = varint ++ rest ∧
        LittleVarint varint value ∧ shift + 7 * varint.length < 1031 ∧
        total = seen + value * 2 ^ shift ∧ next = offset + varint.length := by
  induction bytes generalizing seen shift offset with
  | nil =>
      constructor
      · rintro ⟨⟩
      · rintro ⟨varint, rest, value, split, number, _⟩
        obtain ⟨rfl, _⟩ := List.append_eq_nil_iff.mp split.symm
        cases number
  | cons byte bytes ih =>
      have low := low_bits byte
      have bound := byte.toNat_lt
      by_cases near : shift < 1024
      · have added : addScaled (some seen) (byte.toNat &&& 0x7f) shift =
            some (seen + byte.toNat % 128 * 2 ^ shift) := by
          rw [addScaled, if_pos near, Option.map_some, low]
        rw [readDeltaSizeFrom, added]
        by_cases final : byte.toNat < 128
        · rw [if_pos ((high_bit_eq_zero_iff byte).mpr final),
            Nat.mod_eq_of_lt final]
          constructor
          · rintro ⟨⟩
            exact ⟨[byte], bytes, byte.toNat, rfl, .last final,
              by simp only [List.length_singleton]; omega, rfl, rfl⟩
          · rintro ⟨varint, rest, value, split, number, _, rfl, rfl⟩
            obtain ⟨rfl, rfl, _⟩ :=
              LittleVarint.unique (.last final) number split
            rfl
        · have continued : 128 ≤ byte.toNat := Nat.not_lt.mp final
          have digit : byte.toNat % 128 = byte.toNat - 128 := by omega
          rw [if_neg (mt (high_bit_eq_zero_iff byte).mp final), digit]
          simp only [ih]
          constructor
          · rintro ⟨varint, rest, value, rfl, number, short, rfl, rfl⟩
            refine ⟨byte :: varint, rest, _, rfl, .more continued number,
              ?_, ?_, ?_⟩
            · simp only [List.length_cons]
              omega
            · ring
            · simp only [List.length_cons]
              omega
          · rintro ⟨varint, rest, value, split, number, short, rfl, rfl⟩
            cases number with
            | last small =>
                obtain ⟨rfl, _⟩ := List.cons.inj split
                omega
            | @more _ varint value _ number =>
                obtain ⟨rfl, rfl⟩ := List.cons.inj split
                refine ⟨varint, rest, value, rfl, number, ?_, ?_, ?_⟩
                · simp only [List.length_cons] at short
                  omega
                · ring
                · simp only [List.length_cons]
                  omega
      · have lost : addScaled (some seen) (byte.toNat &&& 0x7f) shift =
            none := by
          rw [addScaled, if_neg near]
        rw [readDeltaSizeFrom, lost]
        constructor
        · intro read
          split at read
          · cases read
          · exact absurd read (readDeltaSizeFrom_none _ _ _)
        · rintro ⟨varint, rest, value, _, number, short, _⟩
          have := LittleVarint.length_pos number
          omega

theorem readDeltaSize_iff {delta : List UInt8} {offset total next : Nat} :
    readDeltaSize delta offset = .ok (some total, next) ↔
      ∃ varint rest, delta.drop offset = varint ++ rest ∧
        LittleVarint varint total ∧ varint.length ≤ 147 ∧
        next = offset + varint.length := by
  rw [readDeltaSize, readDeltaSizeFrom_iff]
  constructor
  · rintro ⟨varint, rest, value, split, number, short, rfl, rfl⟩
    refine ⟨varint, rest, split, ?_, by omega, rfl⟩
    simpa using number
  · rintro ⟨varint, rest, split, number, short, rfl⟩
    exact ⟨varint, rest, total, split, number, by omega, by simp, rfl⟩

theorem operandValue_nil (flags : List Bool) : operandValue flags [] = 0 := by
  induction flags with
  | nil => rfl
  | cons flag flags ih =>
      cases flag with
      | false => rw [operandValue, ih]
      | true => rfl

theorem operandValue_append (flags : List Bool) {bytes : List UInt8}
    (count : bytes.length = flags.count true) (tail : List UInt8) :
    operandValue flags (bytes ++ tail) = operandValue flags bytes := by
  induction flags generalizing bytes with
  | nil => rfl
  | cons flag flags ih =>
      cases flag with
      | false => rw [operandValue, operandValue, ih (by simpa using count)]
      | true =>
          cases bytes with
          | nil => simp at count
          | cons byte bytes =>
              rw [List.cons_append, operandValue, operandValue,
                ih (by simpa using count)]

/-- The flagged bytes of an operand, from bit `start` of the opcode on. -/
def copyFields (delta : List UInt8) (op : Nat) :
    (count start shift : Nat) → Nat × Nat → Nat × Nat
  | 0, _, _, field => field
  | count + 1, start, shift, field =>
    copyFields delta op count (start + 1) (shift + 8)
      (copyField delta op field (2 ^ start) shift)

theorem and_two_pow_eq_zero_iff (value place : Nat) :
    value &&& 2 ^ place = 0 ↔ value / 2 ^ place % 2 ≠ 1 := by
  rw [Nat.and_two_pow, Nat.testBit_eq_decide_div_mod_eq]
  by_cases set : value / 2 ^ place % 2 = 1 <;> simp [set]

theorem copyFields_spec (delta : List UInt8) (op count start shift : Nat)
    (value p : Nat) :
    copyFields delta op count start shift (value, p) =
      (value + 2 ^ shift *
          operandValue (toBits count (op / 2 ^ start)) (delta.drop p),
        p + (toBits count (op / 2 ^ start)).count true) := by
  induction count generalizing start shift value p with
  | zero => simp [copyFields, operandValue]
  | succ count ih =>
      have half : op / 2 ^ start / 2 = op / 2 ^ (start + 1) := by
        rw [Nat.div_div_eq_div_mul, pow_succ]
      rw [copyFields, toBits, half]
      by_cases set : op / 2 ^ start % 2 = 1
      · have present : ¬op &&& 2 ^ start = 0 := by
          rw [and_two_pow_eq_zero_iff]
          simp [set]
        rw [copyField, if_neg present, ih, decide_eq_true set]
        cases rest : delta.drop p with
        | nil =>
            have beyond : delta.length ≤ p := List.drop_eq_nil_iff.mp rest
            have further : delta.drop (p + 1) = [] :=
              List.drop_eq_nil_of_le (by omega)
            have missing : delta.getD p 0 = 0 :=
              List.getD_eq_default _ _ beyond
            rw [further, missing, operandValue_nil, operandValue_nil]
            simp only [List.count_cons_self, UInt8.toNat_zero, Nat.zero_shiftLeft,
              Nat.mul_zero, Nat.add_zero, Prod.mk.injEq, true_and]
            omega
        | cons byte bytes =>
            have found : delta.getD p 0 = byte := by
              rw [List.getD_eq_getElem?_getD, ← List.head?_drop, rest]
              rfl
            have further : delta.drop (p + 1) = bytes := by
              rw [← List.tail_drop, rest]
              rfl
            rw [further, found, operandValue, Nat.shiftLeft_eq, pow_add,
              List.count_cons_self]
            ext
            · ring
            · ring
      · have absent : op &&& 2 ^ start = 0 := by
          rw [and_two_pow_eq_zero_iff]
          exact set
        rw [copyField, if_pos absent, ih, decide_eq_false set, operandValue,
          pow_add]
        ext
        · ring
        · simp

theorem copiedOffset_spec (delta : List UInt8) (op : UInt8) (p : Nat) :
    copyFields delta op.toNat 4 0 0 (0, p) =
      (operandValue (offsetFlags op) (delta.drop p),
        p + (offsetFlags op).count true) := by
  rw [copyFields_spec]
  simp [offsetFlags]

theorem copiedSize_spec (delta : List UInt8) (op : UInt8) (p : Nat) :
    copyFields delta op.toNat 3 4 0 (0, p) =
      (operandValue (sizeFlags op) (delta.drop p),
        p + (sizeFlags op).count true) := by
  rw [copyFields_spec]
  simp [sizeFlags]

def afterCopy (op : UInt8) (p : Nat) : Nat :=
  p + 1 + (offsetFlags op).count true + (sizeFlags op).count true

variable {op : UInt8}

theorem applyOps_copy {base delta : List UInt8} {targetSize rounds p : Nat}
    {out : List UInt8} (found : delta[p]? = some op)
    (flagged : 128 ≤ op.toNat) :
    applyOps base delta targetSize (rounds + 1) p out =
      let offset := copiedOffset op (delta.drop (p + 1))
      let size := copiedSize op
        (delta.drop (p + 1 + (offsetFlags op).count true))
      if delta.length < afterCopy op p then .error .truncatedCopy
      else if base.length < offset + size then .error .copyOutOfBounds
      else if targetSize < out.length + size then .error .copyOverflows
      else
        applyOps base delta targetSize rounds (afterCopy op p)
          (out ++ (base.drop offset).take size) := by
  have set : ¬op.toNat &&& 0x80 = 0 :=
    mt (high_bit_eq_zero_iff op).mp (Nat.not_lt.mpr flagged)
  have offset := copiedOffset_spec delta op (p + 1)
  have size := copiedSize_spec delta op
    (p + 1 + (offsetFlags op).count true)
  simp only [copyFields, Nat.reduceAdd, Nat.reducePow] at offset size
  rw [applyOps]
  simp only [found, ne_eq, set, not_false_eq_true, if_true, offset, size]
  rfl

theorem applyOps_insert {base delta : List UInt8} {targetSize rounds p : Nat}
    {out : List UInt8} (found : delta[p]? = some op)
    (unflagged : op.toNat < 128) (positive : op.toNat ≠ 0) :
    applyOps base delta targetSize (rounds + 1) p out =
      if delta.length < p + 1 + op.toNat then .error .truncatedInsert
      else if targetSize < out.length + op.toNat then .error .insertOverflows
      else
        applyOps base delta targetSize rounds (p + 1 + op.toNat)
          (out ++ (delta.drop (p + 1)).take op.toNat) := by
  have clear : op.toNat &&& 0x80 = 0 := (high_bit_eq_zero_iff op).mpr unflagged
  rw [applyOps]
  simp only [found, ne_eq, clear, not_true_eq_false, if_false, positive,
    not_false_eq_true, if_true]

theorem applyOps_reserved {base delta : List UInt8}
    {targetSize rounds p : Nat} {out : List UInt8}
    (found : delta[p]? = some op) (zero : op.toNat = 0) :
    applyOps base delta targetSize (rounds + 1) p out =
      .error .reservedOpcode := by
  rw [applyOps]
  simp [found, zero]

theorem DeltaOps.copy_inv {base bytes made : List UInt8}
    (ops : DeltaOps base (op :: bytes) made) (flagged : 128 ≤ op.toNat) :
    ∃ offset size rest others, bytes = offset ++ (size ++ rest) ∧
      offset.length = (offsetFlags op).count true ∧
      size.length = (sizeFlags op).count true ∧
      copiedOffset op offset + copiedSize op size ≤ base.length ∧
      DeltaOps base rest others ∧
      made = (base.drop (copiedOffset op offset)).take (copiedSize op size) ++
        others := by
  cases ops with
  | copy _ offsetCount sizeCount inside rest =>
      exact ⟨_, _, _, _, rfl, offsetCount, sizeCount, inside, rest, rfl⟩
  | insert unflagged _ _ _ => omega

theorem DeltaOps.insert_inv {base bytes made : List UInt8}
    (ops : DeltaOps base (op :: bytes) made) (unflagged : op.toNat < 128) :
    op.toNat ≠ 0 ∧ ∃ literal rest others, bytes = literal ++ rest ∧
      literal.length = op.toNat ∧ DeltaOps base rest others ∧
      made = literal ++ others := by
  cases ops with
  | copy flagged _ _ _ _ => omega
  | insert _ positive length rest =>
      exact ⟨positive, _, _, _, rfl, length, rest, rfl⟩

theorem copiedOffset_append {offset : List UInt8}
    (count : offset.length = (offsetFlags op).count true) (tail : List UInt8) :
    copiedOffset op (offset ++ tail) = copiedOffset op offset :=
  operandValue_append _ count tail

theorem copiedSize_append {size : List UInt8}
    (count : size.length = (sizeFlags op).count true) (tail : List UInt8) :
    copiedSize op (size ++ tail) = copiedSize op size := by
  unfold copiedSize
  rw [operandValue_append _ count tail]

theorem DeltaOps.copy_iff {base offset size rest made : List UInt8}
    (flagged : 128 ≤ op.toNat)
    (offsetCount : offset.length = (offsetFlags op).count true)
    (sizeCount : size.length = (sizeFlags op).count true) :
    DeltaOps base (op :: (offset ++ (size ++ rest))) made ↔
      copiedOffset op offset + copiedSize op size ≤ base.length ∧
      ∃ others, DeltaOps base rest others ∧
        made = (base.drop (copiedOffset op offset)).take (copiedSize op size) ++
          others := by
  constructor
  · intro ops
    obtain ⟨otherOffset, otherSize, otherRest, others, same, offsetLength,
      sizeLength, inside, following, rfl⟩ := ops.copy_inv flagged
    obtain ⟨rfl, behind⟩ :=
      List.append_inj same (offsetCount.trans offsetLength.symm)
    obtain ⟨rfl, rfl⟩ :=
      List.append_inj behind (sizeCount.trans sizeLength.symm)
    exact ⟨inside, others, following, rfl⟩
  · rintro ⟨inside, others, following, rfl⟩
    exact .copy flagged offsetCount sizeCount inside following

theorem DeltaOps.insert_iff {base literal rest made : List UInt8}
    (unflagged : op.toNat < 128) (positive : op.toNat ≠ 0)
    (length : literal.length = op.toNat) :
    DeltaOps base (op :: (literal ++ rest)) made ↔
      ∃ others, DeltaOps base rest others ∧ made = literal ++ others := by
  constructor
  · intro ops
    obtain ⟨_, other, otherRest, others, same, otherLength, following, rfl⟩ :=
      ops.insert_inv unflagged
    obtain ⟨rfl, rfl⟩ := List.append_inj same (length.trans otherLength.symm)
    exact ⟨others, following, rfl⟩
  · rintro ⟨others, following, rfl⟩
    exact .insert unflagged positive length following

theorem drop_split (bytes : List UInt8) (p count : Nat) :
    bytes.drop p = (bytes.drop p).take count ++ bytes.drop (p + count) := by
  have joined := List.take_append_drop count (bytes.drop p)
  rw [List.drop_drop] at joined
  exact joined.symm

theorem copy_operands {delta : List UInt8} {p : Nat}
    (present : afterCopy op p ≤ delta.length) :
    ∃ offset size,
      delta.drop (p + 1) = offset ++ (size ++ delta.drop (afterCopy op p)) ∧
      delta.drop (p + 1 + (offsetFlags op).count true) =
        size ++ delta.drop (afterCopy op p) ∧
      offset.length = (offsetFlags op).count true ∧
      size.length = (sizeFlags op).count true := by
  unfold afterCopy at present ⊢
  have sizeSplit := drop_split delta
    (p + 1 + (offsetFlags op).count true) ((sizeFlags op).count true)
  have offsetSplit := drop_split delta (p + 1) ((offsetFlags op).count true)
  refine ⟨(delta.drop (p + 1)).take ((offsetFlags op).count true), _, ?_,
    sizeSplit, ?_, ?_⟩
  · rw [← sizeSplit]
    exact offsetSplit
  · rw [List.length_take, List.length_drop]
    omega
  · rw [List.length_take, List.length_drop]
    omega

/-- What the operations at a position of the delta add to the output. -/
def Completes (base delta : List UInt8) (targetSize p : Nat)
    (out result : List UInt8) : Prop :=
  ∃ made, DeltaOps base (delta.drop p) made ∧ result = out ++ made ∧
    result.length ≤ targetSize

section Rounds

variable {base delta out result : List UInt8} {targetSize rounds p : Nat}

theorem completes_end (ended : delta.length ≤ p)
    (fits : out.length ≤ targetSize) :
    (.ok out : Except PackError (List UInt8)) = .ok result ↔
      Completes base delta targetSize p out result := by
  unfold Completes
  rw [List.drop_eq_nil_of_le ended]
  constructor
  · rintro ⟨⟩
    exact ⟨[], .done, (List.append_nil out).symm, fits⟩
  · rintro ⟨made, ops, rfl, _⟩
    cases ops
    rw [List.append_nil]

theorem copy_round {op : UInt8} (found : delta[p]? = some op)
    (dropped : delta.drop p = op :: delta.drop (p + 1))
    (flagged : 128 ≤ op.toNat)
    (following : ∀ grown : List UInt8, grown.length ≤ targetSize →
      (applyOps base delta targetSize rounds (afterCopy op p) grown =
          .ok result ↔
        Completes base delta targetSize (afterCopy op p) grown result)) :
    applyOps base delta targetSize (rounds + 1) p out = .ok result ↔
      Completes base delta targetSize p out result := by
  rw [applyOps_copy found flagged, Completes, dropped]
  by_cases present : afterCopy op p ≤ delta.length
  · obtain ⟨offset, size, operands, sizeOperand, offsetCount, sizeCount⟩ :=
      copy_operands present
    rw [sizeOperand, operands, copiedOffset_append offsetCount,
      copiedSize_append sizeCount]
    simp only [if_neg (Nat.not_lt.mpr present),
      DeltaOps.copy_iff flagged offsetCount sizeCount]
    by_cases range : copiedOffset op offset + copiedSize op size ≤ base.length
    · have copied : ((base.drop (copiedOffset op offset)).take
          (copiedSize op size)).length = copiedSize op size := by
        rw [List.length_take, List.length_drop]
        omega
      rw [if_neg (Nat.not_lt.mpr range)]
      by_cases room : out.length + copiedSize op size ≤ targetSize
      · rw [if_neg (Nat.not_lt.mpr room), following _
          (by rw [List.length_append, copied]; exact room)]
        constructor
        · rintro ⟨others, ops, rfl, bound⟩
          exact ⟨_, ⟨range, others, ops, rfl⟩, List.append_assoc _ _ _, bound⟩
        · rintro ⟨made, ⟨_, others, ops, rfl⟩, rfl, bound⟩
          exact ⟨others, ops, (List.append_assoc _ _ _).symm, bound⟩
      · rw [if_pos (Nat.not_le.mp room)]
        constructor
        · rintro ⟨⟩
        · rintro ⟨made, ⟨_, others, _, rfl⟩, rfl, bound⟩
          simp only [List.length_append, copied] at bound
          omega
    · rw [if_pos (Nat.not_le.mp range)]
      constructor
      · rintro ⟨⟩
      · rintro ⟨made, ⟨inside, _⟩, _⟩
        exact absurd inside range
  · simp only [if_pos (Nat.not_le.mp present)]
    constructor
    · rintro ⟨⟩
    · rintro ⟨made, ops, _⟩
      obtain ⟨offset, size, rest, others, same, offsetCount, sizeCount, _⟩ :=
        ops.copy_inv flagged
      have length := congrArg List.length same
      simp only [List.length_drop, List.length_append] at length
      have inside : p < delta.length := (List.getElem?_eq_some_iff.mp found).1
      unfold afterCopy at present
      omega

theorem insert_round {op : UInt8} (found : delta[p]? = some op)
    (dropped : delta.drop p = op :: delta.drop (p + 1))
    (unflagged : op.toNat < 128) (positive : op.toNat ≠ 0)
    (following : ∀ grown : List UInt8, grown.length ≤ targetSize →
      (applyOps base delta targetSize rounds (p + 1 + op.toNat) grown =
          .ok result ↔
        Completes base delta targetSize (p + 1 + op.toNat) grown result)) :
    applyOps base delta targetSize (rounds + 1) p out = .ok result ↔
      Completes base delta targetSize p out result := by
  rw [applyOps_insert found unflagged positive, Completes, dropped]
  by_cases present : p + 1 + op.toNat ≤ delta.length
  · have literal : ((delta.drop (p + 1)).take op.toNat).length = op.toNat := by
      rw [List.length_take, List.length_drop]
      omega
    rw [if_neg (Nat.not_lt.mpr present)]
    have inserted : ∀ made,
        DeltaOps base (op :: delta.drop (p + 1)) made ↔
          ∃ others, DeltaOps base (delta.drop (p + 1 + op.toNat)) others ∧
            made = (delta.drop (p + 1)).take op.toNat ++ others := by
      intro made
      rw [← DeltaOps.insert_iff unflagged positive literal, ← drop_split]
    simp only [inserted]
    by_cases room : out.length + op.toNat ≤ targetSize
    · rw [if_neg (Nat.not_lt.mpr room), following _
        (by rw [List.length_append, literal]; exact room)]
      constructor
      · rintro ⟨others, ops, rfl, bound⟩
        exact ⟨_, ⟨others, ops, rfl⟩, List.append_assoc _ _ _, bound⟩
      · rintro ⟨made, ⟨others, ops, rfl⟩, rfl, bound⟩
        exact ⟨others, ops, (List.append_assoc _ _ _).symm, bound⟩
    · rw [if_pos (Nat.not_le.mp room)]
      constructor
      · rintro ⟨⟩
      · rintro ⟨made, ⟨others, _, rfl⟩, rfl, bound⟩
        simp only [List.length_append, literal] at bound
        omega
  · rw [if_pos (Nat.not_le.mp present)]
    constructor
    · rintro ⟨⟩
    · rintro ⟨made, ops, _⟩
      obtain ⟨_, other, rest, others, same, length, _⟩ :=
        ops.insert_inv unflagged
      have lengths := congrArg List.length same
      simp only [List.length_drop, List.length_append] at lengths
      have inside : p < delta.length := (List.getElem?_eq_some_iff.mp found).1
      omega

end Rounds

theorem applyOps_iff {base delta : List UInt8} {targetSize : Nat}
    (rounds p : Nat) {out result : List UInt8}
    (enough : delta.length ≤ p + rounds) (fits : out.length ≤ targetSize) :
    applyOps base delta targetSize rounds p out = .ok result ↔
      Completes base delta targetSize p out result := by
  induction rounds generalizing p out with
  | zero =>
      rw [applyOps]
      exact completes_end (by omega) fits
  | succ rounds ih =>
      cases found : delta[p]? with
      | none =>
          rw [applyOps, found]
          exact completes_end (List.getElem?_eq_none_iff.mp found) fits
      | some op =>
          obtain ⟨inside, opEq⟩ := List.getElem?_eq_some_iff.mp found
          have dropped : delta.drop p = op :: delta.drop (p + 1) := by
            rw [← opEq, ← List.drop_eq_getElem_cons]
          by_cases flagged : 128 ≤ op.toNat
          · apply copy_round found dropped flagged
            intro grown room
            exact ih _ (by unfold afterCopy; omega) room
          · by_cases zero : op.toNat = 0
            · rw [applyOps_reserved found zero, Completes, dropped]
              constructor
              · rintro ⟨⟩
              · rintro ⟨made, ops, _⟩
                exact absurd zero (ops.insert_inv (by omega)).1
            · apply insert_round found dropped (by omega) zero
              intro grown room
              exact ih _ (by omega) room

theorem applyDelta_sized {base delta result : List UInt8} {next p size : Nat}
    (source : readDeltaSize delta 0 = .ok (some base.length, next))
    (target : readDeltaSize delta next = .ok (some size, p)) :
    applyDelta base delta = .ok result ↔
      DeltaOps base (delta.drop p) result ∧ result.length = size := by
  have ran := @applyOps_iff base delta size delta.length p [] result
    (Nat.le_add_left _ _) (Nat.zero_le size)
  simp only [applyDelta, source, target, bind, Except.bind, ne_eq,
    not_true_eq_false, if_false, pure, Except.pure]
  cases made : applyOps base delta size delta.length p [] with
  | error error =>
      rw [made] at ran
      constructor
      · rintro ⟨⟩
      · rintro ⟨ops, length⟩
        exact absurd (ran.mpr ⟨result, ops, rfl, length.le⟩) (by simp)
  | ok out =>
      rw [made] at ran
      by_cases whole : out.length = size
      · simp only [whole, not_true_eq_false, if_false, Except.ok.injEq]
        constructor
        · rintro rfl
          obtain ⟨_, ops, rfl, _⟩ := ran.mp rfl
          exact ⟨ops, whole⟩
        · rintro ⟨ops, length⟩
          exact Except.ok.inj (ran.mpr ⟨result, ops, rfl, length.le⟩)
      · simp only [whole, not_false_eq_true, if_true]
        constructor
        · rintro ⟨⟩
        · rintro ⟨ops, length⟩
          obtain rfl : out = result :=
            Except.ok.inj (ran.mpr ⟨result, ops, rfl, length.le⟩)
          exact absurd length whole

theorem applyDelta_accepts_iff {base delta result : List UInt8} :
    applyDelta base delta = .ok result ↔
      ∃ source target ops : List UInt8, delta = source ++ (target ++ ops) ∧
        LittleVarint source base.length ∧ source.length ≤ 147 ∧
        LittleVarint target result.length ∧ target.length ≤ 147 ∧
        DeltaOps base ops result := by
  constructor
  · intro accepted
    unfold applyDelta at accepted
    cases read : readDeltaSize delta 0 with
    | error error => simp [read, bind, Except.bind] at accepted
    | ok first =>
      obtain ⟨sourceSize, next⟩ := first
      by_cases same : sourceSize = some base.length
      · subst same
        cases again : readDeltaSize delta next with
        | error error =>
            simp [read, again, bind, Except.bind] at accepted
        | ok second =>
          obtain ⟨target, p⟩ := second
          cases target with
          | none => simp [read, again, bind, Except.bind] at accepted
          | some size =>
            obtain ⟨ops, rfl⟩ := (applyDelta_sized read again).mp (by
              unfold applyDelta
              exact accepted)
            obtain ⟨source, rest, split, sourceNumber, sourceShort, rfl⟩ :=
              readDeltaSize_iff.mp read
            obtain ⟨target, others, split', targetNumber, targetShort, rfl⟩ :=
              readDeltaSize_iff.mp again
            rw [List.drop_zero] at split
            subst split
            rw [Nat.zero_add, List.drop_left] at split'
            subst split'
            rw [Nat.zero_add, ← List.drop_drop, List.drop_left,
              List.drop_left] at ops
            exact ⟨source, target, others, rfl, sourceNumber, sourceShort,
              targetNumber, targetShort, ops⟩
      · simp [read, same, bind, Except.bind] at accepted
  · rintro ⟨source, target, ops, rfl, sourceNumber, sourceShort, targetNumber,
      targetShort, made⟩
    have read : readDeltaSize (source ++ (target ++ ops)) 0 =
        .ok (some base.length, source.length) :=
      readDeltaSize_iff.mpr ⟨source, target ++ ops, rfl, sourceNumber,
        sourceShort, (Nat.zero_add _).symm⟩
    have again : readDeltaSize (source ++ (target ++ ops)) source.length =
        .ok (some result.length, source.length + target.length) :=
      readDeltaSize_iff.mpr ⟨target, ops, List.drop_left, targetNumber,
        targetShort, rfl⟩
    apply (applyDelta_sized read again).mpr
    rw [← List.drop_drop, List.drop_left, List.drop_left]
    exact ⟨made, rfl⟩

/-- `applyDelta` gives the result of every well formed delta and refuses all
others, unless a well formed delta has a size that is not short. -/
theorem applyDelta_iff (base delta : List UInt8) :
    (∀ result, applyDelta base delta = .ok result ↔
        DeltaFor base delta result) ↔
      ((∃ result, DeltaFor base delta result) → SizesShort delta) := by
  constructor
  · rintro same ⟨result, format⟩ source target ops sourceSize targetSize split
      sourceNumber targetNumber
    obtain ⟨source', target', ops', split', sourceNumber', sourceShort,
      targetNumber', targetShort, _⟩ :=
        applyDelta_accepts_iff.mp ((same result).mpr format)
    obtain ⟨rfl, _, behind⟩ :=
      LittleVarint.unique sourceNumber sourceNumber' (split ▸ split')
    obtain ⟨rfl, _, _⟩ := LittleVarint.unique targetNumber targetNumber' behind
    exact ⟨sourceShort, targetShort⟩
  · intro short result
    rw [applyDelta_accepts_iff]
    constructor
    · rintro ⟨source, target, ops, split, sourceNumber, _, targetNumber, _,
        made⟩
      exact ⟨source, target, ops, split, sourceNumber, targetNumber, made⟩
    · intro format
      obtain ⟨source, target, ops, split, sourceNumber, targetNumber, made⟩ :=
        format.parts
      obtain ⟨sourceShort, targetShort⟩ :=
        short ⟨result, format⟩ source target ops _ _ split sourceNumber
          targetNumber
      exact ⟨source, target, ops, split, sourceNumber, sourceShort,
        targetNumber, targetShort, made⟩

theorem littleVarint_zero (count : Nat) :
    LittleVarint (List.replicate count 128 ++ [0]) 0 := by
  induction count with
  | zero => exact .last (by decide)
  | succ count ih => exact .more (by decide) ih

/-- The sizes of the base and of the result are zero, but the first one is
written in 148 bytes. -/
theorem applyDelta_padded :
    ¬ ∀ base delta result : List UInt8,
      applyDelta base delta = .ok result ↔ DeltaFor base delta result := by
  intro every
  have padded : LittleVarint (List.replicate 147 128 ++ [0]) 0 :=
    littleVarint_zero 147
  have format : DeltaFor [] (List.replicate 147 128 ++ [0] ++ ([0] ++ [])) [] :=
    ⟨_, _, _, rfl, padded, littleVarint_zero 0, .done⟩
  obtain ⟨source, target, ops, split, sourceNumber, short, _⟩ :=
    applyDelta_accepts_iff.mp ((every _ _ _).mpr format)
  obtain ⟨rfl, _, _⟩ := LittleVarint.unique padded sourceNumber split
  simp only [List.length_append, List.length_replicate, List.length_singleton]
    at short
  omega

end Takos.Packs
