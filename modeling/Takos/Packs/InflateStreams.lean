import Takos.Packs.InflateBlocks

/-!
# Inflating a stream

`inflateZlibAt` returns the content of any zlib stream that starts at its
offset, whatever follows, and reports exactly the length of that stream.
-/

namespace Takos.Packs

open Takos.Foundation Takos.Foundation.Deflate

theorem toBits_byte_injective {left right : UInt8}
    (same : toBits 8 left.toNat = toBits 8 right.toNat) : left = right := by
  have values := congrArg ofBits same
  rw [ofBits_toBits, ofBits_toBits, Nat.mod_eq_of_lt left.toNat_lt,
    Nat.mod_eq_of_lt right.toNat_lt] at values
  exact UInt8.toNat_inj.mp values

variable {rest : List Bool} {value : Nat} {buf : List UInt8}
  {reader : BitReader} {bits : List Bool} {out result : List UInt8}

theorem bitsOf_eq_append {bytes whole : List UInt8}
    (split : bitsOf whole = bitsOf bytes ++ rest) :
    ∃ tail, whole = bytes ++ tail ∧ rest = bitsOf tail := by
  induction bytes generalizing whole with
  | nil => exact ⟨whole, rfl, split.symm⟩
  | cons byte bytes ih =>
      cases whole with
      | nil =>
          have sizes := congrArg List.length split
          simp only [length_bitsOf, List.length_append, List.length_cons,
            List.length_nil] at sizes
          omega
      | cons first whole =>
          rw [bitsOf_cons, bitsOf_cons, List.append_assoc] at split
          obtain ⟨same, rests⟩ := List.append_inj split (by simp)
          obtain ⟨tail, rfl, restEq⟩ := ih rests
          rw [toBits_byte_injective same]
          exact ⟨tail, rfl, restEq⟩

theorem toBits_sixteen (small : value < 65536) :
    toBits 16 value =
      bitsOf [UInt8.ofNat (value % 256), UInt8.ofNat (value / 256)] := by
  have low : (UInt8.ofNat (value % 256)).toNat = value % 2 ^ 8 := by
    rw [UInt8.toNat_ofNat']
    omega
  have high : (UInt8.ofNat (value / 256)).toNat = value / 2 ^ 8 := by
    rw [UInt8.toNat_ofNat']
    omega
  rw [bitsOf_cons, bitsOf_cons, bitsOf_nil, List.append_nil, low, high,
    toBits_mod, toBits_add 8 8]

theorem low_or_high (small : value < 65536) :
    (UInt8.ofNat (value % 256)).toNat |||
      ((UInt8.ofNat (value / 256)).toNat <<< 8) = value := by
  have low : (UInt8.ofNat (value % 256)).toNat = value % 256 := by
    rw [UInt8.toNat_ofNat']
    omega
  have high : (UInt8.ofNat (value / 256)).toNat = value / 256 := by
    rw [UInt8.toNat_ofNat']
    omega
  have stacked := or_shiftLeft_of_lt (value / 256)
    (show value % 256 < 2 ^ 8 by omega)
  rw [low, high, stacked]
  omega

theorem xor_ones (small : value < 65536) :
    value ^^^ 0xffff = 65535 - value := by
  apply Nat.eq_of_testBit_eq
  intro place
  have complement : 65535 - value = 2 ^ 16 - (value + 1) := by omega
  rw [complement, show (0xffff : Nat) = 2 ^ 16 - 1 from rfl, Nat.testBit_xor,
    Nat.testBit_two_pow_sub_one, Nat.testBit_two_pow_sub_succ small]
  by_cases inside : place < 16
  · simp [inside]
  · have above : value.testBit place = false := by
      apply Nat.testBit_lt_two_pow
      calc value < 2 ^ 16 := small
        _ ≤ 2 ^ place := Nat.pow_le_pow_right (by omega) (by omega)
    simp [inside, above]

theorem readStored_spec (content : List UInt8) {pos : Nat} {tail : List UInt8}
    (dropped : buf.drop pos = content ++ tail) (out : List UInt8) :
    readStored content.length (BitReader.new buf pos) out =
        .ok (BitReader.new buf (pos + content.length), out ++ content) ∧
      buf.drop (pos + content.length) = tail := by
  induction content generalizing pos out with
  | nil =>
      rw [List.append_nil]
      exact ⟨rfl, dropped⟩
  | cons byte content ih =>
      obtain ⟨read, remaining⟩ := Reading.readByteRaw dropped
      obtain ⟨copied, rest⟩ := ih remaining (out ++ [byte])
      rw [List.append_assoc, List.singleton_append, Nat.add_assoc,
        Nat.add_comm 1] at copied
      rw [Nat.add_assoc, Nat.add_comm 1] at rest
      refine ⟨?_, rest⟩
      simp only [List.length_cons, readStored, read, bind, Except.bind]
      exact copied

variable {content : List UInt8}

theorem inflateStored_spec {padding : List Bool}
    (short : content.length < 65536)
    (reading : Reading buf reader
      (padding ++ (toBits 16 content.length ++
        (toBits 16 (65535 - content.length) ++ (bitsOf content ++ rest)))))
    (aligned : padding.length = reader.bitCnt) :
    ∃ next, inflateStored reader out = .ok (next, out ++ content) ∧
      Reading buf next rest := by
  obtain ⟨skipped, unreadBits⟩ := reading.alignToByte aligned
  have complementSmall : 65535 - content.length < 65536 := by omega
  have asBytes : bitsOf (buf.drop reader.pos) =
      bitsOf (UInt8.ofNat (content.length % 256) ::
        UInt8.ofNat (content.length / 256) ::
        UInt8.ofNat ((65535 - content.length) % 256) ::
        UInt8.ofNat ((65535 - content.length) / 256) :: content) ++ rest := by
    rw [← unreadBits, toBits_sixteen short, toBits_sixteen complementSmall]
    simp
  obtain ⟨tail, dropped, restEq⟩ := bitsOf_eq_append asBytes
  obtain ⟨read₀, dropped₀⟩ := Reading.readByteRaw dropped
  obtain ⟨read₁, dropped₁⟩ := Reading.readByteRaw dropped₀
  obtain ⟨read₂, dropped₂⟩ := Reading.readByteRaw dropped₁
  obtain ⟨read₃, dropped₃⟩ := Reading.readByteRaw dropped₂
  obtain ⟨copied, remaining⟩ := readStored_spec content dropped₃ out
  have complement : content.length ^^^ 0xffff = 65535 - content.length :=
    xor_ones short
  refine ⟨BitReader.new buf (reader.pos + 1 + 1 + 1 + 1 + content.length),
    ?_, ?_⟩
  · simp only [inflateStored, skipped, read₀, read₁, read₂, read₃, bind,
      Except.bind, low_or_high short, low_or_high complementSmall, complement,
      ne_eq, not_true_eq_false, if_false, copied]
  · have inside : reader.pos + 1 + 1 + 1 + 1 + content.length ≤
        buf.length := by
      have := congrArg List.length dropped
      simp only [List.length_drop, List.length_append, List.length_cons] at this
      omega
    rw [restEq, ← remaining]
    exact Reading.start inside

theorem FIXED_LIT_eq : FIXED_LIT = buildHuffman fixedLiterals := by
  simp only [FIXED_LIT, fixedLiterals, Nat.reduceSub]

theorem fixed_tables :
    ∃ litHuff distHuff, FIXED_LIT = .ok litHuff ∧ FIXED_DIST = .ok distHuff ∧
      Represents litHuff fixedLiterals ∧
      Represents distHuff (List.replicate 30 5) := by
  have litBounded : ∀ length ∈ fixedLiterals, length ≤ MAX_BITS := by
    intro length member
    simp only [fixedLiterals, List.mem_append, List.mem_replicate] at member
    rw [MAX_BITS]
    omega
  have distBounded : ∀ length ∈ List.replicate 30 5, length ≤ MAX_BITS := by
    intro length member
    rw [List.eq_of_mem_replicate member, MAX_BITS]
    omega
  obtain ⟨litHuff, litBuilt, litTable⟩ := buildHuffman_represents litBounded
  obtain ⟨distHuff, distBuilt, distTable⟩ :=
    buildHuffman_represents distBounded
  rw [← FIXED_LIT_eq] at litBuilt
  exact ⟨litHuff, distHuff, litBuilt, distBuilt, litTable, distTable⟩

/-- Distance codes of five bits are read alike with the two unused symbols and
without them. -/
theorem blockData_replicate {known coded : Nat} (enough : 30 ≤ known)
    (fits : 30 ≤ coded)
    (start : firstCode (List.replicate known 5) 5 =
      firstCode (List.replicate coded 5) 5)
    (data : BlockData fixedLiterals (List.replicate known 5) out bits result) :
    BlockData fixedLiterals (List.replicate coded 5) out bits result := by
  induction data with
  | endOfBlock code => exact .endOfBlock code
  | literal byte code data ih => exact .literal byte code ih
  | @copy out copied result word extra distanceWord distanceExtra bits symbol
      least distanceSymbol leastDistance code row distanceCode distanceRow
      copies length data ih =>
      have small : distanceSymbol < 30 :=
        (List.getElem?_eq_some_iff.mp distanceRow).1
      have width : distanceWord.length = 5 :=
        List.eq_of_mem_replicate distanceCode.length_mem
      have value := distanceCode.value
      refine .copy code row ⟨?_, distanceCode.nonempty, ?_⟩ distanceRow copies
        length ih
      · rw [List.getElem?_replicate, if_pos (by omega), width]
      · rw [value, width, List.take_replicate, List.take_replicate,
          Nat.min_eq_left (by omega), Nat.min_eq_left (by omega), start]

theorem enough_rounds (reading : Reading buf reader (bits ++ rest)) :
    bits.length ≤ reader.unread := by
  have unread := reading.toBuffered.length
  rw [List.length_append] at unread
  exact Nat.le.intro unread

theorem inflateFixed_spec
    (data : BlockData fixedLiterals fixedDistances out bits result)
    (reading : Reading buf reader (bits ++ rest)) :
    ∃ next, inflateBlock 1 reader out = .ok (next, result) ∧
      Reading buf next rest := by
  obtain ⟨litHuff, distHuff, litBuilt, distBuilt, litTable, distTable⟩ :=
    fixed_tables
  have coded := blockData_replicate (by decide) (le_refl 30) (by decide) data
  obtain ⟨next, inflated, done⟩ :=
    inflateBlockData_spec litTable distTable coded reading (enough_rounds reading)
  refine ⟨next, ?_, done⟩
  rw [inflateBlock, litBuilt, distBuilt]
  exact inflated

theorem inflateDynamic_spec {header : List Bool}
    {literals distances : List Nat}
    (tables : ClippedTables header literals distances)
    (data : BlockData literals distances out bits result)
    (reading : Reading buf reader (header ++ (bits ++ rest))) :
    ∃ next, inflateBlock 2 reader out = .ok (next, result) ∧
      Reading buf next rest := by
  obtain ⟨litHuff, distHuff, afterTables, tablesRead, litTable, distTable,
    reading⟩ := inflateDynamicTables_spec tables reading
  obtain ⟨next, inflated, done⟩ := inflateBlockData_spec litTable distTable
    data reading (enough_rounds reading)
  refine ⟨next, ?_, done⟩
  rw [inflateBlock, tablesRead]
  exact inflated

theorem inflateBlock_spec {position : Nat}
    (block : BlockUnder ClippedTables position out bits result)
    (reading : Reading buf reader (bits ++ rest))
    (whole : (position + (bits ++ rest).length) % 8 = 0) :
    ∃ type afterType next,
      reader.bits 2 = .ok (type, afterType) ∧
      inflateBlock type afterType out = .ok (next, result) ∧
      Reading buf next rest := by
  cases block with
  | @stored content padding aligned short =>
      simp only [List.append_assoc] at reading
      obtain ⟨afterType, typeRead, reading⟩ :=
        @Reading.bits buf reader [false, false] _ reading
      have width : padding.length = afterType.bitCnt := by
        rw [reading.bitCnt_eq, aligned, toBoundary]
        simp only [List.length_append, List.length_cons, List.length_nil,
          length_toBits, length_bitsOf] at whole ⊢
        omega
      obtain ⟨next, inflated, done⟩ := inflateStored_spec short reading width
      exact ⟨0, afterType, next, typeRead, inflated, done⟩
  | fixed data =>
      rw [List.append_assoc] at reading
      obtain ⟨afterType, typeRead, reading⟩ :=
        @Reading.bits buf reader [true, false] _ reading
      obtain ⟨next, inflated, done⟩ := inflateFixed_spec data reading
      exact ⟨1, afterType, next, typeRead, inflated, done⟩
  | dynamic tables data =>
      simp only [List.append_assoc] at reading
      obtain ⟨afterType, typeRead, reading⟩ :=
        @Reading.bits buf reader [false, true] _ reading
      obtain ⟨next, inflated, done⟩ := inflateDynamic_spec tables data reading
      exact ⟨2, afterType, next, typeRead, inflated, done⟩

theorem inflateBlocks_spec {position : Nat}
    (blocks : BlocksUnder ClippedTables position out bits result)
    (reading : Reading buf reader (bits ++ rest))
    (whole : (position + (bits ++ rest).length) % 8 = 0) {rounds : Nat}
    (enough : bits.length ≤ rounds) :
    ∃ next, inflateBlocks rounds reader out = .ok (next, result) ∧
      Reading buf next rest := by
  induction blocks generalizing reader rounds with
  | last block =>
      obtain ⟨rounds, rfl⟩ : ∃ fewer, rounds = fewer + 1 :=
        Nat.exists_eq_succ_of_ne_zero
          (by rw [List.length_cons] at enough; omega)
      obtain ⟨afterFinal, finalRead, following⟩ := Reading.bit reading
      obtain ⟨type, afterType, next, typeRead, inflated, done⟩ :=
        inflateBlock_spec block following (by
          rw [List.cons_append, List.length_cons] at whole
          omega)
      refine ⟨next, ?_, done⟩
      simp [inflateBlocks, finalRead, typeRead, inflated, bind, Except.bind,
        pure, Except.pure]
  | @more position out middle result bits others block blocks ih =>
      rw [List.length_cons, List.length_append] at enough
      obtain ⟨rounds, rfl⟩ : ∃ fewer, rounds = fewer + 1 :=
        Nat.exists_eq_succ_of_ne_zero (by omega)
      rw [List.cons_append, List.append_assoc] at reading whole
      obtain ⟨afterFinal, finalRead, following⟩ := Reading.bit reading
      rw [List.length_cons] at whole
      obtain ⟨type, afterType, next, typeRead, inflated, following⟩ :=
        inflateBlock_spec block following (by omega)
      have fewer : others.length ≤ rounds := by omega
      rw [List.length_append] at whole
      obtain ⟨last, rested, done⟩ := ih following (by omega) fewer
      refine ⟨last, ?_, done⟩
      simp only [inflateBlocks, finalRead, typeRead, inflated, bind,
        Except.bind, Bool.toNat_false, if_true]
      exact rested

theorem inflateRawAt_clipped {body tail : List UInt8} {offset : Nat}
    (found : buf.drop offset = body ++ tail) (inside : offset ≤ buf.length)
    (stream : StreamUnder ClippedTables body content) :
    inflateRawAt buf offset = .ok ⟨content, body.length⟩ := by
  obtain ⟨bits, padding, blocks, unused, bitsEq⟩ := stream
  have reading := Reading.start inside
  rw [found, bitsOf_append, bitsEq, List.append_assoc] at reading
  have size := congrArg List.length bitsEq
  rw [length_bitsOf, List.length_append] at size
  obtain ⟨next, inflated, done⟩ := inflateBlocks_spec blocks reading
    (by
      simp only [List.length_append, length_bitsOf]
      omega)
    (enough_rounds reading)
  have consumed : next.bytesConsumed offset = body.length := by
    have total := congrArg List.length found
    rw [List.length_drop, List.length_append] at total
    have remaining := done.toBuffered.length
    rw [BitReader.unread, done.buffer, List.length_append,
      length_bitsOf] at remaining
    have := done.partialByte
    have := done.inside
    rw [BitReader.bytesConsumed, Nat.shiftRight_eq_div_pow]
    omega
  rw [inflateRawAt, if_neg (Nat.not_lt.mpr inside)]
  simp only [inflated, bind, Except.bind, consumed, pure, Except.pure]

theorem inflateRawAt_spec {body tail : List UInt8} {offset : Nat}
    (found : buf.drop offset = body ++ tail) (inside : offset ≤ buf.length)
    (stream : DeflateStream body content) :
    inflateRawAt buf offset = .ok ⟨content, body.length⟩ :=
  inflateRawAt_clipped found inside stream.clipped

theorem and_fifteen (value : Nat) : value &&& 0x0f = value % 16 :=
  Nat.and_two_pow_sub_one_eq_mod value 4

theorem and_bit_eq_zero (place : Nat) (clear : value / 2 ^ place % 2 = 0) :
    value &&& 2 ^ place = 0 := by
  rw [Nat.and_two_pow, Nat.testBit_eq_decide_div_mod_eq, clear]
  simp

theorem inflateZlibAt_spec {stream tail : List UInt8} {offset : Nat}
    (found : buf.drop offset = stream ++ tail)
    (zlib : ZlibStream stream content) :
    inflateZlibAt buf offset = .ok ⟨content, stream.length⟩ := by
  obtain ⟨cmf, flg, body, rfl, method, _, checked, noDictionary, deflated⟩ :=
    zlib.wrapped
  have first : buf[offset]? = some cmf := by
    rw [← List.head?_drop, found]
    rfl
  have afterFirst : buf.drop (offset + 1) =
      flg :: (body ++ bigEndian 4 (adler32 content)) ++ tail := by
    rw [← List.tail_drop, found]
    rfl
  have second : buf[offset + 1]? = some flg := by
    rw [← List.head?_drop, afterFirst]
    rfl
  have afterSecond : buf.drop (offset + 2) =
      body ++ (bigEndian 4 (adler32 content) ++ tail) := by
    rw [← List.tail_drop, afterFirst]
    simp
  have total := congrArg List.length afterSecond
  simp only [List.length_drop, List.length_append, length_bigEndian] at total
  have inflated := inflateRawAt_spec afterSecond (by omega) deflated
  have headerSum : (cmf.toNat <<< 8) ||| flg.toNat =
      cmf.toNat * 256 + flg.toNat := by
    rw [Nat.lor_comm, or_shiftLeft_of_lt cmf.toNat flg.toNat_lt, Nat.add_comm]
    rfl
  have flagClear : flg.toNat &&& 0x20 = 0 := and_bit_eq_zero 5 noDictionary
  have room : ¬ buf.length < offset + (2 + body.length + 4) := by omega
  simp only [inflateZlibAt, first, second, and_fifteen, method, headerSum,
    checked, flagClear, inflated, bind, Except.bind, pure, Except.pure, ne_eq,
    not_true_eq_false, if_false, if_true, Nat.add_sub_cancel_left,
    if_neg room, List.length_cons, List.length_append, length_bigEndian]
  congr 2
  omega

end Takos.Packs
