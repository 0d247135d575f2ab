import Takos.Foundation.Deflate
import Takos.Packs.HuffmanTables

/-!
# Inflating a block

Each block of a deflate stream, whatever its kind, is read to its end and adds
to the output exactly what it stands for.
-/

namespace Takos.Packs

open Takos.Foundation Takos.Foundation.Deflate

theorem copyLoop_spec {out copied : List UInt8} {distance : Nat}
    (copies : Copies out distance copied) (left : List UInt8)
    {done : List UInt8} (split : copied = done ++ left) :
    copyLoop left.length (out.length - distance + done.length)
      (out ++ done) = out ++ copied := by
  induction left generalizing done with
  | nil => rw [split, List.append_nil]; rfl
  | cons byte left ih =>
      have further : copied = (done ++ [byte]) ++ left := by simpa using split
      have newest : copied[done.length]? = some byte := by
        rw [split, List.getElem?_append_right (Nat.le_refl _), Nat.sub_self]
        rfl
      have source : (out ++ done)[out.length - distance + done.length]? =
          some byte := by
        have back := copies.back
        have within := copies.within
        have place : out.length + done.length - distance =
            out.length - distance + done.length := by omega
        have repeated := copies.repeats done.length
          (by rw [split, List.length_append, List.length_cons]; omega)
        rw [newest, place, split, ← List.append_assoc,
          List.getElem?_append_left
            (by rw [List.length_append]; omega)] at repeated
        exact repeated.symm
      have copiedOn := ih further
      rw [List.length_append, List.length_singleton, ← Nat.add_assoc,
        ← List.append_assoc] at copiedOn
      rw [List.length_cons, copyLoop, List.getD_eq_getElem?_getD, source,
        Option.getD_some, copiedOn]

theorem copyBack_spec {out copied : List UInt8} {distance : Nat}
    (copies : Copies out distance copied) :
    copyBack distance copied.length out = .ok (out ++ copied) := by
  have legal : ¬(distance = 0 ∨ out.length < distance) := by
    have := copies.back
    have := copies.within
    omega
  have looped := copyLoop_spec copies copied (List.nil_append copied).symm
  rw [List.length_nil, Nat.add_zero, List.append_nil] at looped
  rw [copyBack, if_neg legal, looped]

theorem row_of_zip {bases extras : List Nat} {symbol least width : Nat}
    (row : (bases.zip extras)[symbol]? = some (least, width)) :
    symbol < bases.length ∧ bases.getD symbol 0 = least ∧
      extras.getD symbol 0 = width := by
  rw [List.getElem?_zip_eq_some] at row
  obtain ⟨base, extra⟩ := row
  refine ⟨(List.getElem?_eq_some_iff.mp base).1, ?_, ?_⟩
  · rw [List.getD_eq_getElem?_getD, base, Option.getD_some]
  · rw [List.getD_eq_getElem?_getD, extra, Option.getD_some]

theorem length_row {symbol least width : Nat}
    (row : lengthRows[symbol]? = some (least, width)) :
    symbol < LENGTH_BASE.length ∧ LENGTH_BASE.getD symbol 0 = least ∧
      LENGTH_EXTRA.getD symbol 0 = width :=
  row_of_zip row

theorem distance_row {symbol least width : Nat}
    (row : distanceRows[symbol]? = some (least, width)) :
    symbol < DIST_BASE.length ∧ DIST_BASE.getD symbol 0 = least ∧
      DIST_EXTRA.getD symbol 0 = width :=
  row_of_zip row

variable {rest : List Bool} {buf : List UInt8} {reader : BitReader}
  {bits : List Bool}

/-- Rounds suffice as soon as there is one for every bit of the data. -/
theorem inflateBlockData_spec {literals distances : List Nat}
    {litHuff distHuff : Huffman} (litTable : Represents litHuff literals)
    (distTable : Represents distHuff distances) {out result : List UInt8}
    (data : BlockData literals distances out bits result)
    (reading : Reading buf reader (bits ++ rest)) {rounds : Nat}
    (enough : bits.length ≤ rounds) :
    ∃ next,
      inflateBlockData litHuff distHuff rounds reader out =
        .ok (next, result) ∧ Reading buf next rest := by
  induction data generalizing reader rounds with
  | endOfBlock code =>
      obtain ⟨rounds, rfl⟩ : ∃ fewer, rounds = fewer + 1 :=
        Nat.exists_eq_succ_of_ne_zero (by have := code.length_pos; omega)
      obtain ⟨next, decoded, following⟩ := Reading.decode litTable code reading
      refine ⟨next, ?_, following⟩
      simp [inflateBlockData, decoded, bind, Except.bind, pure, Except.pure]
  | @literal out result word bits byte code data ih =>
      rw [List.length_append] at enough
      obtain ⟨rounds, rfl⟩ : ∃ fewer, rounds = fewer + 1 :=
        Nat.exists_eq_succ_of_ne_zero (by have := code.length_pos; omega)
      rw [List.append_assoc] at reading
      obtain ⟨next, decoded, following⟩ := Reading.decode litTable code reading
      have fewer : bits.length ≤ rounds := by
        have := code.length_pos
        omega
      obtain ⟨last, inflated, done⟩ := ih following fewer
      refine ⟨last, ?_, done⟩
      have small : byte.toNat < 256 := byte.toNat_lt
      rw [inflateBlockData]
      simp only [decoded, bind, Except.bind, if_pos small, UInt8.ofNat_toNat]
      exact inflated
  | @copy out copied result word extra distanceWord distanceExtra bits symbol
      least distanceSymbol leastDistance code row distanceCode distanceRow
      copies length data ih =>
      simp only [List.length_append] at enough
      obtain ⟨rounds, rfl⟩ : ∃ fewer, rounds = fewer + 1 :=
        Nat.exists_eq_succ_of_ne_zero (by have := code.length_pos; omega)
      simp only [List.append_assoc] at reading
      obtain ⟨afterSymbol, decoded, reading⟩ :=
        Reading.decode litTable code reading
      obtain ⟨afterExtra, extraRead, reading⟩ := Reading.bits reading
      obtain ⟨afterDistance, distanceDecoded, reading⟩ :=
        Reading.decode distTable distanceCode reading
      obtain ⟨afterMore, moreRead, reading⟩ := Reading.bits reading
      have fewer : bits.length ≤ rounds := by
        have := code.length_pos
        omega
      obtain ⟨last, inflated, done⟩ := ih reading fewer
      refine ⟨last, ?_, done⟩
      obtain ⟨symbolKnown, leastEq, widthEq⟩ := length_row row
      obtain ⟨distanceKnown, leastDistanceEq, distanceWidthEq⟩ :=
        distance_row distanceRow
      have copyDone := copyBack_spec copies
      rw [length] at copyDone
      have notLiteral : ¬ 257 + symbol < 256 := by omega
      have notEnd : ¬ 257 + symbol = 256 := by omega
      rw [inflateBlockData]
      simp only [decoded, bind, Except.bind, if_neg notLiteral, if_neg notEnd,
        Nat.add_sub_cancel_left, if_neg (Nat.not_le.mpr symbolKnown), pure,
        Except.pure, widthEq, extraRead, leastEq, distanceDecoded,
        if_neg (Nat.not_le.mpr distanceKnown), distanceWidthEq, moreRead,
        leastDistanceEq, copyDone]
      exact inflated

/-- What the loop over the code length code leaves in its array. -/
def placeLengths (order sent clenLengths : List Nat) : List Nat :=
  (order.zip sent).foldl (fun lengths entry => lengths.set entry.1 entry.2)
    clenLengths

theorem readCodeLengths_spec (order sent clenLengths : List Nat)
    (same : order.length = sent.length) (small : ∀ length ∈ sent, length < 8)
    (reading : Reading buf reader (sent.flatMap (toBits 3) ++ rest)) :
    ∃ next,
      readCodeLengths order clenLengths reader =
        .ok (placeLengths order sent clenLengths, next) ∧
      Reading buf next rest := by
  induction order generalizing sent clenLengths reader with
  | nil =>
      obtain rfl : sent = [] := List.length_eq_zero_iff.mp same.symm
      exact ⟨reader, rfl, reading⟩
  | cons symbol order ih =>
      cases sent with
      | nil => cases same
      | cons length sent =>
          rw [List.flatMap_cons, List.append_assoc] at reading
          obtain ⟨next, ran, following⟩ :=
            Reading.number (small length List.mem_cons_self) reading
          obtain ⟨last, placed, done⟩ :=
            ih sent (clenLengths.set symbol length) (Nat.succ.inj same)
              (fun other member => small other (.tail _ member)) following
          refine ⟨last, ?_, done⟩
          simp only [readCodeLengths, ran, bind, Except.bind, placed]
          rfl

theorem placeLengths_length (order sent clenLengths : List Nat) :
    (placeLengths order sent clenLengths).length = clenLengths.length := by
  induction order generalizing sent clenLengths with
  | nil => rfl
  | cons symbol order ih =>
      cases sent with
      | nil => rfl
      | cons length sent =>
          have := ih sent (clenLengths.set symbol length)
          rwa [List.length_set] at this

theorem placeLengths_getD (order sent clenLengths : List Nat)
    (distinct : order.Nodup) (fits : sent.length ≤ order.length)
    {symbol : Nat} (inside : symbol < clenLengths.length) :
    (placeLengths order sent clenLengths).getD symbol 0 =
      if order.idxOf symbol < sent.length then
        sent.getD (order.idxOf symbol) 0
      else clenLengths.getD symbol 0 := by
  induction order generalizing sent clenLengths with
  | nil =>
      obtain rfl : sent = [] := List.length_eq_zero_iff.mp (by simpa using fits)
      rfl
  | cons first order ih =>
      cases sent with
      | nil => rfl
      | cons length sent =>
          obtain ⟨fresh, distinctRest⟩ := List.nodup_cons.mp distinct
          have fitsRest : sent.length ≤ order.length :=
            Nat.le_of_succ_le_succ fits
          have later := ih sent (clenLengths.set first length) distinctRest
            fitsRest (by rwa [List.length_set])
          show (placeLengths order sent (clenLengths.set first length)).getD
            symbol 0 = _
          rw [later]
          by_cases same : first = symbol
          · subst same
            have absent : ¬ order.idxOf first < sent.length := by
              rw [List.idxOf_eq_length fresh]
              exact Nat.not_lt.mpr fitsRest
            rw [if_neg absent, List.idxOf_cons_self]
            simp [inside]
          · have kept : (clenLengths.set first length).getD symbol 0 =
                clenLengths.getD symbol 0 := by
              simp [same]
            rw [kept, List.idxOf_cons_ne _ same]
            simp only [List.length_cons, Nat.succ_eq_add_one,
              Nat.add_lt_add_iff_right, List.getD_cons_succ]

theorem placeLengths_eq {sent : List Nat} (many : sent.length ≤ 19) :
    placeLengths (CLEN_ORDER.take sent.length) sent (List.replicate 19 0) =
      codeLengthLengths sent := by
  have size : CLEN_ORDER.length = 19 := rfl
  have distinct : CLEN_ORDER.Nodup := by decide
  have whole : (CLEN_ORDER.take sent.length).zip sent =
      CLEN_ORDER.zip sent := by
    conv_rhs => rw [← List.take_append_drop sent.length CLEN_ORDER]
    rw [← List.append_nil sent, List.zip_append
      (by simp only [List.append_nil, List.length_take]; omega)]
    simp
  have replaced : placeLengths (CLEN_ORDER.take sent.length) sent
      (List.replicate 19 0) =
        placeLengths CLEN_ORDER sent (List.replicate 19 0) := by
    rw [placeLengths, whole, placeLengths]
  apply List.ext_getElem
  · rw [placeLengths_length, codeLengthLengths, List.length_map,
      List.length_range, List.length_replicate]
  · intro symbol left right
    have inside : symbol < (List.replicate 19 0).length := by
      rwa [placeLengths_length] at left
    have read := placeLengths_getD CLEN_ORDER sent (List.replicate 19 0)
      distinct many inside
    rw [← replaced, List.getD_eq_getElem?_getD,
      List.getElem?_eq_getElem left, Option.getD_some] at read
    rw [read]
    simp only [codeLengthLengths, List.getElem_map, List.getElem_range]
    show _ = sent.getD (CLEN_ORDER.idxOf symbol) 0
    by_cases given : CLEN_ORDER.idxOf symbol < sent.length
    · rw [if_pos given]
    · rw [if_neg given, getD_zeros,
        List.getD_eq_default _ _ (Nat.not_lt.mp given)]

theorem readLengths_run {clenHuff : Huffman} {total rounds : Nat}
    {lengths : List Nat} {reader next : BitReader}
    {symbol width least value : Nat}
    (kind : Repeat lengths symbol width least value)
    (within : lengths.length < total)
    (decoded : reader.decode clenHuff = .ok (symbol, next)) :
    readLengths clenHuff total (rounds + 1) lengths reader =
      (do
        let (extra, reader) ← next.bits width
        readLengths clenHuff total rounds
          (repeatLength total (extra + least) value lengths) reader) := by
  rw [readLengths, if_pos within]
  cases kind with
  | previous last => simp [decoded, bind, Except.bind, last]
  | zeros | manyZeros => simp [decoded, bind, Except.bind]

theorem readLengths_spec {code : List Nat} {clenHuff : Huffman}
    (table : Represents clenHuff code) {total : Nat}
    {lengths result : List Nat}
    (sequence : ClippedLengths code total lengths bits result)
    (reading : Reading buf reader (bits ++ rest)) {rounds : Nat}
    (enough : total ≤ lengths.length + rounds) :
    ∃ next,
      readLengths clenHuff total rounds lengths reader = .ok (result, next) ∧
      Reading buf next rest := by
  induction sequence generalizing reader rounds with
  | complete count =>
      refine ⟨reader, ?_, reading⟩
      cases rounds with
      | zero => rfl
      | succ rounds =>
          rw [readLengths, if_neg (by omega)]
  | @length lengths result word bits length small symbol within sequence ih =>
      obtain ⟨rounds, rfl⟩ : ∃ fewer, rounds = fewer + 1 :=
        Nat.exists_eq_succ_of_ne_zero (by omega)
      rw [List.append_assoc] at reading
      obtain ⟨next, decoded, following⟩ := Reading.decode table symbol reading
      have remaining : total ≤ (lengths ++ [length]).length + rounds := by
        rw [List.length_append, List.length_singleton]
        omega
      obtain ⟨last, ran, done⟩ := ih following remaining
      refine ⟨last, ?_, done⟩
      rw [readLengths, if_pos within]
      simp only [decoded, bind, Except.bind, if_pos small]
      exact ran
  | @run lengths result word extra bits symbol width least value kind assigned
      size within sequence ih =>
      obtain ⟨rounds, rfl⟩ : ∃ fewer, rounds = fewer + 1 :=
        Nat.exists_eq_succ_of_ne_zero (by omega)
      rw [List.append_assoc, List.append_assoc] at reading
      obtain ⟨next, decoded, following⟩ := Reading.decode table assigned reading
      obtain ⟨afterwards, extraRead, following⟩ := Reading.bits following
      rw [size] at extraRead
      have positive : 0 < least := by cases kind <;> omega
      have remaining : total ≤ (lengths ++ List.replicate
          (min (least + ofBits extra) (total - lengths.length)) value).length +
            rounds := by
        rw [List.length_append, List.length_replicate]
        omega
      obtain ⟨last, ran, done⟩ := ih following remaining
      refine ⟨last, ?_, done⟩
      rw [readLengths_run kind within decoded]
      simp only [extraRead, bind, Except.bind, Nat.add_comm _ least]
      exact ran

theorem ClippedLengths_bounded {code : List Nat} {total : Nat}
    {lengths result : List Nat}
    (sequence : ClippedLengths code total lengths bits result)
    (bounded : ∀ length ∈ lengths, length ≤ MAX_BITS) :
    ∀ length ∈ result, length ≤ MAX_BITS := by
  have repeated : ∀ {lengths : List Nat} (count value : Nat),
      (∀ length ∈ lengths, length ≤ MAX_BITS) → value ≤ MAX_BITS →
      ∀ length ∈ lengths ++ List.replicate count value, length ≤ MAX_BITS := by
    intro lengths count value bounded small length member
    rcases List.mem_append.mp member with earlier | latest
    · exact bounded length earlier
    · rw [List.eq_of_mem_replicate latest]
      exact small
  induction sequence with
  | complete count => exact bounded
  | length length small symbol within sequence ih =>
      exact ih (repeated 1 length bounded (Nat.le_of_lt_succ small))
  | run kind assigned size within sequence ih =>
      apply ih (repeated _ _ bounded _)
      cases kind with
      | previous last => exact bounded _ (List.mem_of_getLast? last)
      | zeros => exact Nat.zero_le _
      | manyZeros => exact Nat.zero_le _

theorem codeLengthLengths_bounded {sent : List Nat}
    (small : ∀ length ∈ sent, length < 8) :
    ∀ length ∈ codeLengthLengths sent, length ≤ MAX_BITS := by
  intro length member
  obtain ⟨symbol, _, rfl⟩ := List.mem_map.mp member
  rw [List.getD_eq_getElem?_getD]
  cases found : sent[codeLengthOrder.idxOf symbol]? with
  | none => exact Nat.zero_le _
  | some length =>
      have := small length (List.mem_of_getElem? found)
      exact Nat.le_of_lt (Nat.lt_of_lt_of_le this (by decide))

theorem inflateDynamicTables_spec {header : List Bool}
    {literals distances : List Nat}
    (tables : ClippedTables header literals distances)
    (reading : Reading buf reader (header ++ rest)) :
    ∃ litHuff distHuff next,
      inflateDynamicTables reader = .ok (litHuff, distHuff, next) ∧
      Represents litHuff literals ∧ Represents distHuff distances ∧
      Reading buf next rest := by
  obtain ⟨sent, lengthBits, minLiterals, maxLiterals, minDistances,
    maxDistances, minSent, maxSent, small, sequence, rfl⟩ := tables.tables
  simp only [List.append_assoc] at reading
  obtain ⟨reader₁, hlitRead, reading⟩ := Reading.number (by omega) reading
  obtain ⟨reader₂, hdistRead, reading⟩ := Reading.number (by omega) reading
  obtain ⟨reader₃, hclenRead, reading⟩ := Reading.number (by omega) reading
  have hlit : literals.length - 257 + 257 = literals.length := by omega
  have hdist : distances.length - 1 + 1 = distances.length := by omega
  have hclen : sent.length - 4 + 4 = sent.length := by omega
  obtain ⟨reader₄, clenRead, reading⟩ :=
    readCodeLengths_spec (CLEN_ORDER.take sent.length) sent
      (List.replicate 19 0)
      (by rw [List.length_take]; exact Nat.min_eq_left maxSent) small reading
  rw [placeLengths_eq maxSent] at clenRead
  obtain ⟨clenHuff, clenBuilt, clenTable⟩ :=
    buildHuffman_represents (codeLengthLengths_bounded small)
  obtain ⟨reader₅, lengthsRead, reading⟩ :=
    readLengths_spec clenTable sequence reading (Nat.le_add_left _ 0)
  have bounded : ∀ length ∈ literals ++ distances, length ≤ MAX_BITS :=
    ClippedLengths_bounded sequence (by simp)
  obtain ⟨litHuff, litBuilt, litTable⟩ := buildHuffman_represents
    (fun length member => bounded length (List.mem_append_left _ member))
  obtain ⟨distHuff, distBuilt, distTable⟩ := buildHuffman_represents
    (fun length member => bounded length (List.mem_append_right _ member))
  refine ⟨litHuff, distHuff, reader₅, ?_, litTable, distTable, reading⟩
  have inRange : ¬(286 < literals.length ∨ 30 < distances.length) := by omega
  have front : (literals ++ distances).take literals.length = literals :=
    List.take_left
  have whole : (literals ++ distances).take
      (literals.length + distances.length) = literals ++ distances := by
    rw [← List.length_append, List.take_length]
  have back : (literals ++ distances).drop literals.length = distances :=
    List.drop_left
  simp only [inflateDynamicTables, hlitRead, hdistRead, hclenRead, bind,
    Except.bind, hlit, hdist, hclen, if_neg inRange, pure, Except.pure,
    clenRead, clenBuilt, lengthsRead, front, whole, back, litBuilt, distBuilt]

end Takos.Packs
