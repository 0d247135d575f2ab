import Takos.Packs.InflateAccepted

/-!
# The inflater and the rules of the format

A valid stream is inflated to its content and its length, whatever follows it.
What is inflated is a stream, which is valid unless the header of one of its
dynamic blocks breaks a rule that the inflater does not check: a run of code
lengths passes the announced number of them, or a set of code lengths is none
of a code.
-/

namespace Takos.Packs

open Takos.Foundation Takos.Foundation.Deflate

theorem inflateRawAt_inv {buf : List UInt8} {offset : Nat}
    {result : InflateResult} (ran : inflateRawAt buf offset = .ok result) :
    ∃ body tail, offset ≤ buf.length ∧ buf.drop offset = body ++ tail ∧
      StreamUnder ClippedTables body result.output ∧
      body.length = result.bytesConsumed := by
  unfold inflateRawAt at ran
  split at ran
  · cases ran
  rename_i inside
  have within : offset ≤ buf.length := Nat.not_lt.mp inside
  obtain ⟨⟨reader, out⟩, inflated, ran⟩ := ok_of_bind ran
  obtain rfl := Except.ok.inj ran
  have start := Reading.start within
  obtain ⟨data, rest, split, blocks, done⟩ :=
    @inflateBlocks_inv _ _ _ _ _ [] out start inflated 0
      (by rw [length_bitsOf]; omega)
  have remaining := done.rest
  have sizes := congrArg List.length split
  have lengths := congrArg List.length remaining
  have partialByte := done.partialByte
  have position := done.inside
  simp only [length_bitsOf, List.length_append, length_toBits,
    List.length_drop] at sizes lengths
  have consumed : reader.bytesConsumed offset = reader.pos - offset := by
    rw [BitReader.bytesConsumed, Nat.shiftRight_eq_div_pow]
    omega
  have tail : (buf.drop offset).drop (reader.pos - offset) =
      buf.drop reader.pos := by
    rw [List.drop_drop]
    congr 1
    omega
  refine ⟨(buf.drop offset).take (reader.pos - offset), buf.drop reader.pos,
    within, ?_, ⟨data, toBits reader.bitCnt reader.bitBuf, blocks, ?_, ?_⟩, ?_⟩
  · rw [← tail, List.take_append_drop]
  · rw [length_toBits]
    exact partialByte
  · have whole : bitsOf ((buf.drop offset).take (reader.pos - offset)) ++
        bitsOf (buf.drop reader.pos) =
          (data ++ toBits reader.bitCnt reader.bitBuf) ++
            bitsOf (buf.drop reader.pos) := by
      rw [← bitsOf_append, ← tail, List.take_append_drop, split, tail,
        List.append_assoc, remaining]
    exact List.append_cancel_right whole
  · rw [List.length_take, List.length_drop]
    show _ = reader.bytesConsumed offset
    omega

/-- Every valid stream is inflated, and only valid streams are. -/
structure InflatesAt (valid : List UInt8 → List UInt8 → Prop)
    (buf : List UInt8) (offset : Nat) : Prop where
  complete : ∀ body content tail, offset ≤ buf.length →
    buf.drop offset = body ++ tail → valid body content →
      inflateRawAt buf offset = .ok ⟨content, body.length⟩
  sound : ∀ result, inflateRawAt buf offset = .ok result →
    ∃ body tail, offset ≤ buf.length ∧ buf.drop offset = body ++ tail ∧
      valid body result.output ∧ body.length = result.bytesConsumed

/-- No loop ends for want of rounds. -/
structure RoundsSuffice (buf : List UInt8) (offset : Nat) : Prop where
  blocks : ∀ rounds, (BitReader.new buf offset).unread ≤ rounds →
    inflateBlocks rounds (BitReader.new buf offset) [] =
      inflateBlocks (BitReader.new buf offset).unread
        (BitReader.new buf offset) []
  data : ∀ literals distances litHuff distHuff reader bits rounds out,
    Represents litHuff literals → Represents distHuff distances →
    Reading buf reader bits → reader.unread ≤ rounds →
      inflateBlockData litHuff distHuff rounds reader out =
        inflateBlockData litHuff distHuff reader.unread reader out

theorem rounds_suffice {buf : List UInt8} {offset : Nat}
    (inside : offset ≤ buf.length) : RoundsSuffice buf offset where
  blocks := by
    intro rounds enough
    have start := Reading.start inside
    have length := start.toBuffered.length
    exact inflateBlocks_rounds _ _ _ start (by omega) (by omega)
  data := by
    intro literals distances litHuff distHuff reader bits rounds out litTable
      distTable reading enough
    have length := reading.toBuffered.length
    exact inflateBlockData_rounds litTable distTable _ _ out reading (by omega)
      (by omega)

/-- The end of block and two length symbols have codes of one bit each. -/
def overfull : List UInt8 :=
  [0x15, 0xc0, 0x81, 0x00, 0x00, 0x00, 0x00, 0x00, 0x90, 0xff, 0x6b, 0x00]

theorem overfull_inflated : inflateRawAt overfull 0 = .ok ⟨[], 12⟩ := by
  decide +kernel

/-- The reader behind the three bits before the header. -/
def afterType : BitReader := ⟨overfull, 2, 5, 1⟩

theorem overfull_split :
    bitsOf overfull = [true, false, true] ++
      (toBits afterType.bitCnt afterType.bitBuf ++
        bitsOf (overfull.drop afterType.pos)) := by
  decide +kernel

theorem afterType_reading :
    Reading overfull afterType (toBits afterType.bitCnt afterType.bitBuf ++
      bitsOf (overfull.drop afterType.pos)) where
  buffer := rfl
  small := by decide
  inside := by decide
  rest := rfl
  partialByte := by decide

theorem overfull_counts :
    (inflateDynamicTables afterType).toOption.map
      (fun tables => tables.1.counts.getD 1 0) = some 3 := by
  decide +kernel

theorem overfull_not_proper {bits : List Bool} {literals distances : List Nat}
    {rest : List Bool}
    (split : toBits afterType.bitCnt afterType.bitBuf ++
      bitsOf (overfull.drop afterType.pos) = bits ++ rest)
    (tables : ProperTables NotOverfull bits literals distances) : False := by
  have reading := afterType_reading
  rw [split] at reading
  obtain ⟨litHuff, distHuff, next, ran, litTable, _, _⟩ :=
    inflateDynamicTables_spec tables.clipped reading
  have counts := overfull_counts
  rw [ran] at counts
  have three : litHuff.counts.getD 1 0 = 3 := Option.some.inj counts
  rw [litTable.counts 1 (by decide)] at three
  have proper := tables.2.1
  simp only [NotOverfull, List.range'_succ, List.range'_zero, List.map_cons,
    List.sum_cons, three] at proper
  omega

end Takos.Packs
