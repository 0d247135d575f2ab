import Takos.Foundation.CanonicalCode

/-!
# Compressed streams

What a bit stream in the deflate format stands for, as relations that know no
reader: blocks of literals and copies under a pair of canonical codes, stored
blocks, and the code lengths that a block can send ahead of its data.  A zlib
stream wraps one deflate stream in a two byte header and a checksum.
-/

namespace Takos.Foundation.Deflate

/-- For the length symbols from 257 on: the least length and the number of
extra bits. -/
def lengthRows : List (Nat × Nat) :=
  [(3, 0), (4, 0), (5, 0), (6, 0), (7, 0), (8, 0), (9, 0), (10, 0), (11, 1),
    (13, 1), (15, 1), (17, 1), (19, 2), (23, 2), (27, 2), (31, 2), (35, 3),
    (43, 3), (51, 3), (59, 3), (67, 4), (83, 4), (99, 4), (115, 4), (131, 5),
    (163, 5), (195, 5), (227, 5), (258, 0)]

/-- The same for the distance symbols. -/
def distanceRows : List (Nat × Nat) :=
  [(1, 0), (2, 0), (3, 0), (4, 0), (5, 1), (7, 1), (9, 2), (13, 2), (17, 3),
    (25, 3), (33, 4), (49, 4), (65, 5), (97, 5), (129, 6), (193, 6), (257, 7),
    (385, 7), (513, 8), (769, 8), (1025, 9), (1537, 9), (2049, 10), (3073, 10),
    (4097, 11), (6145, 11), (8193, 12), (12289, 12), (16385, 13), (24577, 13)]

/-- Code lengths of the literal and length symbols of a fixed block. -/
def fixedLiterals : List Nat :=
  List.replicate 144 8 ++ List.replicate 112 9 ++ List.replicate 24 7 ++
    List.replicate 8 8

/-- Code lengths of the distance symbols of a fixed block.  The last two
symbols take part in the code and never occur. -/
def fixedDistances : List Nat := List.replicate 32 5

/-- `copy` repeats what stands `distance` bytes back, possibly overlapping. -/
structure Copies (out : List UInt8) (distance : Nat) (copy : List UInt8) :
    Prop where
  back : 0 < distance
  within : distance ≤ out.length
  repeats : ∀ i < copy.length,
    copy[i]? = (out ++ copy)[out.length + i - distance]?

/-- `BlockData literals distances out bits result`: after `out`, the data of a
block extends the output to `result`. -/
inductive BlockData (literals distances : List Nat) :
    List UInt8 → List Bool → List UInt8 → Prop where
  | endOfBlock {out : List UInt8} {word : List Bool}
      (code : IsCode literals 256 word) :
      BlockData literals distances out word out
  | literal {out result : List UInt8} {word bits : List Bool} (byte : UInt8)
      (code : IsCode literals byte.toNat word)
      (rest : BlockData literals distances (out ++ [byte]) bits result) :
      BlockData literals distances out (word ++ bits) result
  | copy {out copied result : List UInt8}
      {word extra distanceWord distanceExtra bits : List Bool}
      {symbol least distanceSymbol leastDistance : Nat}
      (code : IsCode literals (257 + symbol) word)
      (row : lengthRows[symbol]? = some (least, extra.length))
      (distanceCode : IsCode distances distanceSymbol distanceWord)
      (distanceRow : distanceRows[distanceSymbol]? =
        some (leastDistance, distanceExtra.length))
      (copies : Copies out (leastDistance + ofBits distanceExtra) copied)
      (length : copied.length = least + ofBits extra)
      (rest : BlockData literals distances (out ++ copied) bits result) :
      BlockData literals distances out
        (word ++ (extra ++ (distanceWord ++ (distanceExtra ++ bits)))) result

/-- The order in which the lengths of the code length code are sent. -/
def codeLengthOrder : List Nat :=
  [16, 17, 18, 0, 8, 7, 9, 6, 10, 5, 11, 4, 12, 3, 13, 2, 14, 1, 15]

/-- The lengths of the code length code by symbol; those not sent are zero. -/
def codeLengthLengths (sent : List Nat) : List Nat :=
  (List.range 19).map fun symbol => sent.getD (codeLengthOrder.idxOf symbol) 0

/-- A sequence of `total` code lengths, continued after `lengths`: a length by
itself, the previous one repeated, or a run of zeros. -/
inductive CodeLengths (code : List Nat) (total : Nat) :
    List Nat → List Bool → List Nat → Prop where
  | complete {lengths : List Nat} (count : lengths.length = total) :
      CodeLengths code total lengths [] lengths
  | length {lengths result : List Nat} {word bits : List Bool} (length : Nat)
      (small : length < 16) (symbol : IsCode code length word)
      (within : lengths.length < total)
      (rest : CodeLengths code total (lengths ++ [length]) bits result) :
      CodeLengths code total lengths (word ++ bits) result
  | previous {lengths result : List Nat} {word extra bits : List Bool}
      {previous : Nat} (symbol : IsCode code 16 word) (width : extra.length = 2)
      (last : lengths.getLast? = some previous)
      (within : lengths.length + (3 + ofBits extra) ≤ total)
      (rest : CodeLengths code total
        (lengths ++ List.replicate (3 + ofBits extra) previous) bits result) :
      CodeLengths code total lengths (word ++ (extra ++ bits)) result
  | zeros {lengths result : List Nat} {word extra bits : List Bool}
      (symbol : IsCode code 17 word) (width : extra.length = 3)
      (within : lengths.length + (3 + ofBits extra) ≤ total)
      (rest : CodeLengths code total
        (lengths ++ List.replicate (3 + ofBits extra) 0) bits result) :
      CodeLengths code total lengths (word ++ (extra ++ bits)) result
  | manyZeros {lengths result : List Nat} {word extra bits : List Bool}
      (symbol : IsCode code 18 word) (width : extra.length = 7)
      (within : lengths.length + (11 + ofBits extra) ≤ total)
      (rest : CodeLengths code total
        (lengths ++ List.replicate (11 + ofBits extra) 0) bits result) :
      CodeLengths code total lengths (word ++ (extra ++ bits)) result

/-- The header of a dynamic block, with the two codes that it describes. -/
structure DynamicTables (bits : List Bool) (literals distances : List Nat) :
    Prop where
  tables : ∃ (sent : List Nat) (lengthBits : List Bool),
    257 ≤ literals.length ∧ literals.length ≤ 286 ∧
    1 ≤ distances.length ∧ distances.length ≤ 30 ∧
    4 ≤ sent.length ∧ sent.length ≤ 19 ∧ (∀ length ∈ sent, length < 8) ∧
    CodeLengths (codeLengthLengths sent) (literals.length + distances.length)
      [] lengthBits (literals ++ distances) ∧
    bits = toBits 5 (literals.length - 257) ++
      (toBits 5 (distances.length - 1) ++
        (toBits 4 (sent.length - 4) ++ (sent.flatMap (toBits 3) ++ lengthBits)))

/-- Bits from `position` to the next byte boundary. -/
def toBoundary (position : Nat) : Nat := (8 - position % 8) % 8

/-- A block after its first bit, at bit `position` of the stream. -/
inductive Block (position : Nat) :
    List UInt8 → List Bool → List UInt8 → Prop where
  | stored {out content : List UInt8} {padding : List Bool}
      (aligned : padding.length = toBoundary (position + 2))
      (short : content.length < 65536) :
      Block position out
        ([false, false] ++ (padding ++ (toBits 16 content.length ++
          (toBits 16 (65535 - content.length) ++ bitsOf content))))
        (out ++ content)
  | fixed {out result : List UInt8} {bits : List Bool}
      (data : BlockData fixedLiterals fixedDistances out bits result) :
      Block position out ([true, false] ++ bits) result
  | dynamic {out result : List UInt8} {header bits : List Bool}
      {literals distances : List Nat}
      (tables : DynamicTables header literals distances)
      (data : BlockData literals distances out bits result) :
      Block position out ([false, true] ++ (header ++ bits)) result

/-- The blocks of a stream from bit `position` on, the last one marked. -/
inductive Blocks : Nat → List UInt8 → List Bool → List UInt8 → Prop where
  | last {position : Nat} {out result : List UInt8} {bits : List Bool}
      (block : Block (position + 1) out bits result) :
      Blocks position out (true :: bits) result
  | more {position : Nat} {out middle result : List UInt8}
      {bits rest : List Bool} (block : Block (position + 1) out bits middle)
      (blocks : Blocks (position + 1 + bits.length) middle rest result) :
      Blocks position out (false :: (bits ++ rest)) result

/-- A stream fills its last byte with unused bits. -/
def DeflateStream (bytes content : List UInt8) : Prop :=
  ∃ bits padding : List Bool,
    Blocks 0 [] bits content ∧ padding.length < 8 ∧
      bitsOf bytes = bits ++ padding

/-- The checksum of a zlib stream. -/
def adler32 (content : List UInt8) : Nat :=
  let sums := content.foldl
    (fun (sums : Nat × Nat) byte =>
      ((sums.1 + byte.toNat) % 65521,
        (sums.2 + (sums.1 + byte.toNat) % 65521) % 65521)) (1, 0)
  sums.2 * 65536 + sums.1

/-- A zlib stream without a preset dictionary. -/
structure ZlibStream (bytes content : List UInt8) : Prop where
  wrapped : ∃ (method flags : UInt8) (body : List UInt8),
    bytes = method :: flags :: (body ++ bigEndian 4 (adler32 content)) ∧
    method.toNat % 16 = 8 ∧ method.toNat / 16 ≤ 7 ∧
    (method.toNat * 256 + flags.toNat) % 31 = 0 ∧
    flags.toNat / 32 % 2 = 0 ∧
    DeflateStream body content

end Takos.Foundation.Deflate

/-!
# Streams under other rules

Decoders differ in what they accept as the header of a dynamic block: whether a
run of code lengths may pass the announced number of them, and which sets of
code lengths are a code.  Blocks and streams are stated for any such rule; the
rule of the format is the one that neither clips runs nor adds a condition.
-/

namespace Takos.Foundation.Deflate

/-- A symbol that repeats a value, with the number of its extra bits and the
least number of repetitions. -/
inductive Repeat (lengths : List Nat) : Nat → Nat → Nat → Nat → Prop where
  | previous {value : Nat} (last : lengths.getLast? = some value) :
      Repeat lengths 16 2 3 value
  | zeros : Repeat lengths 17 3 3 0
  | manyZeros : Repeat lengths 18 7 11 0

/-- As `CodeLengths`, where a run that is too long is cut off. -/
inductive ClippedLengths (code : List Nat) (total : Nat) :
    List Nat → List Bool → List Nat → Prop where
  | complete {lengths : List Nat} (count : lengths.length = total) :
      ClippedLengths code total lengths [] lengths
  | length {lengths result : List Nat} {word bits : List Bool} (length : Nat)
      (small : length < 16) (symbol : IsCode code length word)
      (within : lengths.length < total)
      (rest : ClippedLengths code total (lengths ++ [length]) bits result) :
      ClippedLengths code total lengths (word ++ bits) result
  | run {lengths result : List Nat} {word extra bits : List Bool}
      {symbol width least value : Nat}
      (kind : Repeat lengths symbol width least value)
      (assigned : IsCode code symbol word) (size : extra.length = width)
      (within : lengths.length < total)
      (rest : ClippedLengths code total
        (lengths ++ List.replicate
          (min (least + ofBits extra) (total - lengths.length)) value)
        bits result) :
      ClippedLengths code total lengths (word ++ (extra ++ bits)) result

/-- A header whose code lengths are sent as a rule allows. -/
structure TablesUnder
    (rule : List Nat → Nat → List Bool → List Nat → Prop)
    (bits : List Bool) (literals distances : List Nat) : Prop where
  tables : ∃ (sent : List Nat) (lengthBits : List Bool),
    257 ≤ literals.length ∧ literals.length ≤ 286 ∧
    1 ≤ distances.length ∧ distances.length ≤ 30 ∧
    4 ≤ sent.length ∧ sent.length ≤ 19 ∧ (∀ length ∈ sent, length < 8) ∧
    rule (codeLengthLengths sent) (literals.length + distances.length)
      lengthBits (literals ++ distances) ∧
    bits = toBits 5 (literals.length - 257) ++
      (toBits 5 (distances.length - 1) ++
        (toBits 4 (sent.length - 4) ++ (sent.flatMap (toBits 3) ++ lengthBits)))

def ClippedTables : List Bool → List Nat → List Nat → Prop :=
  TablesUnder fun code total => ClippedLengths code total []

/-- The headers of the format, whose three sets of code lengths are proper. -/
def ProperTables (proper : List Nat → Prop) (bits : List Bool)
    (literals distances : List Nat) : Prop :=
  TablesUnder (fun code total bits lengths =>
      proper code ∧ CodeLengths code total [] bits lengths)
    bits literals distances ∧ proper literals ∧ proper distances

/-- No more codes than there are words, as far as 15 bits go. -/
def NotOverfull (lengths : List Nat) : Prop :=
  ((List.range' 1 15).map fun length =>
    lengths.count length * 2 ^ (15 - length)).sum ≤ 2 ^ 15

section Rules

variable (tables : List Bool → List Nat → List Nat → Prop)

inductive BlockUnder (position : Nat) :
    List UInt8 → List Bool → List UInt8 → Prop where
  | stored {out content : List UInt8} {padding : List Bool}
      (aligned : padding.length = toBoundary (position + 2))
      (short : content.length < 65536) :
      BlockUnder position out
        ([false, false] ++ (padding ++ (toBits 16 content.length ++
          (toBits 16 (65535 - content.length) ++ bitsOf content))))
        (out ++ content)
  | fixed {out result : List UInt8} {bits : List Bool}
      (data : BlockData fixedLiterals fixedDistances out bits result) :
      BlockUnder position out ([true, false] ++ bits) result
  | dynamic {out result : List UInt8} {header bits : List Bool}
      {literals distances : List Nat}
      (tables : tables header literals distances)
      (data : BlockData literals distances out bits result) :
      BlockUnder position out ([false, true] ++ (header ++ bits)) result

inductive BlocksUnder : Nat → List UInt8 → List Bool → List UInt8 → Prop where
  | last {position : Nat} {out result : List UInt8} {bits : List Bool}
      (block : BlockUnder tables (position + 1) out bits result) :
      BlocksUnder position out (true :: bits) result
  | more {position : Nat} {out middle result : List UInt8}
      {bits rest : List Bool}
      (block : BlockUnder tables (position + 1) out bits middle)
      (blocks : BlocksUnder (position + 1 + bits.length) middle rest result) :
      BlocksUnder position out (false :: (bits ++ rest)) result

def StreamUnder (bytes content : List UInt8) : Prop :=
  ∃ bits padding : List Bool,
    BlocksUnder tables 0 [] bits content ∧ padding.length < 8 ∧
      bitsOf bytes = bits ++ padding

end Rules

variable {bits : List Bool} {literals distances : List Nat}

theorem CodeLengths.clipped {code : List Nat} {total : Nat}
    {lengths result : List Nat}
    (sequence : CodeLengths code total lengths bits result) :
    ClippedLengths code total lengths bits result := by
  have cut : ∀ {count : Nat} {lengths : List Nat},
      lengths.length + count ≤ total →
      min count (total - lengths.length) = count := by
    intro count lengths within
    omega
  induction sequence with
  | complete count => exact .complete count
  | length length small symbol within _ ih =>
      exact .length length small symbol within ih
  | previous symbol width last within _ ih =>
      apply ClippedLengths.run (.previous last) symbol width (by omega)
      rw [cut within]
      exact ih
  | zeros symbol width within _ ih =>
      apply ClippedLengths.run .zeros symbol width (by omega)
      rw [cut within]
      exact ih
  | manyZeros symbol width within _ ih =>
      apply ClippedLengths.run .manyZeros symbol width (by omega)
      rw [cut within]
      exact ih

theorem TablesUnder.mono
    {rule weaker : List Nat → Nat → List Bool → List Nat → Prop}
    (implied : ∀ code total bits lengths,
      rule code total bits lengths → weaker code total bits lengths)
    (tables : TablesUnder rule bits literals distances) :
    TablesUnder weaker bits literals distances := by
  obtain ⟨sent, lengthBits, minLiterals, maxLiterals, minDistances,
    maxDistances, minSent, maxSent, small, sequence, bitsEq⟩ := tables.tables
  exact ⟨sent, lengthBits, minLiterals, maxLiterals, minDistances,
    maxDistances, minSent, maxSent, small, implied _ _ _ _ sequence, bitsEq⟩

theorem ProperTables.clipped {proper : List Nat → Prop}
    (tables : ProperTables proper bits literals distances) :
    ClippedTables bits literals distances :=
  tables.1.mono fun _ _ _ _ sequence => sequence.2.clipped

section Weaker

variable {rule weaker : List Bool → List Nat → List Nat → Prop}
  (implied : ∀ bits literals distances,
    rule bits literals distances → weaker bits literals distances)

include implied

theorem BlockUnder.mono {position : Nat} {out result : List UInt8}
    {bits : List Bool} (block : BlockUnder rule position out bits result) :
    BlockUnder weaker position out bits result := by
  cases block with
  | stored aligned short => exact .stored aligned short
  | fixed data => exact .fixed data
  | dynamic tables data => exact .dynamic (implied _ _ _ tables) data

theorem BlocksUnder.mono {position : Nat} {out result : List UInt8}
    {bits : List Bool} (blocks : BlocksUnder rule position out bits result) :
    BlocksUnder weaker position out bits result := by
  induction blocks with
  | last block => exact .last (block.mono implied)
  | more block _ ih => exact .more (block.mono implied) ih

theorem StreamUnder.mono {bytes content : List UInt8}
    (stream : StreamUnder rule bytes content) :
    StreamUnder weaker bytes content := by
  obtain ⟨bits, padding, blocks, unused, bitsEq⟩ := stream
  exact ⟨bits, padding, blocks.mono implied, unused, bitsEq⟩

end Weaker

theorem DynamicTables.clipped (tables : DynamicTables bits literals distances) :
    ClippedTables bits literals distances := by
  have under : TablesUnder
      (fun code total bits lengths => CodeLengths code total [] bits lengths)
      bits literals distances := ⟨tables.tables⟩
  exact under.mono fun _ _ _ _ sequence => sequence.clipped

theorem Block.clipped {position : Nat} {out result : List UInt8}
    (block : Block position out bits result) :
    BlockUnder ClippedTables position out bits result := by
  cases block with
  | stored aligned short => exact .stored aligned short
  | fixed data => exact .fixed data
  | dynamic tables data => exact .dynamic tables.clipped data

theorem Blocks.clipped {position : Nat} {out result : List UInt8}
    (blocks : Blocks position out bits result) :
    BlocksUnder ClippedTables position out bits result := by
  induction blocks with
  | last block => exact .last block.clipped
  | more block _ ih => exact .more block.clipped ih

theorem DeflateStream.clipped {bytes content : List UInt8}
    (stream : DeflateStream bytes content) :
    StreamUnder ClippedTables bytes content := by
  obtain ⟨bits, padding, blocks, unused, bitsEq⟩ := stream
  exact ⟨bits, padding, blocks.clipped, unused, bitsEq⟩

end Takos.Foundation.Deflate
