import Mathlib.Data.List.Basic

/-!
# The inflater

Reading a raw deflate stream or a zlib stream at an offset of a buffer, with
the number of compressed bytes that were read.  Every loop that runs until the
input ends carries as many rounds as there are unread bits, each of which reads
at least one.
-/

namespace Takos.Packs

inductive InflateError where
  | codeLengthExceeds
  | unexpectedEnd
  | invalidHuffmanCode
  | invalidDistance
  | invalidLengthSymbol
  | invalidDistanceSymbol
  | dynamicHeaderRange
  | repeatWithoutPrevious
  | offsetRange
  | storedLengthCheck
  | reservedBlockType
  | zlibHeaderRange
  | compressionMethod
  | headerChecksum
  | truncatedDictionary
  | truncatedAdler
  deriving DecidableEq

def InflateError.message : InflateError → String
  | .codeLengthExceeds => "inflate: code length exceeds 15"
  | .unexpectedEnd => "inflate: unexpected end of input"
  | .invalidHuffmanCode => "inflate: invalid Huffman code"
  | .invalidDistance => "inflate: invalid back-reference distance"
  | .invalidLengthSymbol => "inflate: invalid length symbol"
  | .invalidDistanceSymbol => "inflate: invalid distance symbol"
  | .dynamicHeaderRange => "inflate: dynamic block header out of range"
  | .repeatWithoutPrevious => "inflate: repeat with no previous length"
  | .offsetRange => "inflate: offset out of range"
  | .storedLengthCheck => "inflate: stored block length check failed"
  | .reservedBlockType => "inflate: reserved block type 3"
  | .zlibHeaderRange => "inflate: zlib header out of range"
  | .compressionMethod => "inflate: unsupported zlib compression method"
  | .headerChecksum => "inflate: zlib header checksum failed"
  | .truncatedDictionary => "inflate: truncated zlib preset dictionary id"
  | .truncatedAdler => "inflate: truncated zlib adler32 trailer"

def MAX_BITS : Nat := 15

def LENGTH_BASE : List Nat :=
  [3, 4, 5, 6, 7, 8, 9, 10, 11, 13, 15, 17, 19, 23, 27, 31, 35, 43, 51, 59, 67,
    83, 99, 115, 131, 163, 195, 227, 258]

def LENGTH_EXTRA : List Nat :=
  [0, 0, 0, 0, 0, 0, 0, 0, 1, 1, 1, 1, 2, 2, 2, 2, 3, 3, 3, 3, 4, 4, 4, 4, 5, 5,
    5, 5, 0]

def DIST_BASE : List Nat :=
  [1, 2, 3, 4, 5, 7, 9, 13, 17, 25, 33, 49, 65, 97, 129, 193, 257, 385, 513,
    769, 1025, 1537, 2049, 3073, 4097, 6145, 8193, 12289, 16385, 24577]

def DIST_EXTRA : List Nat :=
  [0, 0, 0, 0, 1, 1, 2, 2, 3, 3, 4, 4, 5, 5, 6, 6, 7, 7, 8, 8, 9, 9, 10, 10, 11,
    11, 12, 12, 13, 13]

def CLEN_ORDER : List Nat :=
  [16, 17, 18, 0, 8, 7, 9, 6, 10, 5, 11, 4, 12, 3, 13, 2, 14, 1, 15]

structure Huffman where
  counts : List Nat
  symbols : List Nat

/-- The first loop of `buildHuffman`. -/
def countLengths (counts : List Nat) :
    List Nat → Except InflateError (List Nat)
  | [] => .ok counts
  | len :: lengths =>
    if MAX_BITS < len then .error .codeLengthExceeds
    else countLengths (counts.modify len (· + 1)) lengths

/-- The second loop: where the symbols of each length start. -/
def lengthOffsets (counts : List Nat) : List Nat :=
  (List.range' 1 MAX_BITS).foldl
    (fun offsets len =>
      offsets.set (len + 1) (offsets.getD len 0 + counts.getD len 0))
    (List.replicate (MAX_BITS + 2) 0)

/-- The third loop, from symbol `i` on. -/
def placeSymbols (offsets symbols : List Nat) (i : Nat) : List Nat → List Nat
  | [] => symbols
  | len :: lengths =>
    if len = 0 then placeSymbols offsets symbols (i + 1) lengths
    else
      placeSymbols (offsets.modify len (· + 1))
        (symbols.set (offsets.getD len 0) i) (i + 1) lengths

/-- The second parameter of the source is the number of lengths. -/
def buildHuffman (lengths : List Nat) : Except InflateError Huffman := do
  let counts ← countLengths (List.replicate (MAX_BITS + 1) 0) lengths
  return {
    counts
    symbols := placeSymbols (lengthOffsets counts)
      (List.replicate lengths.length 0) 0 lengths }

structure BitReader where
  buf : List UInt8
  bitBuf : Nat
  bitCnt : Nat
  pos : Nat
  deriving DecidableEq

namespace BitReader

def new (buf : List UInt8) (start : Nat) : BitReader := ⟨buf, 0, 0, start⟩

/-- Bits between the read position and the end of the buffer. -/
def unread (reader : BitReader) : Nat :=
  8 * (reader.buf.length - reader.pos) + reader.bitCnt

/-- The `while (bitCnt < n)` loop of `bits`. -/
def fill (n : Nat) : Nat → BitReader → Except InflateError BitReader
  | 0, reader => .ok reader
  | rounds + 1, reader =>
    if reader.bitCnt < n then
      match reader.buf[reader.pos]? with
      | none => .error .unexpectedEnd
      | some byte =>
        fill n rounds
          { reader with
            bitBuf := reader.bitBuf ||| (byte.toNat <<< reader.bitCnt)
            bitCnt := reader.bitCnt + 8
            pos := reader.pos + 1 }
    else .ok reader

def bits (n : Nat) (reader : BitReader) :
    Except InflateError (Nat × BitReader) := do
  let filled ← fill n n reader
  return (filled.bitBuf &&& ((1 <<< n) - 1),
    { filled with
      bitBuf := filled.bitBuf >>> n
      bitCnt := filled.bitCnt - n })

/-- The loop of `decode`, for `steps` more lengths from `len` on. -/
def decodeFrom (h : Huffman) :
    (steps len code first index : Nat) → BitReader →
      Except InflateError (Nat × BitReader)
  | 0, _, _, _, _, _ => .error .invalidHuffmanCode
  | steps + 1, len, code, first, index, reader => do
    let (bit, reader) ← reader.bits 1
    let code := code ||| bit
    let count := h.counts.getD len 0
    if code < first + count then
      return (h.symbols.getD (index + (code - first)) 0, reader)
    else
      decodeFrom h steps (len + 1) (code <<< 1) ((first + count) <<< 1)
        (index + count) reader

def decode (h : Huffman) (reader : BitReader) :
    Except InflateError (Nat × BitReader) :=
  decodeFrom h MAX_BITS 1 0 0 0 reader

def alignToByte (reader : BitReader) : BitReader :=
  { reader with
    bitBuf := 0
    bitCnt := 0
    pos := reader.pos -
      ((reader.bitCnt - (reader.bitCnt &&& 7)) >>> 3) }

def bytesConsumed (start : Nat) (reader : BitReader) : Nat :=
  reader.pos - (reader.bitCnt >>> 3) - start

def readByteRaw (reader : BitReader) :
    Except InflateError (UInt8 × BitReader) :=
  match reader.buf[reader.pos]? with
  | none => .error .unexpectedEnd
  | some byte => .ok (byte, { reader with pos := reader.pos + 1 })

end BitReader

/-- The copy loop of `copyBack`. -/
def copyLoop : (len src : Nat) → List UInt8 → List UInt8
  | 0, _, out => out
  | len + 1, src, out => copyLoop len (src + 1) (out ++ [out.getD src 0])

def copyBack (dist len : Nat) (out : List UInt8) :
    Except InflateError (List UInt8) :=
  if dist = 0 ∨ out.length < dist then .error .invalidDistance
  else .ok (copyLoop len (out.length - dist) out)

def FIXED_LIT : Except InflateError Huffman :=
  buildHuffman (List.replicate 144 8 ++ List.replicate (256 - 144) 9 ++
    List.replicate (280 - 256) 7 ++ List.replicate (288 - 280) 8)

def FIXED_DIST : Except InflateError Huffman :=
  buildHuffman (List.replicate 30 5)

def inflateBlockData (litHuff distHuff : Huffman) :
    Nat → BitReader → List UInt8 →
      Except InflateError (BitReader × List UInt8)
  | 0, _, _ => .error .unexpectedEnd
  | rounds + 1, reader, out => do
    let (sym, reader) ← reader.decode litHuff
    if sym < 256 then
      inflateBlockData litHuff distHuff rounds reader (out ++ [UInt8.ofNat sym])
    else if sym = 256 then
      return (reader, out)
    else
      let li := sym - 257
      if LENGTH_BASE.length ≤ li then throw .invalidLengthSymbol
      let (extra, reader) ← reader.bits (LENGTH_EXTRA.getD li 0)
      let len := LENGTH_BASE.getD li 0 + extra
      let (dsym, reader) ← reader.decode distHuff
      if DIST_BASE.length ≤ dsym then throw .invalidDistanceSymbol
      let (distExtra, reader) ← reader.bits (DIST_EXTRA.getD dsym 0)
      let dist := DIST_BASE.getD dsym 0 + distExtra
      let out ← copyBack dist len out
      inflateBlockData litHuff distHuff rounds reader out

/-- The loop that reads the lengths of the code length code. -/
def readCodeLengths : (order clenLengths : List Nat) → BitReader →
    Except InflateError (List Nat × BitReader)
  | [], clenLengths, reader => .ok (clenLengths, reader)
  | symbol :: order, clenLengths, reader => do
    let (length, reader) ← reader.bits 3
    readCodeLengths order (clenLengths.set symbol length) reader

/-- `while (repeat-- > 0 && i < total) lengths[i++] = value`. -/
def repeatLength (total count value : Nat) (lengths : List Nat) : List Nat :=
  lengths ++ List.replicate (min count (total - lengths.length)) value

/-- The loop over the literal and distance lengths.  Each round writes at least
one of `total`. -/
def readLengths (clenHuff : Huffman) (total : Nat) :
    (rounds : Nat) → (lengths : List Nat) → BitReader →
      Except InflateError (List Nat × BitReader)
  | 0, lengths, reader => .ok (lengths, reader)
  | rounds + 1, lengths, reader =>
    if lengths.length < total then do
      let (sym, reader) ← reader.decode clenHuff
      if sym < 16 then
        readLengths clenHuff total rounds (lengths ++ [sym]) reader
      else if sym = 16 then
        match lengths.getLast? with
        | none => throw .repeatWithoutPrevious
        | some prev =>
          let (extra, reader) ← reader.bits 2
          readLengths clenHuff total rounds
            (repeatLength total (extra + 3) prev lengths) reader
      else if sym = 17 then
        let (extra, reader) ← reader.bits 3
        readLengths clenHuff total rounds
          (repeatLength total (extra + 3) 0 lengths) reader
      else
        let (extra, reader) ← reader.bits 7
        readLengths clenHuff total rounds
          (repeatLength total (extra + 11) 0 lengths) reader
    else .ok (lengths, reader)

def inflateDynamicTables (reader : BitReader) :
    Except InflateError (Huffman × Huffman × BitReader) := do
  let (hlitBits, reader) ← reader.bits 5
  let hlit := hlitBits + 257
  let (hdistBits, reader) ← reader.bits 5
  let hdist := hdistBits + 1
  let (hclenBits, reader) ← reader.bits 4
  let hclen := hclenBits + 4
  if 286 < hlit ∨ 30 < hdist then throw .dynamicHeaderRange
  let (clenLengths, reader) ←
    readCodeLengths (CLEN_ORDER.take hclen) (List.replicate 19 0) reader
  let clenHuff ← buildHuffman clenLengths
  let total := hlit + hdist
  let (lengths, reader) ← readLengths clenHuff total total [] reader
  let litHuff ← buildHuffman (lengths.take hlit)
  let distHuff ← buildHuffman ((lengths.take total).drop hlit)
  return (litHuff, distHuff, reader)

/-- The copy loop of a stored block. -/
def readStored : Nat → BitReader → List UInt8 →
    Except InflateError (BitReader × List UInt8)
  | 0, reader, out => .ok (reader, out)
  | len + 1, reader, out => do
    let (byte, reader) ← reader.readByteRaw
    readStored len reader (out ++ [byte])

def inflateStored (reader : BitReader) (out : List UInt8) :
    Except InflateError (BitReader × List UInt8) := do
  let reader := reader.alignToByte
  let (len0, reader) ← reader.readByteRaw
  let (len1, reader) ← reader.readByteRaw
  let len := len0.toNat ||| (len1.toNat <<< 8)
  let (nlen0, reader) ← reader.readByteRaw
  let (nlen1, reader) ← reader.readByteRaw
  let nlen := nlen0.toNat ||| (nlen1.toNat <<< 8)
  if len ^^^ 0xffff ≠ nlen then throw .storedLengthCheck
  readStored len reader out

/-- The body of the block loop, for a block of the given type. -/
def inflateBlock (type : Nat) (reader : BitReader) (out : List UInt8) :
    Except InflateError (BitReader × List UInt8) :=
  match type with
  | 0 => inflateStored reader out
  | 1 => do
    let litHuff ← FIXED_LIT
    let distHuff ← FIXED_DIST
    inflateBlockData litHuff distHuff reader.unread reader out
  | 2 => do
    let (litHuff, distHuff, reader) ← inflateDynamicTables reader
    inflateBlockData litHuff distHuff reader.unread reader out
  | _ => .error .reservedBlockType

/-- The `do … while (final === 0)` loop of `inflateRawAt`. -/
def inflateBlocks : Nat → BitReader → List UInt8 →
    Except InflateError (BitReader × List UInt8)
  | 0, _, _ => .error .unexpectedEnd
  | rounds + 1, reader, out => do
    let (final, reader) ← reader.bits 1
    let (type, reader) ← reader.bits 2
    let (reader, out) ← inflateBlock type reader out
    if final = 0 then inflateBlocks rounds reader out
    else return (reader, out)

structure InflateResult where
  output : List UInt8
  bytesConsumed : Nat
  deriving DecidableEq

def inflateRawAt (buf : List UInt8) (offset : Nat) :
    Except InflateError InflateResult :=
  if buf.length < offset then .error .offsetRange
  else do
    let reader := BitReader.new buf offset
    let (reader, out) ← inflateBlocks reader.unread reader []
    return { output := out, bytesConsumed := reader.bytesConsumed offset }

def inflateZlibAt (buf : List UInt8) (offset : Nat) :
    Except InflateError InflateResult :=
  match buf[offset]?, buf[offset + 1]? with
  | some cmf, some flg => do
    if cmf.toNat &&& 0x0f ≠ 8 then throw .compressionMethod
    if ((cmf.toNat <<< 8) ||| flg.toNat) % 31 ≠ 0 then throw .headerChecksum
    let deflateStart ←
      if flg.toNat &&& 0x20 = 0 then pure (offset + 2)
      else if buf.length < offset + 2 + 4 then throw .truncatedDictionary
      else pure (offset + 2 + 4)
    let raw ← inflateRawAt buf deflateStart
    let headerLen := deflateStart - offset
    let consumed := headerLen + raw.bytesConsumed + 4
    if buf.length < offset + consumed then throw .truncatedAdler
    return { output := raw.output, bytesConsumed := consumed }
  | _, _ => .error .zlibHeaderRange

end Takos.Packs
