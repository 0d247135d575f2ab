import Takos.Foundation.OrderedMap
import Takos.Packs.InflateRaw
import Takos.Packs.PackObjects

/-!
# The pack reader

The first pass parses every entry of a pack, the second one resolves deltas in
file order.  Numbers that the source computes as doubles and that a hostile pack
can push out of range are optional here: `none` is a value that is not finite.
-/

namespace Takos.Packs

open Takos.Foundation Takos.Git

inductive PackError where
  | truncatedObjectHeader
  | truncatedOffset
  | truncatedSizeVarint
  | sourceSizeMismatch
  | targetSizeRange
  | truncatedCopy
  | copyOutOfBounds
  | copyOverflows
  | truncatedInsert
  | insertOverflows
  | reservedOpcode
  | targetSizeMismatch
  | shortPack
  | badMagic
  | unsupportedVersion (version : Nat)
  | baseOffsetRange
  | truncatedBaseId
  | unknownObjectType (typeNum : Nat)
  | inflatedSize (actual : Nat) (header : Option Nat)
  | truncatedTrailer
  | noResolver (sha : Text)
  | unresolvedBase (sha : Text)
  | externalMismatch (sha : Text)
  | deltaCycle
  | baseOffsetNotFound
  | noEntry
  | inflate (error : InflateError)
  deriving DecidableEq

/-- The texts of the thrown errors; those of the engine itself for
`targetSizeRange` and `noEntry`. -/
def PackError.message : PackError → String
  | .truncatedObjectHeader => "pack: truncated object header"
  | .truncatedOffset => "pack: truncated ofs-delta offset"
  | .truncatedSizeVarint => "delta: truncated size varint"
  | .sourceSizeMismatch => "delta: source size mismatch"
  | .targetSizeRange => "Invalid typed array length"
  | .truncatedCopy => "delta: truncated copy op"
  | .copyOutOfBounds => "delta: copy out of base bounds"
  | .copyOverflows => "delta: copy overflows target"
  | .truncatedInsert => "delta: truncated insert op"
  | .insertOverflows => "delta: insert overflows target"
  | .reservedOpcode => "delta: opcode 0x00 is reserved"
  | .targetSizeMismatch => "delta: reconstructed size mismatch"
  | .shortPack => "pack: shorter than 12-byte header"
  | .badMagic => "pack: bad magic (expected 'PACK')"
  | .unsupportedVersion version =>
    "pack: unsupported version " ++ toString version ++ " (expected 2)"
  | .baseOffsetRange => "pack: ofs-delta base offset out of range"
  | .truncatedBaseId => "pack: truncated ref-delta base id"
  | .unknownObjectType typeNum =>
    "pack: unknown object type " ++ toString typeNum
  | .inflatedSize actual header =>
    "pack: inflated size " ++ toString actual ++ " != header size " ++
      header.elim "NaN" toString
  | .truncatedTrailer => "pack: truncated trailer"
  | .noResolver sha =>
    "pack: ref-delta base " ++ String.ofList sha ++ " not in pack (no resolver)"
  | .unresolvedBase sha =>
    "pack: ref-delta base " ++ String.ofList sha ++ " could not be resolved"
  | .externalMismatch sha =>
    "pack: external base content does not match sha " ++ String.ofList sha
  | .deltaCycle => "pack: delta base cycle detected"
  | .baseOffsetNotFound => "pack: ofs-delta base offset not found"
  | .noEntry => "Cannot read properties of undefined"
  | .inflate error => error.message

/-- `value + digit * 2 ** shift`. -/
def addScaled (value : Option Nat) (digit shift : Nat) : Option Nat :=
  if shift < 1024 then value.map (· + digit * 2 ^ shift) else none

/-- The `while (byte & 0x80)` loop of `readObjectHeader`; the list holds the
bytes from `offset` on. -/
def readSizeTail (byte : UInt8) (size : Option Nat) (shift offset : Nat) :
    List UInt8 → Except PackError (Option Nat × Nat)
  | [] =>
    if byte.toNat &&& 0x80 = 0 then .ok (size, offset)
    else .error .truncatedObjectHeader
  | next :: rest =>
    if byte.toNat &&& 0x80 = 0 then .ok (size, offset)
    else
      readSizeTail next (addScaled size (next.toNat &&& 0x7f) shift) (shift + 7)
        (offset + 1) rest

structure ObjectHeader where
  typeNum : Nat
  size : Option Nat
  next : Nat

def readObjectHeader (pack : List UInt8) (offset : Nat) :
    Except PackError ObjectHeader :=
  match pack.drop offset with
  | [] => .error .truncatedObjectHeader
  | byte :: rest => do
    let (size, next) ←
      readSizeTail byte (some (byte.toNat &&& 0x0f)) 4 (offset + 1) rest
    return ⟨(byte.toNat >>> 4) &&& 0x07, size, next⟩

/-- The loop of `readOffsetVarint`, which reads `byte` already. -/
def readOffsetTail (byte : UInt8) (value offset : Nat) :
    List UInt8 → Except PackError (Nat × Nat)
  | [] =>
    if byte.toNat &&& 0x80 = 0 then .ok (value, offset)
    else .error .truncatedOffset
  | next :: rest =>
    if byte.toNat &&& 0x80 = 0 then .ok (value, offset)
    else
      readOffsetTail next ((value + 1) * 128 + (next.toNat &&& 0x7f))
        (offset + 1) rest

def readOffsetVarint (pack : List UInt8) (offset : Nat) :
    Except PackError (Nat × Nat) :=
  match pack.drop offset with
  | [] => .error .truncatedOffset
  | byte :: rest => readOffsetTail byte (byte.toNat &&& 0x7f) (offset + 1) rest

/-- The loop of `readDeltaSize` over the bytes from `offset` on. -/
def readDeltaSizeFrom (value : Option Nat) (shift offset : Nat) :
    List UInt8 → Except PackError (Option Nat × Nat)
  | [] => .error .truncatedSizeVarint
  | byte :: rest =>
    let value := addScaled value (byte.toNat &&& 0x7f) shift
    if byte.toNat &&& 0x80 = 0 then .ok (value, offset + 1)
    else readDeltaSizeFrom value (shift + 7) (offset + 1) rest

def readDeltaSize (delta : List UInt8) (offset : Nat) :
    Except PackError (Option Nat × Nat) :=
  readDeltaSizeFrom (some 0) 0 offset (delta.drop offset)

/-- One flagged byte of a copy operation: the value so far and the position. -/
def copyField (delta : List UInt8) (op : Nat) (field : Nat × Nat)
    (flag shift : Nat) : Nat × Nat :=
  if op &&& flag = 0 then field
  else (field.1 + (delta.getD field.2 0).toNat <<< shift, field.2 + 1)

/-- The loop of `applyDelta`.  Every round reads at least one byte of the delta,
and `out` holds the first `outPos` bytes of the target. -/
def applyOps (base delta : List UInt8) (targetSize : Nat) :
    (rounds p : Nat) → List UInt8 → Except PackError (List UInt8)
  | 0, _, out => .ok out
  | rounds + 1, p, out =>
    match delta[p]? with
    | none => .ok out
    | some opByte =>
      let op := opByte.toNat
      if op &&& 0x80 ≠ 0 then
        let offset₁ := copyField delta op (0, p + 1) 0x01 0
        let offset₂ := copyField delta op offset₁ 0x02 8
        let offset₃ := copyField delta op offset₂ 0x04 16
        let (copyOffset, p) := copyField delta op offset₃ 0x08 24
        let size₁ := copyField delta op (0, p) 0x10 0
        let size₂ := copyField delta op size₁ 0x20 8
        let (readSize, p) := copyField delta op size₂ 0x40 16
        let copySize := if readSize = 0 then 0x10000 else readSize
        if delta.length < p then .error .truncatedCopy
        else if base.length < copyOffset + copySize then
          .error .copyOutOfBounds
        else if targetSize < out.length + copySize then .error .copyOverflows
        else
          applyOps base delta targetSize rounds p
            (out ++ (base.drop copyOffset).take copySize)
      else if op ≠ 0 then
        let p := p + 1
        if delta.length < p + op then .error .truncatedInsert
        else if targetSize < out.length + op then .error .insertOverflows
        else
          applyOps base delta targetSize rounds (p + op)
            (out ++ (delta.drop p).take op)
      else .error .reservedOpcode

def applyDelta (base delta : List UInt8) : Except PackError (List UInt8) := do
  let (sourceSize, next) ← readDeltaSize delta 0
  if sourceSize ≠ some base.length then throw .sourceSizeMismatch
  let (target, p) ← readDeltaSize delta next
  match target with
  | none => throw .targetSizeRange
  | some targetSize =>
    let out ← applyOps base delta targetSize delta.length p []
    if out.length ≠ targetSize then throw .targetSizeMismatch
    return out

def validateHeader (pack : List UInt8) : Except PackError Nat :=
  if pack.length < 12 then .error .shortPack
  else if pack.take 4 ≠ [0x50, 0x41, 0x43, 0x4b] then .error .badMagic
  else
    let version := ofBigEndian ((pack.drop 4).take 4)
    if version ≠ 2 then .error (.unsupportedVersion version)
    else .ok (ofBigEndian ((pack.drop 8).take 4))

structure PackEntry where
  start : Nat
  typeNum : Nat
  payload : List UInt8
  baseOffset : Int
  baseSha : Text

/-- The delta base between the header and the stream of an entry, with the
position after it. -/
def readBaseReference (pack : List UInt8) (start typeNum cursor : Nat) :
    Except PackError (Int × Text × Nat) :=
  if typeNum = OBJ_OFS_DELTA then do
    let (value, next) ← readOffsetVarint pack cursor
    let baseOffset := (start : Int) - value
    if baseOffset < 12 ∨ (start : Int) ≤ baseOffset then throw .baseOffsetRange
    return (baseOffset, [], next)
  else if typeNum = OBJ_REF_DELTA then
    if pack.length < cursor + 20 then .error .truncatedBaseId
    else .ok (-1, bytesToHex ((pack.drop cursor).take 20), cursor + 20)
  else if baseTypeByNumber typeNum = none then
    .error (.unknownObjectType typeNum)
  else .ok (-1, [], cursor)

/-- One round of the parsing loop: the entry and the cursor after it. -/
def parseEntry (pack : List UInt8) (start : Nat) :
    Except PackError (PackEntry × Nat) := do
  let header ← readObjectHeader pack start
  let (baseOffset, baseSha, cursor) ←
    readBaseReference pack start header.typeNum header.next
  let inflated ← (inflateZlibAt pack cursor).mapError .inflate
  if some inflated.output.length ≠ header.size then
    throw (.inflatedSize inflated.output.length header.size)
  return (⟨start, header.typeNum, inflated.output, baseOffset, baseSha⟩,
    cursor + inflated.bytesConsumed)

structure ParsedPack where
  entries : List PackEntry
  byOffset : OrderedMap Int Nat
  cursor : Nat

def parseEntries (pack : List UInt8) :
    Nat → ParsedPack → Except PackError ParsedPack
  | 0, parsed => .ok parsed
  | count + 1, parsed => do
    let (entry, cursor) ← parseEntry pack parsed.cursor
    parseEntries pack count
      { entries := parsed.entries ++ [entry]
        byOffset := parsed.byOffset.set parsed.cursor parsed.entries.length
        cursor }

structure ResolvedObject where
  type : GitObjectType
  content : List UInt8
  deriving DecidableEq

structure UnpackedObject where
  type : GitObjectType
  content : List UInt8
  sha : Text
  deriving DecidableEq

structure ResolveState where
  resolved : List (Option ResolvedObject)
  resolving : List Bool
  shaToIndex : OrderedMap Text Nat
  externalCache : OrderedMap Text ResolvedObject

/-- `if (!shaToIndex.has(sha)) shaToIndex.set(sha, index)`. -/
def addSha (shaToIndex : OrderedMap Text Nat) (sha : Text) (index : Nat) :
    OrderedMap Text Nat :=
  match shaToIndex.get? sha with
  | some _ => shaToIndex
  | none => shaToIndex.set sha index

section

variable (digest : List UInt8 → List UInt8)
variable (resolveExternalBase : Option (Text → Option (List UInt8)))

def typeOfExternalBase (content : List UInt8) (sha : Text) :
    Except PackError GitObjectType :=
  match ALL_TYPES.find? fun type => hashObject digest type content = sha with
  | some type => .ok type
  | none => .error (.externalMismatch sha)

/-- The loop that indexes the entries that are not deltas, from entry `i` on. -/
def indexBases (shaToIndex : OrderedMap Text Nat) (i : Nat) :
    List PackEntry → OrderedMap Text Nat
  | [] => shaToIndex
  | e :: entries =>
    match baseTypeByNumber e.typeNum with
    | some baseType =>
      indexBases (addSha shaToIndex (hashObject digest baseType e.payload) i)
        (i + 1) entries
    | none => indexBases shaToIndex (i + 1) entries

def resolveExternal (sha : Text) (state : ResolveState) :
    Except PackError (ResolvedObject × ResolveState) :=
  match state.externalCache.get? sha with
  | some cached => .ok (cached, state)
  | none =>
    match resolveExternalBase with
    | none => .error (.noResolver sha)
    | some fetchBase =>
      match fetchBase sha with
      | none => .error (.unresolvedBase sha)
      | some content => do
        let type ← typeOfExternalBase digest content sha
        let obj : ResolvedObject := ⟨type, content⟩
        return (obj,
          { state with externalCache := state.externalCache.set sha obj })

/-- The base of delta `e`, where `resolve` is the recursive call. -/
def resolveBase (byOffset : OrderedMap Int Nat)
    (resolve : Nat → ResolveState →
      Except PackError (ResolvedObject × ResolveState))
    (index : Nat) (e : PackEntry) (state : ResolveState) :
    Except PackError (ResolvedObject × ResolveState) :=
  if e.typeNum = OBJ_OFS_DELTA then
    match byOffset.get? e.baseOffset with
    | none => .error .baseOffsetNotFound
    | some baseIndex => resolve baseIndex state
  else
    match state.shaToIndex.get? e.baseSha with
    | some baseIndex =>
      if baseIndex ≠ index then resolve baseIndex state
      else resolveExternal digest resolveExternalBase e.baseSha state
    | none => resolveExternal digest resolveExternalBase e.baseSha state

/-- The end of `resolveEntry`, from `resolving[index] = 0` on. -/
def recordResult (index : Nat) (result : ResolvedObject)
    (state : ResolveState) : ResolveState :=
  { state with
    resolving := state.resolving.set index false
    resolved := state.resolved.set index (some result)
    shaToIndex :=
      addSha state.shaToIndex (hashObject digest result.type result.content)
        index }

/-- Each nested call marks one more entry, so when all calls are used up every
entry is marked and the cycle guard fires. -/
def resolveEntry (entries : List PackEntry) (byOffset : OrderedMap Int Nat) :
    Nat → Nat → ResolveState →
      Except PackError (ResolvedObject × ResolveState)
  | 0, _, _ => .error .deltaCycle
  | calls + 1, index, state =>
    match state.resolved.getD index none with
    | some existing => .ok (existing, state)
    | none =>
      if state.resolving.getD index false then .error .deltaCycle
      else
        match entries[index]? with
        | none => .error .noEntry
        | some e => do
          let state :=
            { state with resolving := state.resolving.set index true }
          match baseTypeByNumber e.typeNum with
          | some baseType =>
            let result : ResolvedObject := ⟨baseType, e.payload⟩
            return (result, recordResult digest index result state)
          | none =>
            let (base, state) ← resolveBase digest resolveExternalBase byOffset
              (resolveEntry entries byOffset calls) index e state
            let content ← applyDelta base.content e.payload
            let result : ResolvedObject := ⟨base.type, content⟩
            return (result, recordResult digest index result state)

/-- The last loop of `readPack`, from entry `i` on. -/
def resolveAll (entries : List PackEntry) (byOffset : OrderedMap Int Nat) :
    (remaining i : Nat) → ResolveState →
      Except PackError (List UnpackedObject)
  | 0, _, _ => .ok []
  | remaining + 1, i, state => do
    let (obj, state) ← resolveEntry digest resolveExternalBase entries byOffset
      entries.length i state
    let objects ← resolveAll entries byOffset remaining (i + 1) state
    return ⟨obj.type, obj.content, hashObject digest obj.type obj.content⟩ ::
      objects

def readPack (pack : List UInt8) : Except PackError (List UnpackedObject) := do
  let count ← validateHeader pack
  let parsed ← parseEntries pack count ⟨[], .empty, 12⟩
  if pack.length < parsed.cursor + 20 then throw .truncatedTrailer
  let entries := parsed.entries
  let state : ResolveState :=
    { resolved := List.replicate entries.length none
      resolving := List.replicate entries.length false
      shaToIndex := indexBases digest .empty 0 entries
      externalCache := .empty }
  resolveAll digest resolveExternalBase entries parsed.byOffset entries.length 0
    state

end

end Takos.Packs
