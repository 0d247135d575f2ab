import Takos.Foundation.Bits
import Takos.Packs.InflateStreams
import Takos.Packs.PackReader

/-!
# The pack format

What a sequence of bytes has to be to hold given entries, independently of any
reader, and the first pass of the reader: it finds exactly these entries.
-/

namespace Takos.Packs

open Takos.Foundation Takos.Foundation.Deflate Takos.Git

/-- The header of an entry with its type number and its size. -/
inductive EntryHeader : List UInt8 → Nat → Nat → Prop where
  | short {byte : UInt8} (final : byte.toNat < 128) :
      EntryHeader [byte] (byte.toNat / 16) (byte.toNat % 16)
  | long {byte : UInt8} {bytes : List UInt8} {value : Nat}
      (continued : 128 ≤ byte.toNat) (rest : LittleVarint bytes value) :
      EntryHeader (byte :: bytes) (byte.toNat / 16 - 8)
        (byte.toNat % 16 + 16 * value)

/-- A whole object, or a delta against the entry at an offset of the pack or
against the object with an id. -/
inductive PackedBase where
  | whole (type : GitObjectType)
  | offset (position : Nat)
  | object (id : List UInt8)

def PackedBase.number : PackedBase → Nat
  | .whole type => gitTypeToNumber type
  | .offset _ => OBJ_OFS_DELTA
  | .object _ => OBJ_REF_DELTA

structure PackedEntry where
  start : Nat
  base : PackedBase
  payload : List UInt8

/-- How an entry that begins at `start` names its base. -/
inductive BaseReference (start : Nat) : PackedBase → List UInt8 → Prop where
  | whole (type : GitObjectType) : BaseReference start (.whole type) []
  | offset {position distance : Nat} {bytes : List UInt8}
      (varint : OffsetVarint 0 bytes distance) (back : 0 < distance)
      (target : position + distance = start) (inside : 12 ≤ position) :
      BaseReference start (.offset position) bytes
  | object {id : List UInt8} (length : id.length = 20) :
      BaseReference start (.object id) id

/-- A header holds a number of at most 64 bits and so has at most ten bytes. -/
structure EntryBytes (entry : PackedEntry) (bytes : List UInt8) : Prop where
  parts : ∃ header reference stream : List UInt8,
    bytes = header ++ (reference ++ stream) ∧ header.length ≤ 10 ∧
    EntryHeader header entry.base.number entry.payload.length ∧
    BaseReference entry.start entry.base reference ∧
    ZlibStream stream entry.payload

/-- Entries one after the other, the first one at `start`. -/
inductive EntriesBytes : Nat → List PackedEntry → List UInt8 → Prop where
  | nil {start : Nat} : EntriesBytes start [] []
  | cons {entry : PackedEntry} {entries : List PackedEntry}
      {bytes others : List UInt8} (first : EntryBytes entry bytes)
      (rest : EntriesBytes (entry.start + bytes.length) entries others) :
      EntriesBytes entry.start (entry :: entries) (bytes ++ others)

structure PackFormat (pack : List UInt8) (entries : List PackedEntry) :
    Prop where
  parts : ∃ body trailer : List UInt8,
    pack = [0x50, 0x41, 0x43, 0x4b] ++ (bigEndian 4 2 ++
      (bigEndian 4 entries.length ++ (body ++ trailer))) ∧
    entries.length < 2 ^ 32 ∧ EntriesBytes 12 entries body ∧
    trailer.length = 20

theorem addScaled_some (value digit : Nat) {shift : Nat} (small : shift < 1024) :
    addScaled (some value) digit shift = some (value + digit * 2 ^ shift) := by
  rw [addScaled, if_pos small, Option.map_some]

variable {byte : UInt8} {bytes : List UInt8} {pack tail : List UInt8}
  {entries : List PackedEntry}

theorem readSizeTail_final (final : byte.toNat < 128) (size : Option Nat)
    (shift offset : Nat) (tail : List UInt8) :
    readSizeTail byte size shift offset tail = .ok (size, offset) := by
  have clear := (high_bit_eq_zero_iff byte).mpr final
  cases tail with
  | nil | cons => rw [readSizeTail, if_pos clear]

theorem readSizeTail_spec {value : Nat} (varint : LittleVarint bytes value)
    (continued : 128 ≤ byte.toNat) (size shift offset : Nat)
    (tail : List UInt8) (short : shift + 7 * bytes.length ≤ 1024) :
    readSizeTail byte (some size) shift offset (bytes ++ tail) =
      .ok (some (size + value * 2 ^ shift), offset + bytes.length) := by
  induction varint generalizing byte size shift offset with
  | @last next final =>
      have set : ¬ byte.toNat &&& 0x80 = 0 := by
        rw [high_bit_eq_zero_iff]
        omega
      rw [List.length_singleton] at short ⊢
      rw [List.singleton_append, readSizeTail, if_neg set, low_bits,
        Nat.mod_eq_of_lt final, addScaled_some _ _ (by omega),
        readSizeTail_final final]
  | @more next bytes value again varint ih =>
      have set : ¬ byte.toNat &&& 0x80 = 0 := by
        rw [high_bit_eq_zero_iff]
        omega
      have digit : next.toNat % 128 = next.toNat - 128 := by
        have := next.toNat_lt
        omega
      rw [List.length_cons] at short
      rw [List.cons_append, readSizeTail, if_neg set, low_bits, digit,
        addScaled_some _ _ (by omega), ih again _ _ _ (by omega),
        List.length_cons]
      congr 2
      · congr 1
        ring
      · omega

theorem typeBits (byte : UInt8) :
    (byte.toNat >>> 4) &&& 0x07 = byte.toNat / 16 % 8 := by
  rw [Nat.shiftRight_eq_div_pow]
  exact Nat.and_two_pow_sub_one_eq_mod _ 3

theorem readObjectHeader_spec {type size : Nat}
    (header : EntryHeader bytes type size) (short : bytes.length ≤ 10)
    {offset : Nat} (found : pack.drop offset = bytes ++ tail) :
    readObjectHeader pack offset =
      .ok ⟨type, some size, offset + bytes.length⟩ := by
  cases header with
  | @short byte final =>
      have number : byte.toNat / 16 % 8 = byte.toNat / 16 := by omega
      rw [List.singleton_append] at found
      simp only [readObjectHeader, found, readSizeTail_final final, bind,
        Except.bind, pure, Except.pure, typeBits, number, and_fifteen,
        List.length_singleton]
  | @long byte bytes value continued varint =>
      have number : byte.toNat / 16 % 8 = byte.toNat / 16 - 8 := by
        have := byte.toNat_lt
        omega
      rw [List.length_cons] at short
      rw [List.cons_append] at found
      have tailRead := readSizeTail_spec varint continued (byte.toNat % 16) 4
        (offset + 1) tail (by omega)
      have sizeEq : byte.toNat % 16 + value * 2 ^ 4 =
          byte.toNat % 16 + 16 * value := by omega
      have nextEq : offset + 1 + bytes.length =
          offset + (byte :: bytes).length := by
        rw [List.length_cons]
        omega
      rw [sizeEq, nextEq] at tailRead
      simp only [readObjectHeader, found, and_fifteen, tailRead, bind,
        Except.bind, pure, Except.pure, typeBits, number]

theorem EntryHeader.length_pos {type size : Nat}
    (header : EntryHeader bytes type size) : 0 < bytes.length := by
  cases header with
  | short final => exact Nat.one_pos
  | long continued varint => exact Nat.succ_pos _

theorem readOffsetTail_final (final : byte.toNat < 128) (value offset : Nat)
    (tail : List UInt8) :
    readOffsetTail byte value offset tail = .ok (value, offset) := by
  have clear := (high_bit_eq_zero_iff byte).mpr final
  cases tail with
  | nil | cons => rw [readOffsetTail, if_pos clear]

theorem readOffsetTail_spec {seen value : Nat}
    (varint : OffsetVarint seen bytes value) {others : List UInt8}
    (split : bytes = byte :: others) (offset : Nat) (tail : List UInt8) :
    readOffsetTail byte (seen * 128 + byte.toNat % 128) offset
      (others ++ tail) = .ok (value, offset + others.length) := by
  induction varint generalizing byte others offset with
  | @last seen first final =>
      obtain ⟨rfl, rfl⟩ := List.cons.inj split
      rw [readOffsetTail_final final, Nat.mod_eq_of_lt final]
      rfl
  | @more seen first bytes value continued varint ih =>
      obtain ⟨rfl, rfl⟩ := List.cons.inj split
      have set : ¬ first.toNat &&& 0x80 = 0 := by
        rw [high_bit_eq_zero_iff]
        omega
      have digit : first.toNat % 128 = first.toNat - 128 := by
        have := first.toNat_lt
        omega
      cases bytes with
      | nil => cases varint
      | cons next others =>
          have rest := ih rfl (offset + 1)
          rw [List.cons_append, readOffsetTail, if_neg set, low_bits, digit,
            rest, List.length_cons]
          congr 2
          omega

theorem readOffsetVarint_spec {value offset : Nat}
    (varint : OffsetVarint 0 bytes value)
    (found : pack.drop offset = bytes ++ tail) :
    readOffsetVarint pack offset = .ok (value, offset + bytes.length) := by
  cases bytes with
  | nil => cases varint
  | cons byte others =>
      have rest := readOffsetTail_spec varint rfl (offset + 1) tail
      rw [Nat.zero_mul, Nat.zero_add, Nat.add_assoc, Nat.add_comm 1] at rest
      rw [List.cons_append] at found
      rw [readOffsetVarint, found]
      simp only [low_bits, rest, List.length_cons]

/-- An entry as the first pass records it. -/
def PackedEntry.parsed (entry : PackedEntry) : PackEntry where
  start := entry.start
  typeNum := entry.base.number
  payload := entry.payload
  baseOffset :=
    match entry.base with
    | .offset position => position
    | _ => -1
  baseSha :=
    match entry.base with
    | .object id => bytesToHex id
    | _ => []

theorem readBaseReference_spec {entry : PackedEntry}
    (reference : BaseReference entry.start entry.base bytes) {cursor : Nat}
    (found : pack.drop cursor = bytes ++ tail) :
    readBaseReference pack entry.start entry.base.number cursor =
      .ok (entry.parsed.baseOffset, entry.parsed.baseSha,
        cursor + bytes.length) := by
  obtain ⟨start, base, payload⟩ := entry
  cases reference with
  | whole type =>
      obtain ⟨notOffset, notObject⟩ := gitTypeToNumber_ne_delta type
      simp only [PackedBase.number, readBaseReference, if_neg notOffset,
        if_neg notObject, baseTypeByNumber_gitTypeToNumber, reduceCtorEq,
        if_false]
      rfl
  | @offset position distance bytes varint back target inside =>
      have read := readOffsetVarint_spec varint found
      have base : (start : Int) - (distance : Int) = (position : Int) := by
        simp only at target
        omega
      have legal : ¬((position : Int) < 12 ∨ (start : Int) ≤ position) := by
        simp only at target
        omega
      simp only [PackedBase.number, readBaseReference, if_true, read, bind,
        Except.bind, base, if_neg legal]
      rfl
  | object length =>
      have room : ¬ pack.length < cursor + 20 := by
        have size := congrArg List.length found
        rw [List.length_drop, List.length_append, length] at size
        omega
      have front : (pack.drop cursor).take 20 = bytes := by
        rw [found, ← length, List.take_left]
      have notOffset : OBJ_REF_DELTA ≠ OBJ_OFS_DELTA := by decide
      simp only [PackedBase.number, readBaseReference, if_neg notOffset,
        if_true, if_neg room, front, length]
      rfl

theorem parseEntry_spec {entry : PackedEntry}
    (encoded : EntryBytes entry bytes)
    (found : pack.drop entry.start = bytes ++ tail) :
    parseEntry pack entry.start =
      .ok (entry.parsed, entry.start + bytes.length) := by
  obtain ⟨header, reference, stream, rfl, short, headerBytes, base, zlib⟩ :=
    encoded.parts
  rw [List.append_assoc, List.append_assoc] at found
  have headerRead := readObjectHeader_spec headerBytes short found
  have afterHeader : pack.drop (entry.start + header.length) =
      reference ++ (stream ++ tail) := by
    rw [← List.drop_drop, found, List.drop_left]
  have referenceRead := readBaseReference_spec base afterHeader
  have afterReference : pack.drop
      (entry.start + header.length + reference.length) = stream ++ tail := by
    rw [← List.drop_drop, afterHeader, List.drop_left]
  have inflated := inflateZlibAt_spec afterReference zlib
  have total : entry.start + (header ++ (reference ++ stream)).length =
      entry.start + header.length + reference.length + stream.length := by
    rw [List.length_append, List.length_append]
    omega
  simp only [parseEntry, headerRead, referenceRead, inflated, bind, Except.bind,
    Except.mapError, ne_eq, not_true_eq_false, if_false, pure, Except.pure,
    total]
  rfl

/-- Offsets and the entries that begin there. -/
structure OffsetsOf (entries : List PackedEntry) (byOffset : OrderedMap Int Nat) :
    Prop where
  sound : ∀ position index, byOffset.get? position = some index →
    ∃ entry, entries[index]? = some entry ∧ (entry.start : Int) = position
  complete : ∀ index entry, entries[index]? = some entry →
    byOffset.get? entry.start = some index

theorem OffsetsOf.append {byOffset : OrderedMap Int Nat}
    (offsets : OffsetsOf entries byOffset) (entry : PackedEntry)
    (fresh : ∀ other ∈ entries, other.start < entry.start) :
    OffsetsOf (entries ++ [entry])
      (byOffset.set entry.start entries.length) where
  sound position index found := by
    rw [OrderedMap.get?_set] at found
    split at found
    · next same =>
      obtain rfl := Option.some.inj found
      refine ⟨entry, ?_, by omega⟩
      rw [List.getElem?_append_right (Nat.le_refl _), Nat.sub_self]
      rfl
    · obtain ⟨other, inside, start⟩ := offsets.sound position index found
      refine ⟨other, ?_, start⟩
      rw [List.getElem?_append_left (List.getElem?_eq_some_iff.mp inside).1]
      exact inside
  complete index other inside := by
    rw [OrderedMap.get?_set]
    rcases Nat.lt_or_ge index entries.length with earlier | latest
    · rw [List.getElem?_append_left earlier] at inside
      have before := fresh other (List.mem_of_getElem? inside)
      rw [if_neg (by omega)]
      exact offsets.complete index other inside
    · rw [List.getElem?_append_right latest] at inside
      obtain ⟨bound, otherEq⟩ := List.getElem?_eq_some_iff.mp inside
      rw [List.length_singleton] at bound
      have zero : index - entries.length = 0 := by omega
      simp only [zero, List.getElem_singleton] at otherEq
      rw [← otherEq, if_pos rfl]
      congr 1
      omega

theorem parseEntries_spec {start : Nat} {rest : List PackedEntry}
    (encoded : EntriesBytes start rest bytes)
    (found : pack.drop start = bytes ++ tail) {done : List PackedEntry}
    {byOffset : OrderedMap Int Nat} (offsets : OffsetsOf done byOffset)
    (before : ∀ entry ∈ done, entry.start < start) :
    ∃ byOffset',
      parseEntries pack rest.length ⟨done.map PackedEntry.parsed, byOffset,
          start⟩ =
        .ok ⟨(done ++ rest).map PackedEntry.parsed, byOffset',
          start + bytes.length⟩ ∧
      OffsetsOf (done ++ rest) byOffset' := by
  induction encoded generalizing done byOffset with
  | nil =>
      rw [List.append_nil]
      exact ⟨byOffset, rfl, offsets⟩
  | @cons entry entries bytes others first rest ih =>
      rw [List.append_assoc] at found
      have parsed := parseEntry_spec first found
      have afterwards : pack.drop (entry.start + bytes.length) =
          others ++ tail := by
        rw [← List.drop_drop, found, List.drop_left]
      have nonempty : 0 < bytes.length := by
        obtain ⟨header, reference, stream, rfl, _, headerBytes, _⟩ :=
          first.parts
        have := headerBytes.length_pos
        rw [List.length_append]
        omega
      have later : ∀ other ∈ done ++ [entry],
          other.start < entry.start + bytes.length := by
        intro other member
        rcases List.mem_append.mp member with earlier | latest
        · have := before other earlier
          omega
        · rw [List.mem_singleton.mp latest]
          omega
      obtain ⟨final, ran, offsets⟩ :=
        ih afterwards (offsets.append entry before) later
      refine ⟨final, ?_, ?_⟩
      · simp only [List.length_cons, parseEntries, parsed, bind, Except.bind]
        rw [List.map_append, List.map_singleton] at ran
        rw [List.length_map, ran, List.append_assoc, List.singleton_append,
          List.length_append, Nat.add_assoc]
      · rw [List.append_assoc, List.singleton_append] at offsets
        exact offsets

theorem firstPass_spec (format : PackFormat pack entries) :
    ∃ byOffset cursor,
      validateHeader pack = .ok entries.length ∧
      parseEntries pack entries.length ⟨[], .empty, 12⟩ =
        .ok ⟨entries.map PackedEntry.parsed, byOffset, cursor⟩ ∧
      cursor + 20 ≤ pack.length ∧ OffsetsOf entries byOffset := by
  obtain ⟨body, trailer, rfl, count, encoded, size⟩ := format.parts
  have dropped : ([0x50, 0x41, 0x43, 0x4b] ++ (bigEndian 4 2 ++
      (bigEndian 4 entries.length ++ (body ++ trailer)))).drop 12 =
        body ++ trailer := rfl
  have none : OffsetsOf [] OrderedMap.empty :=
    { sound := fun position index found => by simp at found
      complete := fun index entry found => by simp at found }
  obtain ⟨byOffset, parsed, offsets⟩ :=
    parseEntries_spec encoded dropped none (by simp)
  refine ⟨byOffset, _, ?_, parsed, ?_, offsets⟩
  · have long : ¬ ([0x50, 0x41, 0x43, 0x4b] ++ (bigEndian 4 2 ++
        (bigEndian 4 entries.length ++ (body ++ trailer)))).length < 12 := by
      simp only [List.length_append, length_bigEndian, List.length_cons]
      omega
    have version : ofBigEndian (bigEndian 4 2) = 2 :=
      ofBigEndian_bigEndian (by decide)
    have counted : ofBigEndian (bigEndian 4 entries.length) =
        entries.length := ofBigEndian_bigEndian count
    rw [validateHeader, if_neg long, if_neg (by simp)]
    show (if ofBigEndian (bigEndian 4 2) ≠ 2 then _ else
      Except.ok (ofBigEndian (bigEndian 4 entries.length))) = _
    rw [version, if_neg (by simp), counted]
  · simp only [List.length_append, length_bigEndian, List.length_cons,
      List.length_nil, size]
    omega

def startState (digest : List UInt8 → List UInt8) (entries : List PackEntry) :
    ResolveState where
  resolved := List.replicate entries.length none
  resolving := List.replicate entries.length false
  shaToIndex := indexBases digest .empty 0 entries
  externalCache := .empty

theorem readPack_of_format (digest : List UInt8 → List UInt8)
    (resolveExternalBase : Option (Text → Option (List UInt8)))
    (format : PackFormat pack entries) :
    ∃ byOffset, OffsetsOf entries byOffset ∧
      readPack digest resolveExternalBase pack =
        resolveAll digest resolveExternalBase
          (entries.map PackedEntry.parsed) byOffset entries.length 0
          (startState digest (entries.map PackedEntry.parsed)) := by
  obtain ⟨byOffset, cursor, header, parsed, trailer, offsets⟩ :=
    firstPass_spec format
  refine ⟨byOffset, offsets, ?_⟩
  simp only [readPack, header, parsed, bind, Except.bind,
    if_neg (Nat.not_lt.mpr trailer), List.length_map, startState]

theorem resolveEntry_whole (digest : List UInt8 → List UInt8)
    {entries : List PackEntry}
    {resolveExternalBase : Option (Text → Option (List UInt8))}
    {byOffset : OrderedMap Int Nat} {index : Nat} {e : PackEntry}
    {type : GitObjectType} {state : ResolveState} (calls : Nat)
    (found : entries[index]? = some e)
    (whole : baseTypeByNumber e.typeNum = some type)
    (unresolved : state.resolved.getD index none = none)
    (unmarked : state.resolving.getD index false = false) :
    resolveEntry digest resolveExternalBase entries byOffset (calls + 1) index
        state =
      .ok (⟨type, e.payload⟩,
        recordResult digest index ⟨type, e.payload⟩
          { state with resolving := state.resolving.set index true }) := by
  simp only [resolveEntry, unresolved, unmarked, found, whole,
    Bool.false_eq_true, if_false]
  rfl

theorem EntriesBytes.start_le {start : Nat}
    (encoded : EntriesBytes start entries bytes) :
    (∀ entry ∈ entries, start ≤ entry.start) ∧
      entries.Pairwise fun first second => first.start < second.start := by
  induction encoded with
  | nil => exact ⟨by simp, .nil⟩
  | @cons entry entries bytes others first rest ih =>
      obtain ⟨above, ordered⟩ := ih
      have nonempty : 0 < bytes.length := by
        obtain ⟨header, reference, stream, rfl, _, headerBytes, _⟩ :=
          first.parts
        have := headerBytes.length_pos
        rw [List.length_append]
        omega
      constructor
      · intro other member
        rcases List.mem_cons.mp member with rfl | later
        · exact Nat.le_refl _
        · have := above other later
          omega
      · apply List.Pairwise.cons _ ordered
        intro other later
        have := above other later
        omega

theorem EntriesBytes.offset_lt {start : Nat}
    (encoded : EntriesBytes start entries bytes) :
    ∀ entry ∈ entries, ∀ position, entry.base = .offset position →
      position < entry.start := by
  induction encoded with
  | nil => simp
  | cons first rest ih =>
      intro entry member position base
      rcases List.mem_cons.mp member with rfl | later
      · obtain ⟨header, reference, stream, _, _, _, referenceBytes, _⟩ :=
          first.parts
        rw [base] at referenceBytes
        cases referenceBytes with
        | offset varint back target inside => omega
      · exact ih entry later position base

end Takos.Packs
