import Takos.Packs.PackFormat
import Takos.Packs.PackObjects

/-!
# Reading what the writer wrote

The writer's bytes hold one whole object after the other in the pack format,
and a pack of whole objects is read back as these objects.
-/

namespace Takos.Packs

open Takos.Foundation Takos.Foundation.Deflate Takos.Git

theorem or_high_bit {b : Nat} (small : b < 128) :
    (UInt8.ofNat (b ||| 0x80)).toNat = b + 128 := by
  have stacked := or_shiftLeft_of_lt 1 (show b < 2 ^ 7 by omega)
  rw [show (0x80 : Nat) = 1 <<< 7 from rfl, stacked, UInt8.toNat_ofNat']
  omega

theorem sizeBytes_spec {rounds size : Nat} (enough : size ≤ rounds) {b : Nat}
    (small : b < 128) :
    LittleVarint (sizeBytes rounds b size) (b + 128 * size) := by
  have byte : (UInt8.ofNat b).toNat = b := by
    rw [UInt8.toNat_ofNat']
    omega
  induction rounds generalizing b size with
  | zero =>
      obtain rfl : size = 0 := by omega
      have final := @LittleVarint.last (UInt8.ofNat b) (by omega)
      rw [byte] at final
      exact final
  | succ rounds ih =>
      by_cases done : size = 0
      · subst done
        have final := @LittleVarint.last (UInt8.ofNat b) (by omega)
        rw [byte] at final
        rw [sizeBytes, if_pos rfl]
        exact final
      · have low : size &&& 0x7f = size % 128 :=
          Nat.and_two_pow_sub_one_eq_mod size 7
        have rest := @ih (size / 128) (by omega) (size % 128)
          (Nat.mod_lt _ (by omega))
          (by rw [UInt8.toNat_ofNat']; omega)
        have high := or_high_bit small
        have more := @LittleVarint.more (UInt8.ofNat (b ||| 0x80)) _ _
          (by omega) rest
        rw [high] at more
        rw [sizeBytes, if_neg done, low]
        have value : b + 128 - 128 + 128 * (size % 128 + 128 * (size / 128)) =
            b + 128 * size := by omega
        rwa [value] at more

theorem sizeBytes_length (groups : Nat) {rounds b size : Nat}
    (small : size < 128 ^ groups) :
    (sizeBytes rounds b size).length ≤ groups + 1 := by
  induction groups generalizing rounds b size with
  | zero =>
      obtain rfl : size = 0 := by omega
      cases rounds with
      | zero => exact Nat.le_refl _
      | succ rounds =>
          rw [sizeBytes, if_pos rfl]
          exact Nat.le_refl _
  | succ groups ih =>
      cases rounds with
      | zero =>
          rw [sizeBytes, List.length_singleton]
          omega
      | succ rounds =>
          rw [sizeBytes]
          split
          · rw [List.length_singleton]
            omega
          · have fewer : size / 128 < 128 ^ groups := by
              apply Nat.div_lt_of_lt_mul
              rwa [← pow_succ']
            have := @ih rounds (size &&& 0x7f) (size / 128) fewer
            rw [List.length_cons]
            omega

theorem encodePackObjectHeader_spec {type size : Nat} (known : type < 8) :
    EntryHeader (encodePackObjectHeader type size) type size := by
  have first : (type <<< 4) ||| (size &&& 0x0f) = size % 16 + type * 16 := by
    rw [and_fifteen, Nat.lor_comm]
    exact or_shiftLeft_of_lt type (Nat.mod_lt _ (by omega))
  have small : size % 16 + type * 16 < 128 := by omega
  have byte : (UInt8.ofNat (size % 16 + type * 16)).toNat =
      size % 16 + type * 16 := by
    rw [UInt8.toNat_ofNat']
    omega
  rw [encodePackObjectHeader, first]
  by_cases short : size / 16 = 0
  · have final := @EntryHeader.short (UInt8.ofNat (size % 16 + type * 16))
      (by omega)
    rw [byte, show (size % 16 + type * 16) / 16 = type by omega,
      show (size % 16 + type * 16) % 16 = size by omega] at final
    rw [short]
    exact final
  · obtain ⟨rounds, roundsEq⟩ := Nat.exists_eq_succ_of_ne_zero short
    have low : size / 16 &&& 0x7f = size / 16 % 128 :=
      Nat.and_two_pow_sub_one_eq_mod _ 7
    have rest := @sizeBytes_spec rounds (size / 16 / 128) (by omega)
      (size / 16 % 128) (Nat.mod_lt _ (by omega))
    have high := or_high_bit small
    have long := @EntryHeader.long
      (UInt8.ofNat (size % 16 + type * 16 ||| 0x80)) _ _ (by omega) rest
    rw [high, show (size % 16 + type * 16 + 128) / 16 - 8 = type by omega,
      show (size % 16 + type * 16 + 128) % 16 +
        16 * (size / 16 % 128 + 128 * (size / 16 / 128)) = size by
          omega] at long
    conv =>
      arg 1
      arg 1
      rw [roundsEq]
    rw [sizeBytes, if_neg short, low]
    exact long

theorem encodePackObjectHeader_length {type size : Nat}
    (bounded : size < 2 ^ 53) :
    (encodePackObjectHeader type size).length ≤ 10 := by
  have groups : size / 16 < 128 ^ 7 := by
    apply Nat.div_lt_of_lt_mul
    calc size < 2 ^ 53 := bounded
      _ = 16 * 128 ^ 7 := by norm_num
  have := @sizeBytes_length 7 (size / 16)
    ((type <<< 4) ||| (size &&& 0x0f)) (size / 16) groups
  rw [encodePackObjectHeader]
  omega

/-- The entries that the writer emits, the first one at `start`. -/
def writtenEntries (deflate : List UInt8 → List UInt8) (start : Nat) :
    List PackInputObject → List PackedEntry
  | [] => []
  | obj :: objects =>
    ⟨start, .whole obj.type, obj.content⟩ ::
      writtenEntries deflate
        (start + (encodePackObjectHeader (gitTypeToNumber obj.type)
            obj.content.length ++ deflate obj.content).length)
        objects

section

variable {digest deflate : List UInt8 → List UInt8}

theorem writtenEntries_length (objects : List PackInputObject) (start : Nat) :
    (writtenEntries deflate start objects).length = objects.length := by
  induction objects generalizing start with
  | nil => rfl
  | cons obj objects ih => rw [writtenEntries, List.length_cons, ih]; rfl

theorem writeObjects_format {objects : List PackInputObject}
    (bounded : ∀ obj ∈ objects, obj.content.length < 2 ^ 53)
    (valid : ∀ obj ∈ objects, ZlibStream (deflate obj.content) obj.content)
    (start : Nat) :
    EntriesBytes start (writtenEntries deflate start objects)
      (writeObjects deflate objects) := by
  induction objects generalizing start with
  | nil => exact .nil
  | cons obj objects ih =>
      have others := ih
        (fun other member => bounded other (List.mem_cons_of_mem _ member))
        (fun other member => valid other (List.mem_cons_of_mem _ member))
      have encoded : EntryBytes ⟨start, .whole obj.type, obj.content⟩
          (encodePackObjectHeader (gitTypeToNumber obj.type)
            obj.content.length ++ deflate obj.content) := by
        refine ⟨_, [], _, rfl, ?_, ?_, .whole obj.type, ?_⟩
        · exact encodePackObjectHeader_length
            (bounded obj List.mem_cons_self)
        · exact encodePackObjectHeader_spec (gitTypeToNumber_lt obj.type)
        · exact valid obj List.mem_cons_self
      rw [writeObjects, List.flatMap_cons]
      exact .cons encoded (others _)

theorem writePack_format {objects : List PackInputObject}
    (count : objects.length < 2 ^ 32)
    (bounded : ∀ obj ∈ objects, obj.content.length < 2 ^ 53)
    (valid : ∀ obj ∈ objects, ZlibStream (deflate obj.content) obj.content)
    (width : ∀ data, (digest data).length = 20) :
    PackFormat (writePack digest deflate objects)
      (writtenEntries deflate 12 objects) := by
  refine ⟨writeObjects deflate objects,
    digest (packHeader objects.length ++ writeObjects deflate objects), ?_, ?_,
    writeObjects_format bounded valid 12, width _⟩
  · rw [writePack, sha1, hexToBytes_bytesToHex, writtenEntries_length]
    simp only [packHeader, List.append_assoc]
    rfl
  · rwa [writtenEntries_length]

/-- Entries from `index` on that no call has touched. -/
def Untouched (index : Nat) (state : ResolveState) : Prop :=
  ∀ later, index ≤ later → state.resolved.getD later none = none ∧
    state.resolving.getD later false = false

variable (digest) in
theorem Untouched.record {index : Nat} {state : ResolveState}
    (untouched : Untouched index state) (result : ResolvedObject) :
    Untouched (index + 1)
      (recordResult digest index result
        { state with resolving := state.resolving.set index true }) := by
  intro later after
  have apart : index ≠ later := by omega
  obtain ⟨unresolved, unmarked⟩ := untouched later (by omega)
  rw [List.getD_eq_getElem?_getD] at unresolved unmarked
  simp only [recordResult, List.getD_eq_getElem?_getD,
    List.getElem?_set_ne apart]
  exact ⟨unresolved, unmarked⟩

variable (digest) in
theorem resolveAll_whole {entries : List PackEntry}
    (resolveExternalBase : Option (Text → Option (List UInt8)))
    (byOffset : OrderedMap Int Nat) (rest : List PackInputObject)
    {index : Nat} {state : ResolveState}
    (remaining : ∀ place (inside : place < rest.length),
      ∃ e, entries[index + place]? = some e ∧
        baseTypeByNumber e.typeNum = some rest[place].type ∧
        e.payload = rest[place].content)
    (untouched : Untouched index state) :
    resolveAll digest resolveExternalBase entries byOffset rest.length index
        state =
      .ok (rest.map fun obj =>
        ⟨obj.type, obj.content, hashObject digest obj.type obj.content⟩) := by
  induction rest generalizing index state with
  | nil => rfl
  | cons obj rest ih =>
      obtain ⟨e, found, whole, payload⟩ := remaining 0 (Nat.succ_pos _)
      rw [List.getElem_cons_zero] at whole payload
      have bound : index < entries.length :=
        (List.getElem?_eq_some_iff.mp found).1
      obtain ⟨calls, callsEq⟩ : ∃ calls, entries.length = calls + 1 :=
        Nat.exists_eq_succ_of_ne_zero (by omega)
      obtain ⟨unresolved, unmarked⟩ := untouched index (Nat.le_refl _)
      have resolved := @resolveEntry_whole digest entries resolveExternalBase
        byOffset index e obj.type state calls found whole unresolved unmarked
      rw [← callsEq, payload] at resolved
      have later : ∀ place (inside : place < rest.length),
          ∃ e, entries[index + 1 + place]? = some e ∧
            baseTypeByNumber e.typeNum = some rest[place].type ∧
            e.payload = rest[place].content := by
        intro place inside
        have := remaining (place + 1) (Nat.succ_lt_succ inside)
        rwa [show index + (place + 1) = index + 1 + place by omega] at this
      have others := ih later (untouched.record digest ⟨obj.type, obj.content⟩)
      simp only [List.length_cons, resolveAll, resolved, others, bind,
        Except.bind, pure, Except.pure, List.map_cons]

theorem writtenEntries_getElem (objects : List PackInputObject) (start : Nat)
    {place : Nat} (inside : place < objects.length) :
    ∃ position, (writtenEntries deflate start objects)[place]? =
      some ⟨position, .whole objects[place].type, objects[place].content⟩ := by
  induction objects generalizing start place with
  | nil => exact absurd inside (Nat.not_lt_zero _)
  | cons obj objects ih =>
      cases place with
      | zero => exact ⟨start, rfl⟩
      | succ place => exact ih _ (Nat.lt_of_succ_lt_succ inside)

/-- What the writer produces reads back as the objects in their order, and the
header of an entry as its type and size. -/
theorem readPack_writePack (digest deflate : List UInt8 → List UInt8)
    (resolveExternalBase : Option (Text → Option (List UInt8)))
    (objects : List PackInputObject) (count : objects.length < 2 ^ 32)
    (bounded : ∀ obj ∈ objects, obj.content.length < 2 ^ 53)
    (valid : ∀ obj ∈ objects, ZlibStream (deflate obj.content) obj.content)
    (width : ∀ data, (digest data).length = 20) :
    readPack digest resolveExternalBase (writePack digest deflate objects) =
        .ok (objects.map fun obj =>
          ⟨obj.type, obj.content, hashObject digest obj.type obj.content⟩) ∧
      ∀ (type size : Nat) (before after : List UInt8),
        type < 8 → size < 2 ^ 53 →
        readObjectHeader
            (before ++ (encodePackObjectHeader type size ++ after))
            before.length =
          .ok ⟨type, some size,
            before.length + (encodePackObjectHeader type size).length⟩ := by
  constructor
  · obtain ⟨byOffset, _, secondPass⟩ :=
      readPack_of_format digest resolveExternalBase
        (writePack_format count bounded valid width)
    have entriesAt : ∀ place (inside : place < objects.length),
        ∃ e, ((writtenEntries deflate 12 objects).map
            PackedEntry.parsed)[0 + place]? = some e ∧
          baseTypeByNumber e.typeNum = some objects[place].type ∧
          e.payload = objects[place].content := by
      intro place inside
      obtain ⟨position, found⟩ :=
        @writtenEntries_getElem deflate objects 12 place inside
      refine ⟨PackedEntry.parsed
        ⟨position, .whole objects[place].type, objects[place].content⟩,
        ?_, ?_, ?_⟩
      · rw [Nat.zero_add, List.getElem?_map, found, Option.map_some]
      · exact baseTypeByNumber_gitTypeToNumber _
      · rfl
    have untouched : Untouched 0 (startState digest
        ((writtenEntries deflate 12 objects).map PackedEntry.parsed)) := by
      intro later _
      simp only [startState, List.getD_eq_getElem?_getD,
        List.getElem?_replicate]
      split <;> exact ⟨rfl, rfl⟩
    rw [secondPass, writtenEntries_length]
    exact resolveAll_whole digest resolveExternalBase byOffset objects entriesAt
      untouched
  · intro type size before after known exact
    apply readObjectHeader_spec (encodePackObjectHeader_spec known)
      (encodePackObjectHeader_length exact)
    exact List.drop_left

/-- SHA-1 on the three inputs of the round trip below. -/
def roundTripDigest (data : List UInt8) : List UInt8 :=
  if data = objectBytes .blob [] then
    [230, 157, 226, 155, 178, 209, 214, 67, 75, 139, 41, 174, 119, 90, 216, 194,
      228, 140, 83, 145]
  else if data = objectBytes .tag [97] then
    [242, 4, 15, 112, 180, 101, 249, 87, 95, 10, 82, 227, 144, 108, 148, 38, 39,
      139, 116, 125]
  else
    [66, 62, 9, 245, 243, 253, 89, 246, 193, 219, 95, 161, 29, 244, 163, 172, 48,
      172, 222, 104]

/-- What the platform emits for the empty content and for one letter. -/
def roundTripDeflate (content : List UInt8) : List UInt8 :=
  if content = [] then [120, 156, 3, 0, 0, 0, 0, 1]
  else [120, 156, 75, 4, 0, 0, 98, 0, 98]

def emptyBlob : PackInputObject := ⟨.blob, []⟩
def letterTag : PackInputObject := ⟨.tag, [97]⟩

theorem zlibStream_empty : ZlibStream [120, 156, 3, 0, 0, 0, 0, 1] [] := by
  refine ⟨120, 156, [3, 0], by decide, by decide, by decide, by decide,
    by decide, ?_⟩
  refine ⟨true :: ([true, false] ++ [false, false, false, false, false, false,
    false]), [false, false, false, false, false, false], ?_, by decide,
    by decide⟩
  apply Blocks.last
  apply Block.fixed
  apply BlockData.endOfBlock
  decide +kernel

theorem zlibStream_letter :
    ZlibStream [120, 156, 75, 4, 0, 0, 98, 0, 98] [97] := by
  refine ⟨120, 156, [75, 4, 0], by decide, by decide, by decide, by decide,
    by decide, ?_⟩
  refine ⟨true :: ([true, false] ++ ([true, false, false, true, false, false,
    false, true] ++ [false, false, false, false, false, false, false])),
    [false, false, false, false, false, false], ?_, by decide, by decide⟩
  apply Blocks.last
  apply Block.fixed
  apply BlockData.literal 97
  · decide +kernel
  · apply BlockData.endOfBlock
    decide +kernel

theorem readPack_writePack_two :
    readPack roundTripDigest none
        (writePack roundTripDigest roundTripDeflate [emptyBlob, letterTag]) =
      .ok ([emptyBlob, letterTag].map fun obj =>
        ⟨obj.type, obj.content,
          hashObject roundTripDigest obj.type obj.content⟩) := by
  refine (readPack_writePack roundTripDigest roundTripDeflate none
    [emptyBlob, letterTag] (by decide) ?_ ?_ ?_).1
  · intro obj member
    rcases List.mem_pair.mp member with rfl | rfl
    · decide
    · decide
  · intro obj member
    rcases List.mem_pair.mp member with rfl | rfl
    · exact zlibStream_empty
    · exact zlibStream_letter
  · intro data
    rw [roundTripDigest]
    split
    · rfl
    · split
      · rfl
      · rfl

end

end Takos.Packs
