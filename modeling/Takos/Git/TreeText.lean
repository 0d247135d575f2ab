import Takos.Foundation.UnitOrder
import Takos.Packs.PackObjects
import Takos.Foundation.Decimals

/-!
# The bytes of a tree object

The entries of a tree are written in the order of their names as the source
language compares strings, a directory as if its name ended in `/`: the mode, a
space, the name, a NUL byte and the 20 bytes of the id.  A reader takes whole
entries from the front and ends quietly where there is none.
-/

namespace Takos.Git

open Takos.Foundation Takos.Packs

/-- `mode.replace(/^0+/, "")`. -/
def shortMode (mode : Text) : Text := mode.dropWhile (· = '0')

def entryBytes (entry : TreeEntry Text) : List UInt8 :=
  Utf8.encode (shortMode entry.mode ++ ' ' :: entry.name ++ ['\x00']) ++
    hexToBytes entry.sha

/-- The entries in the order of writing; the sort is stable. -/
def sortedEntries (entries : List (TreeEntry Text)) : List (TreeEntry Text) :=
  entries.insertionSort fun left right =>
    Text.lt (ObjectStore.sortName right) (ObjectStore.sortName left) = false

def encodeTreeContent (entries : List (TreeEntry Text)) : List UInt8 :=
  (sortedEntries entries).flatMap entryBytes

/-- The bytes before and after the first `byte`. -/
def cutByte (byte : UInt8) : List UInt8 → Option (List UInt8 × List UInt8)
  | [] => none
  | first :: rest =>
    if first = byte then some ([], rest)
    else (cutByte byte rest).map fun cut => (first :: cut.1, cut.2)

/-- The parts of a stored entry. -/
structure RawEntry where
  mode : List UInt8
  name : List UInt8
  sha : List UInt8
  mode_plain : 0x20 ∉ mode
  name_plain : 0x00 ∉ name
  sha_length : sha.length = 20

def RawEntry.bytes (raw : RawEntry) : List UInt8 :=
  raw.mode ++ 0x20 :: raw.name ++ 0x00 :: raw.sha

/-- What is read from the parts: the mode is padded to six digits. -/
def RawEntry.entry (raw : RawEntry) : TreeEntry Text where
  mode := Text.padStart 6 '0' (Utf8.decodeText raw.mode)
  name := Utf8.decodeText raw.name
  sha := bytesToHex raw.sha

/-- One round of the loop: the entry at the front and the bytes after it. -/
def readEntry (content : List UInt8) : Option (TreeEntry Text × List UInt8) := do
  let mode ← cutByte 0x20 content
  let name ← cutByte 0x00 mode.2
  if name.2.length < 20 then none
  else
    some ({ mode := Text.padStart 6 '0' (Utf8.decodeText mode.1)
            name := Utf8.decodeText name.1
            sha := bytesToHex (name.2.take 20) }, name.2.drop 20)

def decodeEntries : (rounds : Nat) → List UInt8 → List (TreeEntry Text)
  | 0, _ => []
  | rounds + 1, content =>
    match readEntry content with
    | none => []
    | some (entry, rest) => entry :: decodeEntries rounds rest

def decodeTree (content : List UInt8) : List (TreeEntry Text) :=
  decodeEntries content.length content

theorem cutByte_eq_some {byte : UInt8} {bytes front back : List UInt8} :
    cutByte byte bytes = some (front, back) ↔
      bytes = front ++ byte :: back ∧ byte ∉ front := by
  induction bytes generalizing front with
  | nil => simp [cutByte]
  | cons first rest ih =>
      rw [cutByte]
      split
      · rename_i same
        constructor
        · intro cut
          obtain ⟨rfl, rfl⟩ := Prod.mk.inj (Option.some.inj cut)
          exact ⟨by rw [same, List.nil_append], List.not_mem_nil⟩
        · rintro ⟨whole, absent⟩
          cases front with
          | nil =>
              rw [List.nil_append] at whole
              rw [(List.cons.inj whole).2]
          | cons other front =>
              have first := (List.cons.inj whole).1
              rw [← first, same] at absent
              exact absurd List.mem_cons_self absent
      · rename_i different
        constructor
        · intro cut
          obtain ⟨⟨later, after⟩, found, pair⟩ := Option.map_eq_some_iff.mp cut
          obtain ⟨rfl, rfl⟩ := Prod.mk.inj pair
          obtain ⟨whole, absent⟩ := ih.mp found
          refine ⟨by rw [whole, List.cons_append], ?_⟩
          intro member
          cases List.mem_cons.mp member with
          | inl same => exact different same.symm
          | inr later => exact absent later
        · rintro ⟨whole, absent⟩
          cases front with
          | nil => exact absurd (List.cons.inj whole).1 different
          | cons other front =>
              obtain ⟨rfl, restWhole⟩ := List.cons.inj whole
              have found := ih.mpr ⟨restWhole,
                fun member => absent (List.mem_cons_of_mem _ member)⟩
              rw [found]
              rfl

theorem readEntry_eq_some {content rest : List UInt8}
    {entry : TreeEntry Text} :
    readEntry content = some (entry, rest) ↔
      ∃ raw : RawEntry, content = raw.bytes ++ rest ∧ entry = raw.entry := by
  constructor
  · intro read
    unfold readEntry at read
    obtain ⟨⟨mode, afterMode⟩, modeCut, named⟩ :=
      Option.bind_eq_some_iff.mp read
    obtain ⟨⟨name, afterName⟩, nameCut, taken⟩ :=
      Option.bind_eq_some_iff.mp named
    obtain ⟨rfl, modePlain⟩ := cutByte_eq_some.mp modeCut
    obtain ⟨afterModeEq, namePlain⟩ := cutByte_eq_some.mp nameCut
    dsimp only at taken afterModeEq
    by_cases short : afterName.length < 20
    · rw [if_pos short] at taken
      cases taken
    · rw [if_neg short] at taken
      obtain ⟨rfl, rfl⟩ := Prod.mk.inj (Option.some.inj taken)
      refine ⟨⟨mode, name, afterName.take 20, modePlain, namePlain, ?_⟩, ?_, rfl⟩
      · rw [List.length_take]
        omega
      · rw [afterModeEq]
        simp [RawEntry.bytes]
  · rintro ⟨raw, rfl, rfl⟩
    have mode : cutByte 0x20 (raw.bytes ++ rest) =
        some (raw.mode, raw.name ++ 0x00 :: (raw.sha ++ rest)) :=
      cutByte_eq_some.mpr ⟨by simp [RawEntry.bytes], raw.mode_plain⟩
    have name : cutByte 0x00 (raw.name ++ 0x00 :: (raw.sha ++ rest)) =
        some (raw.name, raw.sha ++ rest) :=
      cutByte_eq_some.mpr ⟨rfl, raw.name_plain⟩
    have long : ¬(raw.sha ++ rest).length < 20 := by
      rw [List.length_append, raw.sha_length]
      omega
    have whole := raw.sha_length
    unfold readEntry
    rw [mode]
    simp only [Option.bind_eq_bind, Option.bind_some]
    rw [name]
    simp only [Option.bind_some]
    rw [if_neg long, List.take_left' whole, List.drop_left' whole]
    rfl

theorem RawEntry.bytes_length (raw : RawEntry) : 0 < raw.bytes.length := by
  simp [RawEntry.bytes]

theorem decodeEntries_rounds (rounds more : Nat) (content : List UInt8)
    (few : content.length ≤ rounds) (enough : content.length ≤ more) :
    decodeEntries rounds content = decodeEntries more content := by
  induction rounds generalizing more content with
  | zero =>
      obtain rfl := List.length_eq_zero_iff.mp (Nat.le_zero.mp few)
      cases more <;> rfl
  | succ rounds ih =>
      cases more with
      | zero =>
          obtain rfl := List.length_eq_zero_iff.mp (Nat.le_zero.mp enough)
          rfl
      | succ more =>
          rw [decodeEntries, decodeEntries]
          split
          · rfl
          · rename_i entry rest read
            obtain ⟨raw, rfl, _⟩ := readEntry_eq_some.mp read
            have positive := raw.bytes_length
            rw [List.length_append] at few enough
            rw [ih more rest (by omega) (by omega)]

theorem decodeTree_none {content : List UInt8}
    (none : readEntry content = none) : decodeTree content = [] := by
  unfold decodeTree
  cases content.length with
  | zero => rfl
  | succ rounds => rw [decodeEntries, none]

theorem decodeTree_cons (raw : RawEntry) (rest : List UInt8) :
    decodeTree (raw.bytes ++ rest) = raw.entry :: decodeTree rest := by
  have read := readEntry_eq_some.mpr
    ⟨raw, (rfl : raw.bytes ++ rest = raw.bytes ++ rest), rfl⟩
  have positive := raw.bytes_length
  unfold decodeTree
  rw [decodeEntries_rounds _ (raw.bytes.length + rest.length + 1) _
      (Nat.le_refl _) (by rw [List.length_append]; omega),
    decodeEntries, read]
  dsimp only
  rw [decodeEntries_rounds (raw.bytes.length + rest.length) rest.length rest
    (by omega) (Nat.le_refl _)]

theorem decodeTree_append (raws : List RawEntry) (rest : List UInt8) :
    decodeTree (raws.flatMap RawEntry.bytes ++ rest) =
      raws.map RawEntry.entry ++ decodeTree rest := by
  induction raws with
  | nil => rfl
  | cons raw raws ih =>
      rw [List.flatMap_cons, List.append_assoc, decodeTree_cons, ih]
      rfl

/-- The entries that are read are those in front of the first place where no
whole entry starts. -/
theorem decodeTree_front (content : List UInt8) :
    ∃ (raws : List RawEntry) (rest : List UInt8),
      content = raws.flatMap RawEntry.bytes ++ rest ∧
      decodeTree content = raws.map RawEntry.entry ∧
      ∀ (raw : RawEntry) more, rest ≠ raw.bytes ++ more := by
  induction size : content.length using Nat.strong_induction_on
    generalizing content with
  | _ bound ih =>
      cases read : readEntry content with
      | none =>
          refine ⟨[], content, rfl, decodeTree_none read, ?_⟩
          intro raw more whole
          have found := readEntry_eq_some.mpr ⟨raw, whole, rfl⟩
          rw [read] at found
          cases found
      | some pair =>
          obtain ⟨entry, rest⟩ := pair
          obtain ⟨raw, rfl, rfl⟩ := readEntry_eq_some.mp read
          have positive := raw.bytes_length
          have smaller : rest.length < bound := by
            rw [← size, List.length_append]
            omega
          obtain ⟨raws, back, restEq, decoded, ended⟩ :=
            ih rest.length smaller rest rfl
          refine ⟨raw :: raws, back, ?_, ?_, ended⟩
          · rw [List.flatMap_cons, List.append_assoc, ← restEq]
          · rw [decodeTree_cons, decoded, List.map_cons]

end Takos.Git

/-!
# Reading a tree back

The entries of a tree are read back as they were written unless a name starts
with a byte order mark, which the decoder of texts drops.  The order of writing
is that of the bytes of the names unless two of them first differ where code
units and bytes compare differently.  It depends on the set of entries only.
-/

namespace Takos.Git

open Takos.Foundation Takos.Packs

/-- An entry as git allows it. -/
structure ValidEntry (entry : TreeEntry Text) : Prop where
  mode_digits : ∀ char ∈ entry.mode, char.isDigit = true
  name_slash : '/' ∉ entry.name
  name_nul : '\x00' ∉ entry.name
  sha_hex : ∃ bytes : List UInt8,
    bytes.length = 20 ∧ entry.sha = bytesToHex bytes

/-- The entry with the mode that a reader gives it. -/
def paddedEntry (entry : TreeEntry Text) : TreeEntry Text :=
  { entry with mode := ObjectStore.storedMode entry.mode }

theorem storedEntries_eq (entries : List (TreeEntry Text)) :
    ObjectStore.storedEntries entries =
      (sortedEntries entries).map paddedEntry := rfl

theorem sortedEntries_perm (entries : List (TreeEntry Text)) :
    (sortedEntries entries).Perm entries :=
  List.perm_insertionSort _ entries

theorem digit_basic {char : Char} (digit : char.isDigit = true) :
    char.toNat < 0x80 := by
  have high : char.toNat ≤ 57 := (Char.isDigit_iff_toNat.mp digit).2
  omega

theorem shortMode_digits {entry : TreeEntry Text} (valid : ValidEntry entry) :
    ∀ char ∈ shortMode entry.mode, char.isDigit = true :=
  fun char member => valid.mode_digits char
    ((List.dropWhile_suffix _).subset member)

theorem storedMode_six {mode : Text}
    (digits : ∀ char ∈ mode, char.isDigit = true) (six : mode.length = 6) :
    ObjectStore.storedMode mode = mode := by
  have size : (shortMode mode).size = (shortMode mode).length := by
    apply Text.size_eq_length
    intro char member
    have basic := digit_basic
      (digits char ((List.dropWhile_suffix _).subset member))
    omega
  have zeros : mode.takeWhile (· = '0') =
      List.replicate (mode.takeWhile (· = '0')).length '0' := by
    apply List.eq_replicate_iff.mpr
    exact ⟨rfl, fun char member => by
      simpa using List.mem_takeWhile_imp member⟩
  have whole := List.takeWhile_append_dropWhile (p := (· = '0')) (l := mode)
  have lengths := congrArg List.length whole
  rw [List.length_append, six] at lengths
  have padding : 6 - (shortMode mode).size =
      (mode.takeWhile (· = '0')).length := by
    rw [size, shortMode]
    omega
  change List.replicate (6 - (shortMode mode).size) '0' ++ shortMode mode = mode
  rw [padding, ← zeros]
  exact whole

theorem rawEntry_of_valid {entry : TreeEntry Text} (valid : ValidEntry entry) :
    ∃ raw : RawEntry, raw.bytes = entryBytes entry ∧
      (entry.name.head? ≠ some Utf8.byteOrderMark →
        raw.entry = paddedEntry entry) := by
  obtain ⟨sha, length, hex⟩ := valid.sha_hex
  have digits := shortMode_digits valid
  have spaceAbsent : ' ' ∉ shortMode entry.mode := by
    intro member
    exact absurd (digits ' ' member) (by decide)
  have space : UInt8.ofNat ' '.toNat ∉ Utf8.encode (shortMode entry.mode) :=
    Utf8.not_mem_encode (by decide) spaceAbsent
  have nul : UInt8.ofNat '\x00'.toNat ∉ Utf8.encode entry.name :=
    Utf8.not_mem_encode (by decide) valid.name_nul
  refine ⟨⟨Utf8.encode (shortMode entry.mode), Utf8.encode entry.name, sha,
    space, nul, length⟩, ?_, fun unmarked => ?_⟩
  · have spaceByte : Utf8.encodeChar ' ' = [0x20] := by decide
    have nulByte : Utf8.encodeChar '\x00' = [0x00] := by decide
    rw [entryBytes, hex, hexToBytes_bytesToHex]
    simp [RawEntry.bytes, spaceByte, nulByte]
  · have plain : (shortMode entry.mode).head? ≠ some Utf8.byteOrderMark := by
      intro marked
      have member := List.mem_of_mem_head? marked
      exact absurd (digits _ member) (by decide)
    rw [RawEntry.entry, Utf8.decodeText_encode plain,
      Utf8.decodeText_encode unmarked, ← hex]
    rfl

theorem rawEntries_of_valid {entries : List (TreeEntry Text)}
    (valid : ∀ entry ∈ entries, ValidEntry entry) :
    ∃ raws : List RawEntry,
      raws.flatMap RawEntry.bytes = entries.flatMap entryBytes ∧
      ((∀ entry ∈ entries, entry.name.head? ≠ some Utf8.byteOrderMark) →
        raws.map RawEntry.entry = entries.map paddedEntry) := by
  induction entries with
  | nil => exact ⟨[], rfl, fun _ => rfl⟩
  | cons entry entries ih =>
      obtain ⟨raw, bytes, read⟩ := rawEntry_of_valid
        (valid entry List.mem_cons_self)
      obtain ⟨raws, restBytes, restRead⟩ := ih fun entry member =>
        valid entry (List.mem_cons_of_mem _ member)
      refine ⟨raw :: raws, ?_, fun unmarked => ?_⟩
      · rw [List.flatMap_cons, List.flatMap_cons, bytes, restBytes]
      · rw [List.map_cons, List.map_cons,
          read (unmarked entry List.mem_cons_self),
          restRead fun entry member =>
            unmarked entry (List.mem_cons_of_mem _ member)]

theorem decodeTree_encodeTreeContent {entries : List (TreeEntry Text)}
    (valid : ∀ entry ∈ entries, ValidEntry entry)
    (unmarked : ∀ entry ∈ entries,
      entry.name.head? ≠ some Utf8.byteOrderMark) :
    decodeTree (encodeTreeContent entries) =
      ObjectStore.storedEntries entries := by
  have members : ∀ entry ∈ sortedEntries entries, entry ∈ entries :=
    fun entry member => (sortedEntries_perm entries).subset member
  have sortedValid : ∀ entry ∈ sortedEntries entries, ValidEntry entry :=
    fun entry member => valid entry (members entry member)
  obtain ⟨raws, bytes, read⟩ := rawEntries_of_valid sortedValid
  have decoded := decodeTree_append raws []
  rw [List.append_nil, bytes, read fun entry member =>
    unmarked entry (members entry member)] at decoded
  rw [encodeTreeContent, decoded, storedEntries_eq]
  exact List.append_nil _

theorem storedEntries_six {entries : List (TreeEntry Text)}
    (valid : ∀ entry ∈ entries, ValidEntry entry)
    (six : ∀ entry ∈ entries, entry.mode.length = 6) :
    (ObjectStore.storedEntries entries).Perm entries := by
  have same : entries.map paddedEntry = entries.map id := by
    apply List.map_congr_left
    intro entry member
    have mode := storedMode_six (valid entry member).mode_digits
      (six entry member)
    rw [paddedEntry, mode]
    rfl
  have permuted : (ObjectStore.storedEntries entries).Perm
      (entries.map paddedEntry) := ObjectStore.storedEntries_perm entries
  rwa [same, List.map_id] at permuted

/-- What the sort compares. -/
def sortKeys (entry : TreeEntry Text) : List Nat :=
  (ObjectStore.sortName entry).map Text.unitKey

theorem before_iff (left right : TreeEntry Text) :
    Text.lt (ObjectStore.sortName right) (ObjectStore.sortName left) = false ↔
      sortKeys left ≤ sortKeys right := by
  rw [← Bool.not_eq_true, Text.lt_iff_keys]
  exact not_lt

theorem sortedEntries_sorted (entries : List (TreeEntry Text)) :
    (sortedEntries entries).Pairwise fun left right =>
      sortKeys left ≤ sortKeys right := by
  let before : TreeEntry Text → TreeEntry Text → Prop := fun left right =>
    Text.lt (ObjectStore.sortName right) (ObjectStore.sortName left) = false
  have total : Std.Total before := by
    constructor
    intro left right
    have either := le_total (sortKeys left) (sortKeys right)
    rwa [← before_iff, ← before_iff] at either
  have transitive : IsTrans (TreeEntry Text) before := by
    constructor
    intro first second third firstBefore secondBefore
    exact (before_iff first third).mpr
      (((before_iff first second).mp firstBefore).trans
        ((before_iff second third).mp secondBefore))
  exact (List.pairwise_insertionSort before entries).imp
    fun {left right} sorted => (before_iff left right).mp sorted

theorem name_of_sortName {left right : TreeEntry Text}
    (leftPlain : '/' ∉ left.name) (rightPlain : '/' ∉ right.name)
    (same : ObjectStore.sortName left = ObjectStore.sortName right) :
    left.name = right.name := by
  unfold ObjectStore.sortName at same
  split at same
  · split at same
    · exact List.append_cancel_right same
    · rw [← same] at rightPlain
      exact absurd (by simp) rightPlain
  · split at same
    · rw [same] at leftPlain
      exact absurd (by simp) leftPlain
    · exact same

section Distinct

variable {entries : List (TreeEntry Text)}
  (valid : ∀ entry ∈ entries, ValidEntry entry)
  (distinct : (entries.map (·.name)).Nodup)

include valid distinct in
theorem sortedEntries_of_perm {others : List (TreeEntry Text)}
    (permuted : others.Perm entries) :
    sortedEntries others = sortedEntries entries := by
  apply List.Perm.eq_of_pairwise _ (sortedEntries_sorted others)
    (sortedEntries_sorted entries)
  · exact ((sortedEntries_perm others).trans permuted).trans
      (sortedEntries_perm entries).symm
  · intro left right leftSorted rightSorted before after
    have leftMember : left ∈ entries :=
      permuted.subset ((sortedEntries_perm others).subset leftSorted)
    have rightMember : right ∈ entries :=
      (sortedEntries_perm entries).subset rightSorted
    have keys : sortKeys left = sortKeys right := le_antisymm before after
    have names := name_of_sortName (valid left leftMember).name_slash
      (valid right rightMember).name_slash
      (List.map_injective_iff.mpr Text.orderedCode.key_injective keys)
    exact List.inj_on_of_nodup_map distinct leftMember rightMember names

include valid distinct in
/-- Where code units and bytes agree the entries are written in the order of
the bytes. -/
theorem sortedEntries_bytes
    (plain : ∀ left ∈ entries, ∀ right ∈ entries,
      ¬Text.Crossing (ObjectStore.sortName left)
        (ObjectStore.sortName right)) :
    (sortedEntries entries).Pairwise fun left right =>
      Utf8.units (ObjectStore.sortName left) <
        Utf8.units (ObjectStore.sortName right) := by
  have permuted := sortedEntries_perm entries
  have sortedNames : ((sortedEntries entries).map (·.name)).Nodup :=
    (permuted.map TreeEntry.name).nodup_iff.mpr distinct
  have names : (sortedEntries entries).Pairwise fun left right =>
      left.name ≠ right.name := List.pairwise_map.mp sortedNames
  apply ((sortedEntries_sorted entries).and names).imp_of_mem
  intro left right leftSorted rightSorted both
  obtain ⟨before, different⟩ := both
  have leftMember := permuted.subset leftSorted
  have rightMember := permuted.subset rightSorted
  have notAfter : ¬Utf8.units (ObjectStore.sortName right) <
      Utf8.units (ObjectStore.sortName left) := by
    rw [← Text.lt_iff_units (plain right rightMember left leftMember)
      (plain left leftMember right rightMember), Bool.not_eq_true]
    exact (before_iff left right).mpr before
  apply lt_of_le_of_ne (not_lt.mp notAfter)
  intro same
  exact different (name_of_sortName (valid left leftMember).name_slash
    (valid right rightMember).name_slash (Utf8.units_injective same))

end Distinct

/-- What holds of writing a tree and reading it back: the round trip, the order
of the bytes, one text for equal sets, and the entries of any bytes. -/
theorem treeContent_roundTrip (entries : List (TreeEntry Text))
    (valid : ∀ entry ∈ entries, ValidEntry entry)
    (distinct : (entries.map (·.name)).Nodup) :
    ((∀ entry ∈ entries, entry.name.head? ≠ some Utf8.byteOrderMark) →
      decodeTree (encodeTreeContent entries) =
          ObjectStore.storedEntries entries ∧
        ((∀ entry ∈ entries, entry.mode.length = 6) →
          (decodeTree (encodeTreeContent entries)).Perm entries)) ∧
    ((∀ left ∈ entries, ∀ right ∈ entries,
        ¬Text.Crossing (ObjectStore.sortName left)
          (ObjectStore.sortName right)) →
      ∃ written : List (TreeEntry Text), written.Perm entries ∧
        written.Pairwise (fun left right =>
          Utf8.units (ObjectStore.sortName left) <
            Utf8.units (ObjectStore.sortName right)) ∧
        encodeTreeContent entries = written.flatMap entryBytes) ∧
    (∀ others : List (TreeEntry Text), others.Perm entries →
      encodeTreeContent others = encodeTreeContent entries) ∧
    ∀ content : List UInt8, ∃ (raws : List RawEntry) (rest : List UInt8),
      content = raws.flatMap RawEntry.bytes ++ rest ∧
      decodeTree content = raws.map RawEntry.entry ∧
      ∀ (raw : RawEntry) more, rest ≠ raw.bytes ++ more := by
  refine ⟨fun unmarked => ?_, fun plain => ?_, fun others permuted => ?_,
    decodeTree_front⟩
  · have read := decodeTree_encodeTreeContent valid unmarked
    refine ⟨read, fun six => ?_⟩
    rw [read]
    exact storedEntries_six valid six
  · exact ⟨sortedEntries entries, sortedEntries_perm entries,
      sortedEntries_bytes valid distinct plain, rfl⟩
  · rw [encodeTreeContent, sortedEntries_of_perm valid distinct permuted]
    rfl

def emptySha : Text := bytesToHex (List.replicate 20 0)

def regularFile (name : Text) : TreeEntry Text where
  mode := FILE_MODES.REGULAR_FILE
  name := name
  sha := emptySha

theorem regularFile_valid {name : Text} (slash : '/' ∉ name)
    (nul : '\x00' ∉ name) : ValidEntry (regularFile name) where
  mode_digits := by
    intro char member
    have digits : FILE_MODES.REGULAR_FILE.all Char.isDigit = true := rfl
    exact List.all_eq_true.mp digits char member
  name_slash := slash
  name_nul := nul
  sha_hex := ⟨List.replicate 20 0, rfl, rfl⟩

theorem treeContent_roundTrip_pair :
    (decodeTree (encodeTreeContent [regularFile ['b'], regularFile ['a']])).Perm
      [regularFile ['b'], regularFile ['a']] := by
  have valid : ∀ entry ∈ [regularFile ['b'], regularFile ['a']],
      ValidEntry entry := by
    intro entry member
    simp only [List.mem_cons, List.not_mem_nil, or_false] at member
    rcases member with rfl | rfl <;> exact regularFile_valid (by decide)
      (by decide)
  have whole := treeContent_roundTrip [regularFile ['b'], regularFile ['a']]
    valid (by decide)
  exact (whole.1 (by decide)).2 (by decide)

/-- `U+1F600`. -/
def smile : Char := Char.ofNat 0x1F600

/-- A mark in front of a name is lost, a character outside the basic plane is
written before `U+FFFD`, and a mode alone is read as an empty tree. -/
theorem treeContent_diverges :
    (ValidEntry (regularFile [Utf8.byteOrderMark, 'a']) ∧
      decodeTree (encodeTreeContent
        [regularFile [Utf8.byteOrderMark, 'a']]) = [regularFile ['a']]) ∧
    (ValidEntry (regularFile [smile]) ∧
      ValidEntry (regularFile [Utf8.replacement]) ∧
      Utf8.units [Utf8.replacement] < Utf8.units [smile] ∧
      encodeTreeContent [regularFile [Utf8.replacement], regularFile [smile]] =
        entryBytes (regularFile [smile]) ++
          entryBytes (regularFile [Utf8.replacement])) ∧
    decodeTree [0x31] = [] := by
  refine ⟨⟨regularFile_valid (by decide) (by decide), by decide +kernel⟩,
    ⟨regularFile_valid (by decide) (by decide),
      regularFile_valid (by decide) (by decide), by decide +kernel,
      by decide +kernel⟩, rfl⟩

end Takos.Git
