import Takos.Packs.InflateRules
import Takos.Packs.PackReader

/-!
# Checksums that are not read

The reader makes sure that there is room for the checksum of each zlib stream
and for the one of the pack, and skips over them.  What is accepted and what is
returned depends on the other bytes only.
-/

namespace Takos.Packs

open Takos.Foundation Takos.Foundation.Deflate Takos.Git

/-- Two buffers that have the same bytes from one position to another. -/
def SameBytes (buf other : List UInt8) (start stop : Nat) : Prop :=
  ∀ i, start ≤ i → i < stop → other[i]? = buf[i]?

section

variable {buf other bytes tail : List UInt8} {start stop : Nat}

theorem SameBytes.within (same : SameBytes buf other start stop)
    {left right : Nat} (low : start ≤ left) (high : right ≤ stop) :
    SameBytes buf other left right := by
  intro i below above
  exact same i (by omega) (by omega)

theorem SameBytes.split (found : buf.drop start = bytes ++ tail)
    (same : SameBytes buf other start (start + bytes.length)) :
    ∃ rest, other.drop start = bytes ++ rest := by
  induction bytes generalizing start with
  | nil => exact ⟨other.drop start, rfl⟩
  | cons byte bytes ih =>
      have first : buf[start]? = some byte := by
        rw [← List.head?_drop, found]
        rfl
      have again : other[start]? = some byte := by
        rw [same start (Nat.le_refl _)
          (by rw [List.length_cons]; omega), first]
      have rest : buf.drop (start + 1) = bytes ++ tail := by
        rw [← List.tail_drop, found]
        rfl
      obtain ⟨others, split⟩ := ih rest (same.within (by omega)
        (by rw [List.length_cons]; omega))
      obtain ⟨inside, byteEq⟩ := List.getElem?_eq_some_iff.mp again
      refine ⟨others, ?_⟩
      rw [List.drop_eq_getElem_cons inside, byteEq, split, List.cons_append]

end

/-- The checksum of a zlib stream takes its last four bytes. -/
structure ZlibReads (buf : List UInt8) (offset : Nat) (result : InflateResult) :
    Prop where
  room : 6 ≤ result.bytesConsumed
  inside : offset + result.bytesConsumed ≤ buf.length
  reads : ∀ other : List UInt8,
    SameBytes buf other offset (offset + result.bytesConsumed - 4) →
    offset + result.bytesConsumed ≤ other.length →
      inflateZlibAt other offset = .ok result

/-- Where the compressed data starts after the two bytes of the header. -/
def deflateStart (flg : UInt8) (offset : Nat) : Nat :=
  if flg.toNat &&& 0x20 = 0 then offset + 2 else offset + 2 + 4

theorem inflateZlibAt_iff {buf : List UInt8} {offset : Nat}
    {result : InflateResult} :
    inflateZlibAt buf offset = .ok result ↔
      ∃ cmf flg raw, buf[offset]? = some cmf ∧ buf[offset + 1]? = some flg ∧
        cmf.toNat &&& 0x0f = 8 ∧
        ((cmf.toNat <<< 8) ||| flg.toNat) % 31 = 0 ∧
        (flg.toNat &&& 0x20 = 0 ∨ offset + 2 + 4 ≤ buf.length) ∧
        inflateRawAt buf (deflateStart flg offset) = .ok raw ∧
        offset + (deflateStart flg offset - offset + raw.bytesConsumed + 4) ≤
          buf.length ∧
        result = ⟨raw.output,
          deflateStart flg offset - offset + raw.bytesConsumed + 4⟩ := by
  unfold inflateZlibAt deflateStart
  constructor
  · intro ran
    split at ran
    · rename_i cmf flg first second
      by_cases method : cmf.toNat &&& 0x0f = 8
      · by_cases check : ((cmf.toNat <<< 8) ||| flg.toNat) % 31 = 0
        · simp only [method, check, ne_eq, not_true_eq_false, if_false] at ran
          by_cases plain : flg.toNat &&& 0x20 = 0
          · simp only [if_pos plain, pure_bind] at ran ⊢
            obtain ⟨raw, inflated, ran⟩ := ok_of_bind ran
            by_cases room : buf.length <
                offset + (offset + 2 - offset + raw.bytesConsumed + 4)
            · rw [if_pos room] at ran
              cases ran
            · rw [if_neg room] at ran
              refine ⟨cmf, flg, raw, first, second, method, check,
                .inl plain, ?_⟩
              rw [if_pos plain]
              exact ⟨inflated, Nat.not_lt.mp room, (Except.ok.inj ran).symm⟩
          · by_cases dictionary : buf.length < offset + 2 + 4
            · simp only [if_neg plain, if_pos dictionary] at ran
              cases ran
            · simp only [if_neg plain, if_neg dictionary, pure_bind] at ran
              obtain ⟨raw, inflated, ran⟩ := ok_of_bind ran
              by_cases room : buf.length <
                  offset + (offset + 2 + 4 - offset + raw.bytesConsumed + 4)
              · rw [if_pos room] at ran
                cases ran
              · rw [if_neg room] at ran
                refine ⟨cmf, flg, raw, first, second, method, check,
                  .inr (Nat.not_lt.mp dictionary), ?_⟩
                rw [if_neg plain]
                exact ⟨inflated, Nat.not_lt.mp room, (Except.ok.inj ran).symm⟩
        · simp only [method, check, ne_eq, not_true_eq_false, if_false,
            not_false_eq_true, if_true] at ran
          cases ran
      · simp only [method, ne_eq, not_false_eq_true, if_true] at ran
        cases ran
    · cases ran
  · rintro ⟨cmf, flg, raw, first, second, method, check, dictionary, inflated,
      room, rfl⟩
    simp only [first, second, method, check, ne_eq, not_true_eq_false, if_false]
    by_cases plain : flg.toNat &&& 0x20 = 0
    · rw [if_pos plain] at inflated room ⊢
      simp only [if_pos plain, pure, Except.pure, bind, Except.bind, inflated,
        if_neg (Nat.not_lt.mpr room)]
    · rw [if_neg plain] at inflated room ⊢
      have present := dictionary.resolve_left plain
      simp only [if_neg plain, if_neg (Nat.not_lt.mpr present), pure,
        Except.pure, bind, Except.bind, inflated,
        if_neg (Nat.not_lt.mpr room)]

theorem inflateZlibAt_reads {buf : List UInt8} {offset : Nat}
    {result : InflateResult} (ran : inflateZlibAt buf offset = .ok result) :
    ZlibReads buf offset result := by
  obtain ⟨cmf, flg, raw, first, second, method, check, dictionary, inflated,
    room, rfl⟩ := inflateZlibAt_iff.mp ran
  obtain ⟨body, tail, inside, found, stream, length⟩ := inflateRawAt_inv inflated
  have later : offset + 2 ≤ deflateStart flg offset := by
    unfold deflateStart
    split <;> omega
  constructor
  · show 6 ≤ deflateStart flg offset - offset + raw.bytesConsumed + 4
    omega
  · exact room
  · intro other same size
    have fits : offset +
        (deflateStart flg offset - offset + raw.bytesConsumed + 4) ≤
          other.length := size
    have stop : offset +
        (deflateStart flg offset - offset + raw.bytesConsumed + 4) - 4 =
          deflateStart flg offset + body.length := by
      omega
    simp only [stop] at same
    obtain ⟨rest, split⟩ :=
      SameBytes.split found (same.within (by omega) (Nat.le_refl _))
    have again := inflateRawAt_clipped split (by omega) stream
    rw [length] at again
    apply inflateZlibAt_iff.mpr
    refine ⟨cmf, flg, raw, ?_, ?_, method, check, ?_, again, fits, rfl⟩
    · rw [same offset (Nat.le_refl _) (by omega), first]
    · rw [same (offset + 1) (by omega) (by omega), second]
    · by_cases plain : flg.toNat &&& 0x20 = 0
      · exact .inl plain
      · right
        have start : deflateStart flg offset = offset + 2 + 4 := by
          unfold deflateStart
          exact if_neg plain
        omega

/-- A loop over the bytes at a position reads a front of them only. -/
def ReadsFront {Value : Type} (loop : List UInt8 → Except PackError (Value × Nat))
    (offset : Nat) : Prop :=
  ∀ rest value next, loop rest = .ok (value, next) →
    ∃ bytes tail, rest = bytes ++ tail ∧ next = offset + bytes.length ∧
      ∀ other, loop (bytes ++ other) = .ok (value, next)

theorem readSizeTail_reads (byte : UInt8) (size : Option Nat)
    (shift offset : Nat) :
    ReadsFront (readSizeTail byte size shift offset) offset := by
  intro rest
  induction rest generalizing byte size shift offset with
  | nil =>
      intro value next ran
      rw [readSizeTail] at ran
      split at ran
      · rename_i final
        obtain ⟨rfl, rfl⟩ := Prod.mk.inj (Except.ok.inj ran)
        refine ⟨[], [], rfl, rfl, fun other => ?_⟩
        cases other <;> simp [readSizeTail, final]
      · cases ran
  | cons following rest ih =>
      intro value next ran
      rw [readSizeTail] at ran
      split at ran
      · rename_i final
        obtain ⟨rfl, rfl⟩ := Prod.mk.inj (Except.ok.inj ran)
        refine ⟨[], _, rfl, rfl, fun other => ?_⟩
        cases other <;> simp [readSizeTail, final]
      · rename_i continued
        obtain ⟨bytes, tail, rfl, rfl, again⟩ := ih _ _ _ _ _ _ ran
        refine ⟨following :: bytes, tail, rfl, ?_, fun other => ?_⟩
        · rw [List.length_cons]
          omega
        · rw [List.cons_append, readSizeTail, if_neg continued]
          exact again other

theorem readOffsetTail_reads (byte : UInt8) (value offset : Nat) :
    ReadsFront (readOffsetTail byte value offset) offset := by
  intro rest
  induction rest generalizing byte value offset with
  | nil =>
      intro result next ran
      rw [readOffsetTail] at ran
      split at ran
      · rename_i final
        obtain ⟨rfl, rfl⟩ := Prod.mk.inj (Except.ok.inj ran)
        refine ⟨[], [], rfl, rfl, fun other => ?_⟩
        cases other <;> simp [readOffsetTail, final]
      · cases ran
  | cons following rest ih =>
      intro result next ran
      rw [readOffsetTail] at ran
      split at ran
      · rename_i final
        obtain ⟨rfl, rfl⟩ := Prod.mk.inj (Except.ok.inj ran)
        refine ⟨[], _, rfl, rfl, fun other => ?_⟩
        cases other <;> simp [readOffsetTail, final]
      · rename_i continued
        obtain ⟨bytes, tail, rfl, rfl, again⟩ := ih _ _ _ _ _ ran
        refine ⟨following :: bytes, tail, rfl, ?_, fun other => ?_⟩
        · rw [List.length_cons]
          omega
        · rw [List.cons_append, readOffsetTail, if_neg continued]
          exact again other

variable {pack : List UInt8}

theorem readObjectHeader_reads {offset : Nat} {header : ObjectHeader}
    (ran : readObjectHeader pack offset = .ok header) :
    offset < header.next ∧ ∀ other, SameBytes pack other offset header.next →
      readObjectHeader other offset = .ok header := by
  unfold readObjectHeader at ran
  split at ran
  · cases ran
  rename_i byte rest found
  obtain ⟨⟨size, next⟩, tailRead, ran⟩ := ok_of_bind ran
  obtain rfl := Except.ok.inj ran
  obtain ⟨bytes, tail, rfl, rfl, again⟩ :=
    readSizeTail_reads _ _ _ _ _ _ _ tailRead
  refine ⟨by show offset < offset + 1 + bytes.length; omega, ?_⟩
  intro other same
  have front : pack.drop offset = (byte :: bytes) ++ tail := found
  obtain ⟨others, split⟩ := SameBytes.split front (same.within (Nat.le_refl _)
    (by
      show offset + (byte :: bytes).length ≤ offset + 1 + bytes.length
      rw [List.length_cons]
      omega))
  rw [List.cons_append] at split
  simp only [readObjectHeader, split, again, bind, Except.bind]
  rfl

theorem readOffsetVarint_reads {offset value next : Nat}
    (ran : readOffsetVarint pack offset = .ok (value, next)) :
    offset < next ∧ ∀ other, SameBytes pack other offset next →
      readOffsetVarint other offset = .ok (value, next) := by
  unfold readOffsetVarint at ran
  split at ran
  · cases ran
  rename_i byte rest found
  obtain ⟨bytes, tail, rfl, rfl, again⟩ :=
    readOffsetTail_reads _ _ _ _ _ _ ran
  refine ⟨by omega, ?_⟩
  intro other same
  have front : pack.drop offset = (byte :: bytes) ++ tail := found
  obtain ⟨others, split⟩ := SameBytes.split front (same.within (Nat.le_refl _)
    (by rw [List.length_cons]; omega))
  rw [List.cons_append] at split
  simp only [readOffsetVarint, split, again]

theorem readBaseReference_reads {start typeNum cursor : Nat}
    {reference : Int × Text × Nat}
    (ran : readBaseReference pack start typeNum cursor = .ok reference) :
    cursor ≤ reference.2.2 ∧ ∀ other,
      SameBytes pack other cursor reference.2.2 →
      reference.2.2 ≤ other.length →
        readBaseReference other start typeNum cursor = .ok reference := by
  unfold readBaseReference at ran
  split at ran
  · rename_i offset
    obtain ⟨⟨value, next⟩, varint, ran⟩ := ok_of_bind ran
    obtain ⟨later, reads⟩ := readOffsetVarint_reads varint
    simp only at ran
    split at ran
    · cases ran
    rename_i range
    obtain rfl := Except.ok.inj ran
    refine ⟨later.le, fun other same _ => ?_⟩
    simp only [readBaseReference, if_pos offset, reads other same, bind,
      Except.bind, if_neg range]
    rfl
  · rename_i offset
    split at ran
    · rename_i object
      split at ran
      · cases ran
      rename_i room
      obtain rfl := Except.ok.inj ran
      refine ⟨Nat.le_add_right _ _, fun other same size => ?_⟩
      have fits : cursor + 20 ≤ other.length := size
      have width : ((pack.drop cursor).take 20).length = 20 := by
        rw [List.length_take, List.length_drop]
        omega
      obtain ⟨others, split⟩ := @SameBytes.split pack other
        ((pack.drop cursor).take 20) ((pack.drop cursor).drop 20) cursor
        (List.take_append_drop 20 _).symm
        (same.within (Nat.le_refl _) (by rw [width]))
      have front : (other.drop cursor).take 20 = (pack.drop cursor).take 20 := by
        rw [split, List.take_left' width]
      rw [readBaseReference, if_neg offset, if_pos object,
        if_neg (Nat.not_lt.mpr fits), front]
    · rename_i object
      split at ran
      · cases ran
      rename_i known
      obtain rfl := Except.ok.inj ran
      refine ⟨Nat.le_refl _, fun other _ _ => ?_⟩
      rw [readBaseReference, if_neg offset, if_neg object, if_neg known]

theorem parseEntry_reads {start next : Nat} {entry : PackEntry}
    (ran : parseEntry pack start = .ok (entry, next)) :
    start + 4 < next ∧ next ≤ pack.length ∧ ∀ other,
      SameBytes pack other start (next - 4) → next ≤ other.length →
        parseEntry other start = .ok (entry, next) := by
  unfold parseEntry at ran
  obtain ⟨header, headerRead, ran⟩ := ok_of_bind ran
  obtain ⟨⟨baseOffset, baseSha, cursor⟩, referenceRead, ran⟩ := ok_of_bind ran
  obtain ⟨inflated, streamRead, ran⟩ := ok_of_bind ran
  obtain ⟨afterStart, headerReads⟩ := readObjectHeader_reads headerRead
  obtain ⟨afterHeader, referenceReads⟩ := readBaseReference_reads referenceRead
  cases stream : inflateZlibAt pack cursor with
  | error error => rw [stream] at streamRead; cases streamRead
  | ok result =>
      rw [stream] at streamRead
      obtain rfl : result = inflated := Except.ok.inj streamRead
      have zlib := inflateZlibAt_reads stream
      have room := zlib.room
      simp only at ran afterHeader
      split at ran
      · cases ran
      rename_i size
      obtain ⟨rfl, rfl⟩ := Prod.mk.inj (Except.ok.inj ran)
      refine ⟨by omega, zlib.inside, fun other same fits => ?_⟩
      have header' := headerReads other
        (same.within (Nat.le_refl _) (by omega))
      have reference' := referenceReads other
        (same.within (by omega) (by simp only; omega)) (by simp only; omega)
      have stream' := zlib.reads other
        (same.within (by omega) (Nat.le_refl _)) fits
      simp only [parseEntry, header', reference', stream', Except.mapError, bind,
        Except.bind, if_neg size]
      rfl

/-- The same bytes, except for the four before each of some positions. -/
def SameBut (ends : List Nat) (buf other : List UInt8) (start stop : Nat) :
    Prop :=
  ∀ i, start ≤ i → i < stop → (∀ last ∈ ends, i + 4 < last ∨ last ≤ i) →
    other[i]? = buf[i]?

/-- Where the entries of a pack end, in order, each after its checksum. -/
structure EntryEnds (start stop : Nat) (ends : List Nat) : Prop where
  later : ∀ last ∈ ends, start + 4 < last ∧ last ≤ stop
  ordered : ends.Pairwise fun last next => last + 4 < next

theorem parseEntries_reads (count : Nat) {parsed result : ParsedPack}
    (ran : parseEntries pack count parsed = .ok result) :
    ∃ ends, ends.length = count ∧
      result.entries.length = parsed.entries.length + count ∧
      parsed.cursor ≤ result.cursor ∧
      EntryEnds parsed.cursor result.cursor ends ∧
      ∀ other, SameBut ends pack other parsed.cursor result.cursor →
        result.cursor ≤ other.length →
          parseEntries other count parsed = .ok result := by
  induction count generalizing parsed with
  | zero =>
      obtain rfl := Except.ok.inj ran
      exact ⟨[], rfl, rfl, Nat.le_refl _, ⟨by simp, .nil⟩, fun _ _ _ => rfl⟩
  | succ count ih =>
      rw [parseEntries] at ran
      obtain ⟨⟨entry, next⟩, entryRead, ran⟩ := ok_of_bind ran
      obtain ⟨further, _, reads⟩ := parseEntry_reads entryRead
      obtain ⟨ends, length, entries, within, entryEnds, rest⟩ := ih ran
      have after : next ≤ result.cursor := within
      refine ⟨next :: ends, by rw [List.length_cons, length], ?_, by omega,
        ⟨?_, ?_⟩, ?_⟩
      · rw [entries, List.length_append, List.length_singleton]
        omega
      · intro last member
        rcases List.mem_cons.mp member with rfl | behind
        · exact ⟨further, after⟩
        · have bounds := entryEnds.later last behind
          simp only at bounds
          omega
      · apply List.pairwise_cons.mpr
        exact ⟨fun last member => (entryEnds.later last member).1,
          entryEnds.ordered⟩
      · intro other same fits
        have first : parseEntry other parsed.cursor = .ok (entry, next) := by
          apply reads other _ (by omega)
          intro i low high
          apply same i low (by omega)
          intro last member
          rcases List.mem_cons.mp member with rfl | behind
          · omega
          · have bounds := entryEnds.later last behind
            simp only at bounds
            omega
        have others := rest other (by
          intro i low high free
          have beyond : next ≤ i := low
          apply same i (by omega) high
          intro last member
          rcases List.mem_cons.mp member with rfl | behind
          · exact .inr beyond
          · exact free last behind) fits
        rw [parseEntries, first]
        exact others

theorem validateHeader_reads {count : Nat}
    (ran : validateHeader pack = .ok count) :
    12 ≤ pack.length ∧ ∀ other, SameBytes pack other 0 12 →
      12 ≤ other.length → validateHeader other = .ok count := by
  by_cases short : pack.length < 12
  · rw [validateHeader, if_pos short] at ran
    cases ran
  · refine ⟨Nat.not_lt.mp short, fun other same size => ?_⟩
    have width : (pack.take 12).length = 12 :=
      List.length_take_of_le (Nat.not_lt.mp short)
    obtain ⟨rest, split⟩ := @SameBytes.split pack other (pack.take 12)
      (pack.drop 12) 0 (by rw [List.drop_zero, List.take_append_drop])
      (by rw [width]; exact same)
    rw [List.drop_zero] at split
    have front : other.take 12 = pack.take 12 := by
      rw [split, List.take_left' width]
    have piece : ∀ place count, place + count ≤ 12 →
        (other.drop place).take count = (pack.drop place).take count := by
      intro place count bound
      have cut : ∀ bytes : List UInt8, (bytes.drop place).take count =
          ((bytes.take 12).drop place).take count := by
        intro bytes
        rw [List.drop_take, List.take_take, Nat.min_eq_left (by omega)]
      rw [cut other, cut pack, front]
    have magic := piece 0 4 (by omega)
    have version := piece 4 4 (by omega)
    have number := piece 8 4 (by omega)
    rw [List.drop_zero, List.drop_zero] at magic
    rw [validateHeader, if_neg short] at ran
    rw [validateHeader, if_neg (Nat.not_lt.mpr size), magic, version, number]
    exact ran

section

variable {digest : List UInt8 → List UInt8}
variable {resolveExternalBase : Option (Text → Option (List UInt8))}

theorem resolveAll_ids {entries : List PackEntry}
    {byOffset : OrderedMap Int Nat} (remaining i : Nat) {state : ResolveState}
    {objects : List UnpackedObject}
    (ran : resolveAll digest resolveExternalBase entries byOffset remaining i
      state = .ok objects) :
    objects.length = remaining ∧ ∀ object ∈ objects,
      object.sha = hashObject digest object.type object.content := by
  induction remaining generalizing i state objects with
  | zero =>
      obtain rfl := Except.ok.inj ran
      exact ⟨rfl, by simp⟩
  | succ remaining ih =>
      rw [resolveAll] at ran
      obtain ⟨⟨object, next⟩, _, ran⟩ := ok_of_bind ran
      obtain ⟨others, resolved, ran⟩ := ok_of_bind ran
      obtain rfl := Except.ok.inj ran
      obtain ⟨length, ids⟩ := ih _ resolved
      refine ⟨by rw [List.length_cons, length], ?_⟩
      intro other member
      rcases List.mem_cons.mp member with rfl | behind
      · rfl
      · exact ids other behind

end

/-- What a pack is read to does not depend on the checksums of its streams and
on what follows its entries. -/
structure PackReads (digest : List UInt8 → List UInt8)
    (resolveExternalBase : Option (Text → Option (List UInt8)))
    (pack : List UInt8) (objects : List UnpackedObject) : Prop where
  ids : ∀ object ∈ objects,
    object.sha = hashObject digest object.type object.content
  reads : ∃ stop ends, ends.length = objects.length ∧
    stop + 20 ≤ pack.length ∧ EntryEnds 12 stop ends ∧
    ∀ other, SameBut ends pack other 0 stop → stop + 20 ≤ other.length →
      readPack digest resolveExternalBase other = .ok objects

theorem readPack_reads {digest : List UInt8 → List UInt8}
    {resolveExternalBase : Option (Text → Option (List UInt8))}
    {objects : List UnpackedObject}
    (accepted : readPack digest resolveExternalBase pack = .ok objects) :
    PackReads digest resolveExternalBase pack objects := by
  unfold readPack at accepted
  obtain ⟨count, header, accepted⟩ := ok_of_bind accepted
  obtain ⟨parsed, entries, accepted⟩ := ok_of_bind accepted
  simp only at accepted
  split at accepted
  · cases accepted
  rename_i room
  obtain ⟨_, headerReads⟩ := validateHeader_reads header
  obtain ⟨ends, length, size, within, entryEnds, reads⟩ :=
    parseEntries_reads count entries
  obtain ⟨all, ids⟩ := resolveAll_ids _ _ accepted
  have start : 12 ≤ parsed.cursor := within
  have total : parsed.entries.length = count := by
    rw [size]
    exact Nat.zero_add count
  refine ⟨ids, parsed.cursor, ends, by rw [length, all, total],
    Nat.not_lt.mp room, entryEnds, ?_⟩
  intro other same fits
  have header' : validateHeader other = .ok count := by
    apply headerReads other _ (by omega)
    intro i low high
    apply same i low (by omega)
    intro last member
    have bounds := entryEnds.later last member
    simp only at bounds
    omega
  have entries' := reads other (by
    intro i low high free
    exact same i (Nat.zero_le i) high free) (by omega)
  simp only [readPack, header', entries', bind, Except.bind,
    if_neg (Nat.not_lt.mpr fits)]
  exact accepted

/-- Neither checksum is compared with anything. -/
theorem checksums_skipped :
    (∀ buf offset result, inflateZlibAt buf offset = .ok result →
      ZlibReads buf offset result) ∧
    ∀ digest resolveExternalBase pack objects,
      readPack digest resolveExternalBase pack = .ok objects →
        PackReads digest resolveExternalBase pack objects :=
  ⟨fun _ _ _ => inflateZlibAt_reads, fun _ _ _ _ => readPack_reads⟩

/-- The header of a pack without entries. -/
def emptyPack : List UInt8 := [0x50, 0x41, 0x43, 0x4b, 0, 0, 0, 2, 0, 0, 0, 0]

/-- The digest of that header. -/
def emptyDigest (_ : List UInt8) : List UInt8 :=
  [0x02, 0x9d, 0x08, 0x82, 0x3b, 0xd8, 0xa8, 0xea, 0xb5, 0x10, 0xad, 0x6a,
    0xc7, 0x5c, 0x82, 0x3c, 0xfd, 0x3e, 0xd3, 0x1e]

/-- A pack whose trailer is all zeros is accepted. -/
theorem trailer_unchecked :
    ¬ ∀ digest resolveExternalBase pack objects,
      readPack digest resolveExternalBase pack = .ok objects →
        pack.drop (pack.length - 20) =
          digest (pack.take (pack.length - 20)) := by
  intro every
  have checked := every emptyDigest none (emptyPack ++ List.replicate 20 0) []
    (by decide)
  revert checked
  decide

end Takos.Packs
