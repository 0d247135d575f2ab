import Takos.Foundation.OrderedMap
import Takos.Foundation.Text
import Takos.Foundation.Decimals
import Mathlib.Data.List.Dedup
import Mathlib.Logic.Equiv.List
import Mathlib.Tactic.Choose

/-!
# Archived run events

Events leave the notifier in segments of one hundred ids.  A segment is one
object of the bucket, a compressed text with one line for each event.
-/

namespace Takos.Offload

open Takos.Foundation

structure PersistedRunEvent where
  eventId : Nat
  type : Text
  data : Text
  createdAt : Text
  deriving DecidableEq

def runEventSegmentSize : Nat := 100

def maxDecompressedBytes : Nat := 200 * 1024 * 1024

/-- The line format and the compression.  A line is a JSON object, so it has
no line break and no white space at its ends. -/
structure SegmentCodec (Object : Type) where
  stringify : PersistedRunEvent → Text
  parse : Text → Option PersistedRunEvent
  compress : Text → Object
  decompress : Nat → Object → Option Text
  parse_stringify : ∀ event, parse (stringify event) = some event
  stringify_line : ∀ event, '\n' ∉ stringify event
  stringify_trim : ∀ event, Text.trim (stringify event) = stringify event
  stringify_ne_nil : ∀ event, stringify event ≠ []
  decompress_compress : ∀ limit text, Text.encodedSize text ≤ limit →
    decompress limit (compress text) = some text

abbrev OffloadBucket (Object : Type) := OrderedMap Text Object

def pad6 (n : Nat) : Text := Text.padStart 6 '0' (Nat.toDigits 10 n)

def segmentIndexForEventId (eventId : Nat) : Nat :=
  if eventId = 0 then 1 else (eventId - 1) / runEventSegmentSize + 1

def eventsPrefix (runId : Text) : Text :=
  "runs/".toList ++ runId ++ "/events/".toList

def segmentSuffix : Text := ".jsonl.gz".toList

def buildRunEventSegmentKey (runId : Text) (segmentIndex : Nat) : Text :=
  eventsPrefix runId ++ pad6 segmentIndex ++ segmentSuffix

/-- The digits between the prefix and the suffix. -/
def parseSegmentIndexFromKey (key keyPrefix : Text) : Option Nat :=
  if !Text.startsWith key keyPrefix then none
  else
    let rest := key.drop keyPrefix.length
    let digits := rest.takeWhile Char.isDigit
    if digits ≠ [] ∧ rest.drop digits.length = segmentSuffix then
      let n := Nat.ofDigitChars 10 digits 0
      if n = 0 then none else some n
    else none

section Bucket

variable {Object : Type} (codec : SegmentCodec Object)

def segmentText (events : List PersistedRunEvent) : Text :=
  Text.join '\n' (events.map codec.stringify) ++ ['\n']

def writeRunEventSegmentToR2 (bucket : OffloadBucket Object) (runId : Text)
    (segmentIndex : Nat) (events : List PersistedRunEvent) :
    OffloadBucket Object :=
  bucket.set (buildRunEventSegmentKey runId segmentIndex)
    (codec.compress (segmentText codec events))

/-- The pages of the listing are one list; each index counts once. -/
def listRunEventSegmentIndexes (bucket : OffloadBucket Object)
    (runId : Text) : List Nat :=
  let keyPrefix := eventsPrefix runId
  let indexes := (bucket.keys.filter fun key =>
    Text.startsWith key keyPrefix).filterMap fun key =>
      parseSegmentIndexFromKey key keyPrefix
  indexes.dedup.mergeSort (· ≤ ·)

inductive SegmentReadError where
  | tooLarge

/-- Lines that are empty or malformed are skipped. -/
def readRunEventSegmentFromR2 (bucket : OffloadBucket Object) (runId : Text)
    (segmentIndex : Nat) :
    Except SegmentReadError (Option (List PersistedRunEvent)) :=
  match bucket.get? (buildRunEventSegmentKey runId segmentIndex) with
  | none => .ok none
  | some object =>
    match codec.decompress maxDecompressedBytes object with
    | none => .error .tooLarge
    | some jsonl =>
      let events := (Text.split '\n' jsonl).filterMap fun line =>
        let trimmed := Text.trim line
        if trimmed = [] then none else codec.parse trimmed
      .ok (some (events.mergeSort fun left right =>
        left.eventId ≤ right.eventId))

/-- One segment of the scan; the flag tells that the limit is reached. -/
def scanSegment (afterEventId : Int) (limit : Nat)
    (out : List PersistedRunEvent) :
    List PersistedRunEvent → List PersistedRunEvent × Bool
  | [] => (out, false)
  | event :: rest =>
    if (event.eventId : Int) ≤ afterEventId then
      scanSegment afterEventId limit out rest
    else
      let out := out ++ [event]
      if out.length ≥ limit then (out, true)
      else scanSegment afterEventId limit out rest

def scanSegments (bucket : OffloadBucket Object) (runId : Text)
    (afterEventId : Int) (limit : Nat) (out : List PersistedRunEvent) :
    List Nat → Except SegmentReadError (List PersistedRunEvent)
  | [] => .ok out
  | index :: rest =>
    match readRunEventSegmentFromR2 codec bucket runId index with
    | .error error => .error error
    | .ok none => scanSegments bucket runId afterEventId limit out rest
    | .ok (some segment) =>
      let scanned := scanSegment afterEventId limit out segment
      if scanned.2 then .ok scanned.1
      else scanSegments bucket runId afterEventId limit scanned.1 rest

def getRunEventsAfterFromR2 (bucket : OffloadBucket Object) (runId : Text)
    (afterEventId : Int) (limit : Nat) :
    Except SegmentReadError (List PersistedRunEvent) :=
  let startSegment := (max 0 afterEventId).toNat / runEventSegmentSize + 1
  let segmentIndexes := (listRunEventSegmentIndexes bucket runId).filter
    fun index => startSegment ≤ index
  scanSegments codec bucket runId afterEventId limit [] segmentIndexes

end Bucket

end Takos.Offload

/-!
# Reading archived segments

Every object under the prefix of a run is a segment that was written whole.
Reading from an id on then gives the archived events with later ids, in the
order of the ids, as far as the limit allows.
-/

namespace Takos.Offload

open Takos.Foundation

theorem pad6_digits (n : Nat) : ∀ char ∈ pad6 n, char.isDigit = true := by
  intro char member
  cases List.mem_append.mp member with
  | inl zero =>
      rw [List.eq_of_mem_replicate zero]
      rfl
  | inr digit =>
      exact Nat.isDigit_of_mem_toDigits (by decide) (by decide) digit

theorem pad6_value (n : Nat) : Nat.ofDigitChars 10 (pad6 n) 0 = n := by
  rw [pad6, Text.padStart, Nat.ofDigitChars_append,
    Nat.ofDigitChars_replicate_zero, Nat.mul_zero,
    Nat.ofDigitChars_ten_toDigits]

theorem pad6_ne_nil (n : Nat) : pad6 n ≠ [] := by
  intro empty
  exact Nat.toDigits_ne_nil (List.append_eq_nil_iff.mp empty).2

theorem startsWith_key (runId : Text) (index : Nat) :
    Text.startsWith (buildRunEventSegmentKey runId index)
      (eventsPrefix runId) = true := by
  rw [Text.startsWith, List.isPrefixOf_iff_prefix, buildRunEventSegmentKey,
    List.append_assoc]
  exact List.prefix_append _ _

theorem parse_key (runId : Text) {index : Nat} (positive : 0 < index) :
    parseSegmentIndexFromKey (buildRunEventSegmentKey runId index)
      (eventsPrefix runId) = some index := by
  have rest : (buildRunEventSegmentKey runId index).drop
      (eventsPrefix runId).length = pad6 index ++ segmentSuffix := by
    rw [buildRunEventSegmentKey, List.append_assoc, List.drop_left]
  have digits : (pad6 index ++ segmentSuffix).takeWhile Char.isDigit =
      pad6 index := by
    rw [List.takeWhile_append_of_pos (pad6_digits index)]
    have stops : segmentSuffix.takeWhile Char.isDigit = [] := rfl
    rw [stops, List.append_nil]
  have nonzero : index ≠ 0 := Nat.ne_of_gt positive
  rw [parseSegmentIndexFromKey, startsWith_key]
  simp only [Bool.not_true, Bool.false_eq_true, if_false, rest, digits,
    List.drop_left, pad6_ne_nil, ne_eq, not_false_eq_true, and_self, if_true,
    pad6_value, nonzero]

section Segments

variable {Object : Type} {codec : SegmentCodec Object}

/-- The object of this segment holds exactly these events. -/
def Archived (codec : SegmentCodec Object) (bucket : OffloadBucket Object)
    (runId : Text) (index : Nat) (events : List PersistedRunEvent) : Prop :=
  bucket.get? (buildRunEventSegmentKey runId index) =
    some (codec.compress (segmentText codec events))

/-- Events as one segment holds them. -/
structure Segment (index : Nat) (events : List PersistedRunEvent) : Prop where
  nonempty : events ≠ []
  ascending : events.Pairwise fun left right => left.eventId < right.eventId
  home : ∀ event ∈ events, 0 < event.eventId ∧
    segmentIndexForEventId event.eventId = index

theorem segmentText_lines (events : List PersistedRunEvent) :
    ((Text.split '\n' (segmentText codec events)).filterMap fun line =>
      let trimmed := Text.trim line
      if trimmed = [] then none else codec.parse trimmed) = events := by
  have lines : Text.split '\n' (segmentText codec events) =
      Text.split '\n' (Text.join '\n' (events.map codec.stringify)) ++ [[]] := by
    rw [segmentText, Text.split_append_cons]
    rfl
  have parsed : ∀ listed : List PersistedRunEvent,
      ((listed.map codec.stringify).filterMap fun line =>
        let trimmed := Text.trim line
        if trimmed = [] then none else codec.parse trimmed) = listed := by
    intro listed
    induction listed with
    | nil => rfl
    | cons event rest ih =>
        simp only [List.map_cons, List.filterMap_cons, codec.stringify_trim,
          codec.stringify_ne_nil, if_false, codec.parse_stringify]
        exact congrArg _ ih
  have last : ([[]] : List Text).filterMap (fun line =>
      let trimmed := Text.trim line
      if trimmed = [] then none else codec.parse trimmed) = [] := rfl
  rw [lines, List.filterMap_append, last, List.append_nil]
  cases events with
  | nil => rfl
  | cons event rest =>
      rw [Text.split_join]
      · exact parsed (event :: rest)
      · intro line member
        obtain ⟨stored, _, same⟩ := List.mem_map.mp member
        rw [← same]
        exact codec.stringify_line stored
      · exact List.cons_ne_nil _ _

variable {bucket : OffloadBucket Object} {runId : Text} {index : Nat}
  {events : List PersistedRunEvent}

theorem Archived.read (archived : Archived codec bucket runId index events)
    (small : Text.encodedSize (segmentText codec events) ≤ maxDecompressedBytes) :
    readRunEventSegmentFromR2 codec bucket runId index =
      .ok (some (events.mergeSort fun left right =>
        left.eventId ≤ right.eventId)) := by
  rw [Archived] at archived
  simp only [readRunEventSegmentFromR2, archived,
    codec.decompress_compress _ _ small]
  have lines := @segmentText_lines Object codec events
  dsimp only at lines
  rw [lines]

theorem Segment.sorted (segment : Segment index events) :
    events.mergeSort (fun left right => left.eventId ≤ right.eventId) =
      events := by
  apply List.mergeSort_of_pairwise
  apply segment.ascending.imp
  intro left right before
  exact decide_eq_true (Nat.le_of_lt before)

theorem Archived.unique {others : List PersistedRunEvent}
    (archived : Archived codec bucket runId index events)
    (again : Archived codec bucket runId index others) : events = others := by
  have same : some (codec.compress (segmentText codec events)) =
      some (codec.compress (segmentText codec others)) :=
    archived.symm.trans again
  have texts : segmentText codec events = segmentText codec others := by
    have first := codec.decompress_compress
      (max (Text.encodedSize (segmentText codec events))
        (Text.encodedSize (segmentText codec others)))
      (segmentText codec events) (Nat.le_max_left _ _)
    have second := codec.decompress_compress
      (max (Text.encodedSize (segmentText codec events))
        (Text.encodedSize (segmentText codec others)))
      (segmentText codec others) (Nat.le_max_right _ _)
    rw [Option.some.inj same, second] at first
    exact (Option.some.inj first).symm
  have lines := @segmentText_lines Object codec events
  rw [← lines, texts, segmentText_lines]

end Segments

section Scan

variable (afterEventId : Int) (limit : Nat)

def laterThan (event : PersistedRunEvent) : Bool :=
  afterEventId < event.eventId

theorem laterThan_iff {event : PersistedRunEvent} :
    laterThan afterEventId event = true ↔ afterEventId < event.eventId :=
  decide_eq_true_iff

theorem scanSegment_eq (segment out : List PersistedRunEvent)
    (room : out.length < limit) :
    scanSegment afterEventId limit out segment =
      if limit ≤ (out ++ segment.filter (laterThan afterEventId)).length then
        ((out ++ segment.filter (laterThan afterEventId)).take limit, true)
      else (out ++ segment.filter (laterThan afterEventId), false) := by
  induction segment generalizing out with
  | nil =>
      rw [scanSegment, List.filter_nil, List.append_nil, if_neg (by omega)]
  | cons event rest ih =>
      by_cases later : laterThan afterEventId event = true
      · have after : ¬(event.eventId : Int) ≤ afterEventId :=
          Int.not_le.mpr ((laterThan_iff afterEventId).mp later)
        have shape : out ++ event :: rest.filter (laterThan afterEventId) =
            (out ++ [event]) ++ rest.filter (laterThan afterEventId) := by simp
        rw [scanSegment, if_neg after, List.filter_cons_of_pos later, shape]
        by_cases full : limit ≤ (out ++ [event]).length
        · have exact : (out ++ [event]).length = limit := by
            simp only [List.length_append, List.length_singleton] at full ⊢
            omega
          rw [if_pos full, if_pos (by rw [List.length_append]; omega),
            List.take_append_of_le_length (by omega),
            List.take_of_length_le (by omega)]
        · dsimp only
          rw [if_neg full]
          exact ih (out ++ [event]) (by omega)
      · have before : (event.eventId : Int) ≤ afterEventId :=
          Int.not_lt.mp fun after =>
            later ((laterThan_iff afterEventId).mpr after)
        rw [scanSegment, if_pos before, List.filter_cons_of_neg later]
        exact ih out room

variable {Object : Type} (codec : SegmentCodec Object)
  (bucket : OffloadBucket Object) (runId : Text)

theorem scanSegments_eq (segmentOf : Nat → List PersistedRunEvent)
    (indexes : List Nat)
    (reads : ∀ index ∈ indexes,
      readRunEventSegmentFromR2 codec bucket runId index =
        .ok (some (segmentOf index)))
    (out : List PersistedRunEvent) (room : out.length < limit) :
    scanSegments codec bucket runId afterEventId limit out indexes =
      .ok ((out ++ (indexes.flatMap segmentOf).filter
        (laterThan afterEventId)).take limit) := by
  induction indexes generalizing out with
  | nil =>
      rw [scanSegments, List.flatMap_nil, List.filter_nil, List.append_nil,
        List.take_of_length_le (Nat.le_of_lt room)]
  | cons index rest ih =>
      have scanned := scanSegment_eq afterEventId limit (segmentOf index) out
        room
      simp only [scanSegments, reads index List.mem_cons_self, scanned,
        List.flatMap_cons, List.filter_append]
      split
      · next full =>
          rw [if_pos rfl, ← List.append_assoc,
            List.take_append_of_le_length full]
      · next open_ =>
          rw [if_neg Bool.false_ne_true]
          rw [← List.append_assoc]
          exact ih (fun index member => reads index
            (List.mem_cons_of_mem _ member)) _ (Nat.lt_of_not_le open_)

end Scan

section Archive

variable {Object : Type} {codec : SegmentCodec Object}
  {bucket : OffloadBucket Object} {runId : Text}

/-- Nothing but whole segments under the prefix of the run. -/
def WellArchived (codec : SegmentCodec Object)
    (bucket : OffloadBucket Object) (runId : Text) : Prop :=
  ∀ key ∈ bucket.keys, Text.startsWith key (eventsPrefix runId) = true →
    ∃ index events, key = buildRunEventSegmentKey runId index ∧ 0 < index ∧
      Archived codec bucket runId index events ∧ Segment index events

theorem mem_indexes (well : WellArchived codec bucket runId) {index : Nat}
    (member : index ∈ listRunEventSegmentIndexes bucket runId) :
    ∃ events, Archived codec bucket runId index events ∧
      Segment index events := by
  simp only [listRunEventSegmentIndexes, List.mem_mergeSort, List.mem_dedup,
    List.mem_filterMap, List.mem_filter] at member
  obtain ⟨key, ⟨stored, starts⟩, parsed⟩ := member
  obtain ⟨written, events, shape, positive, archived, segment⟩ :=
    well key stored starts
  rw [shape, parse_key runId positive] at parsed
  cases parsed
  exact ⟨events, archived, segment⟩

theorem indexes_mem {index : Nat} (positive : 0 < index)
    {events : List PersistedRunEvent}
    (archived : Archived codec bucket runId index events) :
    index ∈ listRunEventSegmentIndexes bucket runId := by
  simp only [listRunEventSegmentIndexes, List.mem_mergeSort, List.mem_dedup,
    List.mem_filterMap, List.mem_filter]
  refine ⟨buildRunEventSegmentKey runId index, ⟨?_, startsWith_key _ _⟩,
    parse_key runId positive⟩
  exact OrderedMap.mem_keys_iff.mpr
    ⟨_, OrderedMap.get?_eq_some_iff.mp archived⟩

theorem key_injective {left right : Nat}
    (same : buildRunEventSegmentKey runId left =
      buildRunEventSegmentKey runId right) : left = right := by
  rw [buildRunEventSegmentKey, buildRunEventSegmentKey] at same
  have pads := List.append_cancel_left (List.append_cancel_right same)
  rw [← pad6_value left, pads, pad6_value]

theorem Archived.positive (well : WellArchived codec bucket runId)
    {index : Nat} {events : List PersistedRunEvent}
    (archived : Archived codec bucket runId index events) : 0 < index := by
  have stored := OrderedMap.mem_keys_iff.mpr
    ⟨_, OrderedMap.get?_eq_some_iff.mp archived⟩
  obtain ⟨other, _, shape, positive, _⟩ :=
    well _ stored (startsWith_key runId index)
  rw [key_injective shape]
  exact positive

theorem indexes_ascending (bucket : OffloadBucket Object) (runId : Text) :
    (listRunEventSegmentIndexes bucket runId).Pairwise (· < ·) := by
  have sorted : (listRunEventSegmentIndexes bucket runId).Pairwise
      fun left right => decide (left ≤ right) = true :=
    List.pairwise_mergeSort
      (fun left middle right => by simpa using Nat.le_trans)
      (fun left right => by simpa using Nat.le_total left right) _
  have unique : (listRunEventSegmentIndexes bucket runId).Nodup :=
    (List.mergeSort_perm _ _).nodup_iff.mpr (List.nodup_dedup _)
  apply (sorted.and unique).imp
  intro left right both
  exact Nat.lt_of_le_of_ne (of_decide_eq_true both.1) both.2

theorem segmentIndex_mono {left right : Nat} (order : left ≤ right) :
    segmentIndexForEventId left ≤ segmentIndexForEventId right := by
  simp only [segmentIndexForEventId, runEventSegmentSize]
  split <;> split <;> omega

/-- Reading gives the archived events after the id, in order, up to the
limit. -/
theorem getRunEventsAfterFromR2_eq (well : WellArchived codec bucket runId)
    (readable : ∀ index events, Archived codec bucket runId index events →
      Text.encodedSize (segmentText codec events) ≤ maxDecompressedBytes)
    (afterEventId : Int) (limit : Nat) (positive : 0 < limit) :
    ∃ all : List PersistedRunEvent, getRunEventsAfterFromR2 codec bucket runId afterEventId limit =
        .ok (all.take limit) ∧
      all.Pairwise (fun left right => left.eventId < right.eventId) ∧
      ∀ event, event ∈ all ↔ afterEventId < event.eventId ∧
        ∃ index events, Archived codec bucket runId index events ∧
          event ∈ events := by
  have found : ∀ index, ∃ events,
      index ∈ listRunEventSegmentIndexes bucket runId →
        Archived codec bucket runId index events ∧ Segment index events := by
    intro index
    by_cases listed : index ∈ listRunEventSegmentIndexes bucket runId
    · obtain ⟨events, both⟩ := mem_indexes well listed
      exact ⟨events, fun _ => both⟩
    · exact ⟨[], fun impossible => absurd impossible listed⟩
  choose segmentOf segments using found
  have listed : ∀ index ∈ (listRunEventSegmentIndexes bucket runId).filter
      (fun index => (max 0 afterEventId).toNat / runEventSegmentSize + 1 ≤
        index), index ∈ listRunEventSegmentIndexes bucket runId :=
    fun index member => (List.mem_filter.mp member).1
  have scanned := scanSegments_eq afterEventId limit codec bucket runId
    segmentOf _ (fun index member => by
      obtain ⟨archived, segment⟩ := segments index (listed index member)
      rw [archived.read (readable index _ archived), segment.sorted]) []
    positive
  refine ⟨_, scanned, ?_, ?_⟩
  · rw [List.nil_append]
    apply List.Pairwise.filter
    rw [List.pairwise_flatMap]
    constructor
    · intro index member
      exact (segments index (listed index member)).2.ascending
    · apply ((indexes_ascending bucket runId).filter _).imp_of_mem
      intro left right first second before event member other memberToo
      have home := (segments left (listed left first)).2.home event member
      have away := (segments right (listed right second)).2.home other memberToo
      by_contra order
      have mono := segmentIndex_mono (Nat.le_of_not_lt order)
      omega
  · intro event
    rw [List.nil_append, List.mem_filter, laterThan_iff, List.mem_flatMap]
    constructor
    · rintro ⟨⟨index, member, stored⟩, later⟩
      exact ⟨later, index, _, (segments index (listed index member)).1, stored⟩
    · rintro ⟨later, index, events, archived, stored⟩
      have positive := archived.positive well
      have member := indexes_mem positive archived
      obtain ⟨whole, segment⟩ := segments index member
      have same : events = segmentOf index :=
        archived.unique whole
      rw [same] at stored
      obtain ⟨_, home⟩ := segment.home event stored
      refine ⟨⟨index, List.mem_filter.mpr ⟨member, ?_⟩, stored⟩, later⟩
      apply decide_eq_true
      rw [← home]
      simp only [segmentIndexForEventId, runEventSegmentSize]
      split <;> omega

end Archive

/-! ### A codec

Every event is one number, and nothing is compressed. -/

namespace NumberedEvents

def codes (text : Text) : List Nat := text.map Char.toNat

def number (event : PersistedRunEvent) : Nat :=
  Encodable.encode (event.eventId, codes event.type, codes event.data,
    codes event.createdAt)

def textOf (codes : List Nat) : Text := codes.map Char.ofNat

theorem textOf_codes (text : Text) : textOf (codes text) = text := by
  rw [textOf, codes, List.map_map]
  have same : Char.ofNat ∘ Char.toNat = id := by
    funext char
    exact Char.ofNat_toNat char
  rw [same, List.map_id]

def eventOf (line : Text) : Option PersistedRunEvent :=
  (Encodable.decode (Nat.ofDigitChars 10 line 0) :
    Option (Nat × List Nat × List Nat × List Nat)).map fun fields =>
      ⟨fields.1, textOf fields.2.1, textOf fields.2.2.1, textOf fields.2.2.2⟩

def codec : SegmentCodec Text where
  stringify event := Nat.toDigits 10 (number event)
  parse := eventOf
  compress text := text
  decompress limit text := if Text.encodedSize text ≤ limit then some text else none
  parse_stringify event := by
    rw [eventOf, Nat.ofDigitChars_ten_toDigits, number, Encodable.encodek]
    simp only [Option.map_some, textOf_codes]
  stringify_line event member := by
    have digit := Nat.isDigit_of_mem_toDigits (by decide) (by decide) member
    revert digit
    decide
  stringify_trim event := by
    apply Text.trim_eq_self
    · intro char first
      exact digit_visible (Nat.isDigit_of_mem_toDigits (by decide) (by decide)
        (List.mem_of_mem_head? first))
    · intro char last
      exact digit_visible (Nat.isDigit_of_mem_toDigits (by decide) (by decide)
        (List.mem_of_mem_getLast? last))
  stringify_ne_nil _ := Nat.toDigits_ne_nil
  decompress_compress _ _ small := if_pos small

end NumberedEvents

end Takos.Offload
