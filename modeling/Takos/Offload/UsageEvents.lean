import Takos.Offload.RunEvents
import Mathlib.Data.Rat.Encodable

/-!
# Archived usage events

Usage leaves the notifier in numbered segments of any size.  A segment is one
object of the bucket, a compressed text with one line for each event.
-/

namespace Takos.Offload

open Takos.Foundation

/-- Units are finite doubles, so they are rational numbers. -/
structure PersistedUsageEvent where
  meterType : Text
  units : ℚ
  referenceType : Option Text
  metadata : Option Text
  createdAt : Text
  deriving DecidableEq

def usageEventSegmentSize : Nat := 200

def maxUsageSegmentBytes : Nat := 50 * 1024 * 1024

/-- The line format and the compression, as for the run events. -/
structure UsageCodec (Object : Type) where
  stringify : PersistedUsageEvent → Text
  parse : Text → Option PersistedUsageEvent
  compress : Text → Object
  decompress : Nat → Object → Option Text
  parse_stringify : ∀ event, parse (stringify event) = some event
  stringify_line : ∀ event, '\n' ∉ stringify event
  stringify_ne_nil : ∀ event, stringify event ≠ []
  decompress_compress : ∀ limit text, Text.encodedSize text ≤ limit →
    decompress limit (compress text) = some text

def usagePrefix (runId : Text) : Text :=
  "runs/".toList ++ runId ++ "/usage/".toList

def usageSegmentKey (runId : Text) (segmentIndex : Nat) : Text :=
  usagePrefix runId ++ pad6 segmentIndex ++ segmentSuffix

theorem usageSegmentKey_injective {runId : Text} {left right : Nat}
    (same : usageSegmentKey runId left = usageSegmentKey runId right) :
    left = right := by
  rw [usageSegmentKey, usageSegmentKey] at same
  have pads := List.append_cancel_left (List.append_cancel_right same)
  rw [← pad6_value left, pads, pad6_value]

section Bucket

variable {Object : Type} (codec : UsageCodec Object)

def usageSegmentText (events : List PersistedUsageEvent) : Text :=
  Text.join '\n' (events.map codec.stringify) ++ ['\n']

def writeUsageEventSegmentToR2 (bucket : OffloadBucket Object) (runId : Text)
    (segmentIndex : Nat) (events : List PersistedUsageEvent) :
    OffloadBucket Object :=
  if events = [] then bucket
  else
    bucket.set (usageSegmentKey runId segmentIndex)
      (codec.compress (usageSegmentText codec events))

/-- Empty and malformed lines are skipped; an object above the limit throws. -/
def readSegmentObject (object : Object) : Option (List PersistedUsageEvent) :=
  (codec.decompress maxUsageSegmentBytes object).map fun jsonl =>
    ((Text.split '\n' jsonl).filter fun line => line ≠ []).filterMap codec.parse

/-- The object of this segment holds exactly these events. -/
def ArchivedUsage (bucket : OffloadBucket Object) (runId : Text)
    (index : Nat) (events : List PersistedUsageEvent) : Prop :=
  bucket.get? (usageSegmentKey runId index) =
    some (codec.compress (usageSegmentText codec events))

variable {codec} {bucket : OffloadBucket Object} {runId : Text}
  {index : Nat} {events : List PersistedUsageEvent}

theorem archivedUsage_write (nonempty : events ≠ []) :
    ArchivedUsage codec
      (writeUsageEventSegmentToR2 codec bucket runId index events) runId
      index events := by
  rw [writeUsageEventSegmentToR2, if_neg nonempty]
  exact OrderedMap.get?_set_self _ _ _

theorem archivedUsage_write_other {other : Nat}
    {others : List PersistedUsageEvent} (different : other ≠ index)
    (archived : ArchivedUsage codec bucket runId other others) :
    ArchivedUsage codec
      (writeUsageEventSegmentToR2 codec bucket runId index events) runId
      other others := by
  rw [writeUsageEventSegmentToR2]
  split
  · exact archived
  · rw [ArchivedUsage, OrderedMap.get?_set_of_ne]
    · exact archived
    · exact fun same => different (usageSegmentKey_injective same)

end Bucket

/-! ### A codec

Every event is one number, and nothing is compressed. -/

namespace NumberedUsage

open NumberedEvents

def number (event : PersistedUsageEvent) : Nat :=
  Encodable.encode (codes event.meterType, event.units,
    event.referenceType.map codes, event.metadata.map codes,
    codes event.createdAt)

def eventOf (line : Text) : Option PersistedUsageEvent :=
  (Encodable.decode (Nat.ofDigitChars 10 line 0) :
    Option (List Nat × ℚ × Option (List Nat) × Option (List Nat) ×
      List Nat)).map fun fields =>
        ⟨textOf fields.1, fields.2.1, fields.2.2.1.map textOf,
          fields.2.2.2.1.map textOf, textOf fields.2.2.2.2⟩

theorem map_textOf_codes (text : Option Text) :
    (text.map codes).map textOf = text := by
  cases text with
  | none => rfl
  | some text => exact congrArg some (textOf_codes text)

def codec : UsageCodec Text where
  stringify event := Nat.toDigits 10 (number event)
  parse := eventOf
  compress text := text
  decompress limit text :=
    if Text.encodedSize text ≤ limit then some text else none
  parse_stringify event := by
    rw [eventOf, Nat.ofDigitChars_ten_toDigits, number, Encodable.encodek]
    simp only [Option.map_some, textOf_codes, map_textOf_codes]
  stringify_line event member := by
    have digit := Nat.isDigit_of_mem_toDigits (by decide) (by decide) member
    revert digit
    decide
  stringify_ne_nil _ := Nat.toDigits_ne_nil
  decompress_compress := NumberedEvents.codec.decompress_compress

end NumberedUsage

end Takos.Offload
