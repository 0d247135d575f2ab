import Takos.Packs.PktLines

/-!
# The lines that are accepted

The reader goes from line to line.  Where it goes on, the header may be less
than the format asks for, and one to three bytes may be left at the end: an
input without such places, or with a later place that is refused, is accepted
exactly if it is well formed.
-/

namespace Takos.Packs

open Takos.Foundation

/-- How many bytes the reader takes before it goes on. -/
def advance (data : List UInt8) : Option Nat :=
  if data.length < 4 then none
  else
    match parseHexNumber (headerText data) with
    | none => none
    | some len =>
      if len = 0 ∨ len = 1 ∨ len = 2 then some 4
      else if len < 4 ∨ data.length < len then none
      else some len.toNat

/-- The places that the reader goes through. -/
inductive Reaches : List UInt8 → List UInt8 → Prop where
  | here (data : List UInt8) : Reaches data data
  | next {data rest : List UInt8} {count : Nat}
      (advances : advance data = some count)
      (later : Reaches (data.drop count) rest) : Reaches data rest

/-- A header that is not a number, or a length that does not fit. -/
def Refuses (data : List UInt8) : Prop :=
  4 ≤ data.length ∧ advance data = none

/-- One to three bytes that are left, or a header that the reader goes on with
although it is not four digits that spell at most the largest length. -/
def Lenient (data : List UInt8) : Prop :=
  (data ≠ [] ∧ data.length < 4) ∨
    (advance data ≠ none ∧
      ∀ number ≤ largestPktLine, ¬ Spells (data.take 4) number)

def lineAt (data : List UInt8) (count : Nat) : PktLine :=
  if (parseHexNumber (headerText data)).any (· ≤ 2) then ⟨none⟩
  else ⟨some ((data.take count).drop 4)⟩

section Turns

variable {data : List UInt8} {count : Nat}

theorem parseFrom_short (rounds : Nat) (short : data.length < 4) :
    parseFrom rounds data = .ok [] := by
  cases rounds with
  | zero => rfl
  | succ rounds => exact if_pos short

/-- The reader goes on behind a marker, or behind as many bytes as it reads. -/
theorem advance_some (advances : advance data = some count) :
    4 ≤ data.length ∧ ∃ len, parseHexNumber (headerText data) = some len ∧
      (((len = 0 ∨ len = 1 ∨ len = 2) ∧ count = 4) ∨
        4 ≤ len ∧ len ≤ data.length ∧ count = len.toNat) := by
  unfold advance at advances
  by_cases short : data.length < 4
  · rw [if_pos short] at advances
    cases advances
  · rw [if_neg short] at advances
    refine ⟨not_lt.mp short, ?_⟩
    cases read : parseHexNumber (headerText data) with
    | none =>
        rw [read] at advances
        cases advances
    | some len =>
        rw [read] at advances
        refine ⟨len, rfl, ?_⟩
        by_cases marker : len = 0 ∨ len = 1 ∨ len = 2
        · simp only [if_pos marker, Option.some.injEq] at advances
          exact .inl ⟨marker, advances.symm⟩
        · simp only [if_neg marker] at advances
          by_cases refused : len < 4 ∨ data.length < len
          · rw [if_pos refused] at advances
            cases advances
          · rw [if_neg refused, Option.some.injEq] at advances
            exact .inr ⟨by omega, by omega, advances.symm⟩

theorem advance_bounds (advances : advance data = some count) :
    4 ≤ count ∧ count ≤ data.length := by
  obtain ⟨_, len, _, marker | sized⟩ := advance_some advances <;> omega

theorem parseFrom_refuses (rounds : Nat) (refuses : Refuses data) :
    ∃ error, parseFrom (rounds + 1) data = .error error := by
  obtain ⟨long, stuck⟩ := refuses
  have enough : ¬ data.length < 4 := not_lt.mpr long
  unfold advance at stuck
  rw [if_neg enough] at stuck
  rw [parseFrom, if_neg enough]
  cases read : parseHexNumber (headerText data) with
  | none => exact ⟨_, rfl⟩
  | some len =>
      rw [read] at stuck
      by_cases marker : len = 0 ∨ len = 1 ∨ len = 2
      · simp only [if_pos marker] at stuck
        cases stuck
      · simp only [if_neg marker] at stuck ⊢
        by_cases small : len < 4
        · exact ⟨_, if_pos small⟩
        · by_cases large : (data.length : Int) < len
          · rw [if_neg small, if_pos large]
            exact ⟨_, rfl⟩
          · rw [if_neg (not_or.mpr ⟨small, large⟩)] at stuck
            cases stuck

theorem parseFrom_advance (rounds : Nat) (advances : advance data = some count) :
    parseFrom (rounds + 1) data =
      (lineAt data count :: ·) <$> parseFrom rounds (data.drop count) := by
  obtain ⟨long, len, read, ⟨marker, rfl⟩ | ⟨least, fits, rfl⟩⟩ :=
    advance_some advances
  · have small : decide (len ≤ 2) = true := decide_eq_true (by omega)
    rw [parseFrom, if_neg (not_lt.mpr long), lineAt, read]
    simp only [if_pos marker, Option.any_some, if_pos small]
  · have unmarked : ¬(len = 0 ∨ len = 1 ∨ len = 2) := by omega
    have tooLong : ¬ decide (len ≤ 2) = true := by
      rw [decide_eq_true_eq]
      omega
    rw [parseFrom, if_neg (not_lt.mpr long), lineAt, read]
    simp only [if_neg unmarked, if_neg (not_lt.mpr least),
      if_neg (not_lt.mpr fits), Option.any_some, if_neg tooLong]

end Turns

section Lines

variable {line : PktLine} {lines : List PktLine} {front data : List UInt8}

theorem headerText_append {header : List UInt8} {number : Nat}
    (spelled : Spells header number) (back : List UInt8) :
    (header ++ back).take 4 = header ∧
      parseHexNumber (headerText (header ++ back)) = some (number : Int) := by
  have taken : (header ++ back).take 4 = header := by
    rw [← spelled.length, List.take_left]
  refine ⟨taken, ?_⟩
  rw [headerText, taken]
  exact spelled.read

theorem Spells.payload_advance {header payload : List UInt8}
    (spelled : Spells header (payload.length + 4)) (back : List UInt8) :
    advance (header ++ payload ++ back) = some (header ++ payload).length ∧
      lineAt (header ++ payload ++ back) (header ++ payload).length =
        ⟨some payload⟩ := by
  have shape : header ++ payload ++ back = header ++ (payload ++ back) :=
    List.append_assoc _ _ _
  have read := (headerText_append spelled (payload ++ back)).2
  have length := spelled.length
  have long : ¬ (header ++ (payload ++ back)).length < 4 := by
    rw [List.length_append, length]
    omega
  have unmarked : ¬ (((payload.length + 4 : Nat) : Int) = 0 ∨
      ((payload.length + 4 : Nat) : Int) = 1 ∨
      ((payload.length + 4 : Nat) : Int) = 2) := by omega
  have inside : ¬ (((payload.length + 4 : Nat) : Int) < 4 ∨
      ((header ++ (payload ++ back)).length : Int) <
        ((payload.length + 4 : Nat) : Int)) := by
    simp only [List.length_append, length]
    omega
  have high : ¬ decide (((payload.length + 4 : Nat) : Int) ≤ 2) = true := by
    rw [decide_eq_true_eq]
    omega
  have size : (header ++ payload).length = payload.length + 4 := by
    rw [List.length_append, length, Nat.add_comm]
  rw [shape, size]
  constructor
  · rw [advance, if_neg long, read]
    simp only [if_neg unmarked, if_neg inside, Int.toNat_natCast]
  · rw [lineAt, read, Option.any_some, if_neg high, ← size, ← shape,
      List.take_left, ← length, List.drop_left]

theorem LineBytes.advance (first : LineBytes line front) (back : List UInt8) :
    advance (front ++ back) = some front.length ∧
      lineAt (front ++ back) front.length = line ∧
      ∃ number ≤ largestPktLine, Spells ((front ++ back).take 4) number := by
  cases first with
  | @marker header number spelled small =>
      obtain ⟨taken, read⟩ := headerText_append spelled back
      have long : ¬ (front ++ back).length < 4 := by
        rw [List.length_append, spelled.length]
        omega
      have marked : (number : Int) = 0 ∨ (number : Int) = 1 ∨
          (number : Int) = 2 := by omega
      have low : decide ((number : Int) ≤ 2) = true := by
        rw [decide_eq_true_eq]
        omega
      refine ⟨?_, ?_, number, ?_, ?_⟩
      · rw [Packs.advance, if_neg long, read, spelled.length]
        exact if_pos marked
      · rw [lineAt, read, Option.any_some, if_pos low]
      · exact small.trans (by decide)
      · rw [taken]
        exact spelled
  | @payload header payload spelled fits =>
      obtain ⟨advances, read⟩ := spelled.payload_advance back
      refine ⟨advances, read, payload.length + 4, fits, ?_⟩
      rw [List.append_assoc, (headerText_append spelled _).1]
      exact spelled

theorem parseFrom_complete {rounds : Nat} (formed : LinesBytes lines data)
    (enough : data.length ≤ rounds) : parseFrom rounds data = .ok lines := by
  induction formed generalizing rounds with
  | nil => exact parseFrom_short rounds (by decide)
  | @cons line lines front back first rest induction =>
      obtain ⟨advances, read, _⟩ := first.advance back
      have bounds := advance_bounds advances
      rw [List.length_append] at enough
      cases rounds with
      | zero => omega
      | succ rounds =>
          rw [parseFrom_advance rounds advances, read, List.drop_left,
            induction (by omega)]
          rfl

theorem LinesBytes.not_lenient (formed : LinesBytes lines data)
    {rest : List UInt8} (reaches : Reaches data rest) : ¬ Lenient rest := by
  induction formed with
  | nil =>
      have ended : rest = [] := by
        cases reaches with
        | here => rfl
        | next advances _ => cases advances
      rintro (⟨some, _⟩ | ⟨some, _⟩)
      · exact some ended
      · rw [ended] at some
        exact some rfl
  | @cons line lines front back first rest induction =>
      obtain ⟨advances, _, number, fits, spelled⟩ :=
        first.advance back
      have bounds := advance_bounds advances
      cases reaches with
      | here =>
          rintro (⟨_, short⟩ | ⟨_, unspelled⟩)
          · omega
          · exact unspelled number fits spelled
      | next moves later =>
          rw [advances, Option.some.injEq] at moves
          rw [← moves, List.drop_left] at later
          exact induction later

theorem lineBytes_of_advance {count : Nat}
    (advances : advance data = some count) (strict : ¬ Lenient data) :
    LineBytes (lineAt data count) (data.take count) := by
  have moves : advance data ≠ none := by
    rw [advances]
    exact Option.some_ne_none count
  obtain ⟨number, fits, spelled⟩ : ∃ number ≤ largestPktLine,
      Spells (data.take 4) number := by
    by_contra unspelled
    refine strict (.inr ⟨moves, ?_⟩)
    intro number fits spelled
    exact unspelled ⟨number, fits, spelled⟩
  obtain ⟨long, len, read, sized⟩ := advance_some advances
  obtain rfl : (number : Int) = len :=
    Option.some.inj (spelled.read.symm.trans read)
  unfold lineAt
  rw [read, Option.any_some]
  rcases sized with ⟨marker, same⟩ | ⟨least, inside, same⟩
  · rw [if_pos (decide_eq_true (by omega)), same]
    exact .marker spelled (by omega)
  · have high : ¬ decide ((number : Int) ≤ 2) = true := by
      rw [decide_eq_true_eq]
      omega
    rw [if_neg high, same, Int.toNat_natCast]
    have size : ((data.take number).drop 4).length + 4 = number := by
      rw [List.length_drop, List.length_take]
      omega
    have split : data.take number =
        data.take 4 ++ (data.take number).drop 4 := by
      have front : (data.take number).take 4 = data.take 4 := by
        rw [List.take_take, Nat.min_eq_left (by omega)]
      rw [← front, List.take_append_drop]
    have line : LineBytes ⟨some ((data.take number).drop 4)⟩
        (data.take 4 ++ (data.take number).drop 4) :=
      .payload (by rw [size]; exact spelled) (by rw [size]; exact fits)
    rw [← split] at line
    exact line

end Lines

/-- The claim of the format about one input. -/
def AcceptsExactly (data : List UInt8) : Prop :=
  ∀ lines, parsePktLines data = .ok lines ↔ LinesBytes lines data

section Accepted

variable {data : List UInt8} {rounds : Nat}

/-- The reader accepts an input unless it gets to a place that it refuses. -/
theorem parseFrom_ends (enough : data.length ≤ rounds) :
    (∃ lines, parseFrom rounds data = .ok lines ∧
      ∀ rest, Reaches data rest → ¬ Refuses rest) ∨
    (∃ error, parseFrom rounds data = .error error ∧
      ∃ rest, Reaches data rest ∧ Refuses rest) := by
  induction rounds generalizing data with
  | zero =>
      left
      have empty : data = [] := List.eq_nil_of_length_eq_zero (by omega)
      subst empty
      refine ⟨[], rfl, ?_⟩
      intro rest reaches refuses
      cases reaches with
      | here => exact absurd refuses.1 (by decide)
      | next advances _ => cases advances
  | succ rounds induction =>
      by_cases stuck : advance data = none
      · by_cases short : data.length < 4
        · left
          refine ⟨[], parseFrom_short _ short, ?_⟩
          intro rest reaches refuses
          cases reaches with
          | here => exact absurd refuses.1 (not_le.mpr short)
          | next advances _ =>
              rw [stuck] at advances
              cases advances
        · right
          have refuses : Refuses data := ⟨not_lt.mp short, stuck⟩
          obtain ⟨error, failed⟩ := parseFrom_refuses rounds refuses
          exact ⟨error, failed, data, .here data, refuses⟩
      · obtain ⟨count, advances⟩ := Option.ne_none_iff_exists'.mp stuck
        have bounds := advance_bounds advances
        have smaller : (data.drop count).length ≤ rounds := by
          rw [List.length_drop]
          omega
        rw [parseFrom_advance rounds advances]
        rcases induction smaller with ⟨lines, read, none⟩ |
          ⟨error, failed, rest, reaches, refuses⟩
        · left
          refine ⟨lineAt data count :: lines, by rw [read]; rfl, ?_⟩
          intro rest reaches
          cases reaches with
          | here => exact fun refuses => stuck refuses.2
          | next moves later =>
              rw [advances, Option.some.injEq] at moves
              rw [← moves] at later
              exact none rest later
        · right
          refine ⟨error, by rw [failed]; rfl, rest, ?_, refuses⟩
          exact .next advances reaches

/-- Where no place is lenient, what is accepted is well formed. -/
theorem parseFrom_strict {lines : List PktLine}
    (strict : ∀ rest, Reaches data rest → ¬ Lenient rest)
    (enough : data.length ≤ rounds) (read : parseFrom rounds data = .ok lines) :
    LinesBytes lines data := by
  induction rounds generalizing data lines with
  | zero =>
      have empty : data = [] := List.eq_nil_of_length_eq_zero (by omega)
      subst empty
      cases read
      exact .nil
  | succ rounds induction =>
      have here := strict data (.here data)
      by_cases short : data.length < 4
      · rw [parseFrom_short _ short] at read
        cases read
        have empty : data = [] := by
          by_contra some
          exact here (.inl ⟨some, short⟩)
        rw [empty]
        exact .nil
      · cases moves : advance data with
        | none =>
            obtain ⟨error, failed⟩ := parseFrom_refuses rounds
              (show Refuses data from ⟨not_lt.mp short, moves⟩)
            rw [failed] at read
            cases read
        | some count =>
            have bounds := advance_bounds moves
            have first := lineBytes_of_advance moves here
            rw [parseFrom_advance rounds moves] at read
            cases back : parseFrom rounds (data.drop count) with
            | error error =>
                rw [back] at read
                cases read
            | ok others =>
                rw [back] at read
                cases read
                have smaller : (data.drop count).length ≤ rounds := by
                  rw [List.length_drop]
                  omega
                have later := induction
                  (fun rest reaches => strict rest (.next moves reaches))
                  smaller back
                have whole := LinesBytes.cons first later
                rw [List.take_append_drop] at whole
                exact whole

theorem acceptsExactly_iff (data : List UInt8) :
    AcceptsExactly data ↔
      (∀ rest, Reaches data rest → ¬ Lenient rest) ∨
        ∃ rest, Reaches data rest ∧ Refuses rest := by
  constructor
  · intro exactly
    rcases parseFrom_ends (le_refl data.length) with ⟨lines, read, _⟩ |
      ⟨_, _, refused⟩
    · left
      have formed := (exactly lines).mp read
      exact fun rest reaches => formed.not_lenient reaches
    · exact .inr refused
  · intro condition lines
    constructor
    · intro read
      rcases condition with strict | ⟨rest, reaches, refuses⟩
      · exact parseFrom_strict strict le_rfl read
      · rcases parseFrom_ends (le_refl data.length) with
          ⟨_, _, accepts⟩ | ⟨error, failed, _⟩
        · exact absurd refuses (accepts rest reaches)
        · rw [parsePktLines, failed] at read
          cases read
    · exact fun formed => parseFrom_complete formed le_rfl

end Accepted

theorem hexDigit_byte : ∀ code < 128,
    HexKeys.isHexDigit (Char.ofNat code) = true →
      Utf8.encodeChar (Char.ofNat code) = [UInt8.ofNat code] ∧
      (Char.ofNat (UInt8.ofNat code).toNat).toLower = Char.ofNat code := by
  decide +kernel

theorem encode_hex {text : Text}
    (hex : ∀ char ∈ text, HexKeys.isHexDigit char = true) :
    (Utf8.encode text).length = text.length ∧
      headerDigits (Utf8.encode text) = text := by
  induction text with
  | nil => exact ⟨rfl, rfl⟩
  | cons char text induction =>
      obtain ⟨length, digits⟩ := induction fun other member =>
        hex other (List.mem_cons_of_mem _ member)
      have digit := hex char List.mem_cons_self
      have ascii : char.toNat < 128 := by
        rcases HexKeys.hexDigit_toNat digit with ⟨_, high, _⟩ |
          ⟨_, high, _⟩ <;> omega
      have same := Char.ofNat_toNat char
      have byte := hexDigit_byte char.toNat ascii (by rw [same]; exact digit)
      rw [same] at byte
      rw [Utf8.encode_cons, byte.1]
      constructor
      · rw [List.length_append, length, Nat.add_comm]
        rfl
      · rw [headerDigits, List.map_append, List.map_singleton, byte.2]
        exact congrArg (char :: ·) digits

theorem toHex4_spells {number : Nat} (small : number < 16 ^ 4) :
    Spells (Utf8.encode (toHex4 number)) number := by
  have hex := HexKeys.padHex_hex 4 number
  obtain ⟨length, digits⟩ := encode_hex hex
  constructor
  · rw [toHex4, length]
    exact HexKeys.length_padHex (by decide) small
  · rw [toHex4, digits]
    exact hex
  · rw [toHex4, digits]
    exact HexKeys.value_padHex 4 number

theorem parseFrom_pktLines {payloads lines : List (List UInt8)} {rounds : Nat}
    (encoded : payloads.mapM pktLine = some lines)
    (enough : lines.flatten.length ≤ rounds) :
    parseFrom rounds lines.flatten =
      .ok (payloads.map fun payload => ⟨some payload⟩) := by
  induction payloads generalizing lines rounds with
  | nil =>
      rw [List.mapM_nil] at encoded
      cases encoded
      exact parseFrom_short rounds (by decide)
  | cons payload payloads induction =>
      rw [List.mapM_cons] at encoded
      obtain ⟨line, first, encoded⟩ := Option.bind_eq_some_iff.mp encoded
      obtain ⟨others, rest, encoded⟩ := Option.bind_eq_some_iff.mp encoded
      cases encoded
      unfold pktLine at first
      by_cases large : 0xffff < payload.length + 4
      · simp only [if_pos large] at first
        cases first
      · simp only [if_neg large] at first
        cases first
        have spelled : Spells _ (payload.length + 4) :=
          toHex4_spells (Nat.lt_succ_of_le (not_lt.mp large))
        obtain ⟨advances, read⟩ := spelled.payload_advance others.flatten
        have bounds := advance_bounds advances
        rw [List.flatten_cons] at enough ⊢
        rw [List.length_append] at enough
        cases rounds with
        | zero => omega
        | succ rounds =>
            rw [parseFrom_advance rounds advances, read, List.drop_left,
              induction rest (by omega)]
            rfl

/-- What is accepted is what is well formed exactly if no place that is gone
through is lenient or a later one is refused, and what was written is read
back. -/
theorem parsePktLines_exact (data : List UInt8) :
    (AcceptsExactly data ↔
      (∀ rest, Reaches data rest → ¬ Lenient rest) ∨
        ∃ rest, Reaches data rest ∧ Refuses rest) ∧
    ∀ payloads lines : List (List UInt8),
      payloads.mapM pktLine = some lines → parsePktLines lines.flatten =
        .ok (payloads.map fun payload => ⟨some payload⟩) :=
  ⟨acceptsExactly_iff data, fun _ _ encoded => parseFrom_pktLines encoded le_rfl⟩

/-- A line with two bytes and a flush. -/
theorem flushed_exact :
    AcceptsExactly (Utf8.encode "0006hi0000".toList) ∧
      parsePktLines (Utf8.encode "0006hi".toList) =
        .ok [⟨some (Utf8.encode "hi".toList)⟩] := by
  have payload : LineBytes ⟨some (Utf8.encode "hi".toList)⟩
      (Utf8.encode "0006".toList ++ Utf8.encode "hi".toList) :=
    .payload ⟨by decide +kernel, List.all_eq_true.mp (by decide +kernel),
      by decide +kernel⟩ (by decide +kernel)
  have flush : LineBytes ⟨none⟩ (Utf8.encode "0000".toList) :=
    .marker ⟨by decide +kernel, List.all_eq_true.mp (by decide +kernel), rfl⟩
      (by decide +kernel)
  have formed := LinesBytes.cons payload (.cons flush .nil)
  have shape : Utf8.encode "0006".toList ++ Utf8.encode "hi".toList ++
      (Utf8.encode "0000".toList ++ []) = Utf8.encode "0006hi0000".toList := by
    decide +kernel
  rw [shape] at formed
  have exactly := parsePktLines_exact (Utf8.encode "0006hi0000".toList)
  refine ⟨exactly.1.mpr (.inl fun _ => formed.not_lenient), ?_⟩
  exact exactly.2 [Utf8.encode "hi".toList] [Utf8.encode "0006hi".toList]
    (by decide +kernel)

/-- `4z` is read as four. -/
def loosePktLine : List UInt8 := Utf8.encode "4zzz".toList

theorem loosePktLine_accepted :
    ¬ ∀ data lines, parsePktLines data = .ok lines ↔ LinesBytes lines data := by
  intro exactly
  have read : parsePktLines loosePktLine = .ok [⟨some []⟩] := by decide +kernel
  have formed := (exactly _ _).mp read
  have lenient : Lenient loosePktLine := by
    right
    refine ⟨by decide +kernel, ?_⟩
    intro number _ spelled
    have digit := spelled.digits 'z' (by decide +kernel)
    exact absurd digit (by decide)
  exact formed.not_lenient (.here _) lenient

end Takos.Packs
