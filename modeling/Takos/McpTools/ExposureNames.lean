import Mathlib.Data.List.Destutter
import Mathlib.Data.List.DropRight
import Mathlib.Data.List.Range
import Takos.Packs.PackObjects

/-!
# Exposure names of external tools

A name that the model provider accepts and that nobody holds stays as it is.
Any other name gets a hash of its server and its raw name, and a number when
the hashed name is held as well.
-/

namespace Takos.McpTools

open Takos.Foundation Takos.Packs

def isNameChar (char : Char) : Bool :=
  char.isAlphanum || char = '_' || char = '-'

def PROVIDER_TOOL_NAME_MAX_LENGTH : Nat := 64

/-- `PROVIDER_TOOL_NAME_PATTERN`, which is `^[a-zA-Z0-9_-]{1,64}$`. -/
def matchesProvider (name : Text) : Bool :=
  decide (1 ≤ name.length) &&
    decide (name.length ≤ PROVIDER_TOOL_NAME_MAX_LENGTH) &&
    name.all isNameChar

def sanitizeMcpToolNamespace (value : Text) : Text :=
  let replaced := value.map fun char => if isNameChar char then char else '_'
  let collapsed :=
    replaced.destutter fun left right => ¬(left = '_' ∧ right = '_')
  let trimmed := (collapsed.dropWhile (· = '_')).rdropWhile (· = '_')
  if trimmed = [] then ['t', 'o', 'o', 'l'] else trimmed

/-- `text.slice(0, stop)`; a negative `stop` counts from the end. -/
def sliceTo (text : Text) (stop : Int) : Text :=
  text.take (if 0 ≤ stop then stop else text.length + stop).toNat

def withSuffix (base suffix : Text) : Text :=
  sliceTo base (PROVIDER_TOOL_NAME_MAX_LENGTH - suffix.length) ++ suffix

def boundedHashedToolName (base digest : Text) : Text :=
  withSuffix base ('_' :: '_' :: digest.take 12)

def counted (candidate : Text) (counter : Nat) : Text :=
  withSuffix candidate ('_' :: '_' :: Nat.toDigits 10 counter)

/-- The loop over the counters. -/
def chooseCounted (existingNames : List Text) (candidate : Text) :
    (fuel counter : Nat) → Text
  | 0, counter => counted candidate counter
  | fuel + 1, counter =>
    if counted candidate counter ∈ existingNames then
      chooseCounted existingNames candidate fuel (counter + 1)
    else counted candidate counter

structure ExposureInput where
  serverName : Text
  serverId : Text
  toolName : Text

/-- `sha256` is the platform's digest of a text in UTF-8. -/
def hashedCandidate (sha256 : Text → List UInt8) (input : ExposureInput) :
    Text :=
  let server := sanitizeMcpToolNamespace
    (if input.serverName = [] then input.serverId else input.serverName)
  let tool := sanitizeMcpToolNamespace input.toolName
  let digest := bytesToHex
    (sha256 (input.serverId ++ Char.ofNat 0 :: input.toolName))
  boundedHashedToolName (server ++ '_' :: '_' :: tool) digest

def chooseMcpToolExposureName (sha256 : Text → List UInt8)
    (existingNames : List Text) (input : ExposureInput) : Text :=
  if matchesProvider input.toolName ∧ input.toolName ∉ existingNames then
    input.toolName
  else
    let candidate := hashedCandidate sha256 input
    if candidate ∉ existingNames then candidate
    else chooseCounted existingNames candidate existingNames.length 2

section Characters

variable {base suffix candidate : Text} {counter : Nat}

theorem isNameChar_of_isDigit {char : Char} (digit : char.isDigit = true) :
    isNameChar char = true := by
  rw [isNameChar, Char.isAlphanum, digit, Bool.or_true]
  rfl

theorem sanitizeMcpToolNamespace_chars (value : Text) :
    ∀ char ∈ sanitizeMcpToolNamespace value, isNameChar char = true := by
  intro char member
  simp only [sanitizeMcpToolNamespace] at member
  split at member
  · exact List.all_eq_true.mp (by decide) char member
  · have kept := (List.rdropWhile_prefix _ _).subset member
    have collapsed := (List.dropWhile_suffix _).subset kept
    have replaced := (List.destutter_sublist _ _).subset collapsed
    obtain ⟨source, -, rfl⟩ := List.mem_map.mp replaced
    split
    · assumption
    · rfl

theorem byteToHex_chars (byte : UInt8) :
    (byteToHex byte).all isNameChar = true := by
  have table : ∀ value : Fin 256, (Text.padStart 2 '0'
      (Nat.toDigits 16 value.val)).all isNameChar = true := by
    decide +kernel
  exact table ⟨byte.toNat, byte.toNat_lt⟩

theorem bytesToHex_chars (bytes : List UInt8) :
    ∀ char ∈ bytesToHex bytes, isNameChar char = true := by
  intro char member
  obtain ⟨byte, -, inByte⟩ := List.mem_flatMap.mp member
  exact List.all_eq_true.mp (byteToHex_chars byte) char inByte

theorem withSuffix_matches
    (baseChars : ∀ char ∈ base, isNameChar char = true)
    (suffixChars : ∀ char ∈ suffix, isNameChar char = true)
    (present : 1 ≤ suffix.length)
    (bounded : suffix.length ≤ PROVIDER_TOOL_NAME_MAX_LENGTH) :
    matchesProvider (withSuffix base suffix) = true := by
  have cut : (sliceTo base
      (PROVIDER_TOOL_NAME_MAX_LENGTH - suffix.length)).length ≤
        PROVIDER_TOOL_NAME_MAX_LENGTH - suffix.length := by
    rw [sliceTo, if_pos (by omega), List.length_take]
    omega
  simp only [matchesProvider, withSuffix, List.length_append, Bool.and_eq_true,
    decide_eq_true_eq, List.all_eq_true, List.mem_append]
  refine ⟨⟨by omega, by omega⟩, ?_⟩
  rintro char (inBase | inSuffix)
  · exact baseChars char (List.mem_of_mem_take inBase)
  · exact suffixChars char inSuffix

theorem hashedCandidate_chars (sha256 : Text → List UInt8)
    (input : ExposureInput) :
    matchesProvider (hashedCandidate sha256 input) = true := by
  apply withSuffix_matches
  · intro char member
    simp only [List.mem_append, List.mem_cons] at member
    rcases member with inServer | rfl | rfl | inTool
    · exact sanitizeMcpToolNamespace_chars _ char inServer
    · rfl
    · rfl
    · exact sanitizeMcpToolNamespace_chars _ char inTool
  · intro char member
    simp only [List.mem_cons] at member
    rcases member with rfl | rfl | inDigest
    · rfl
    · rfl
    · exact bytesToHex_chars _ char (List.mem_of_mem_take inDigest)
  · exact Nat.succ_pos _
  · simp only [List.length_cons, List.length_take,
      PROVIDER_TOOL_NAME_MAX_LENGTH]
    omega

theorem counted_matches
    (candidateMatches : matchesProvider candidate = true)
    (small : counter < 10 ^ 62) :
    matchesProvider (counted candidate counter) = true := by
  apply withSuffix_matches
  · simp only [matchesProvider, Bool.and_eq_true,
      List.all_eq_true] at candidateMatches
    exact candidateMatches.2
  · intro char member
    simp only [List.mem_cons] at member
    rcases member with rfl | rfl | inDigits
    · rfl
    · rfl
    · exact isNameChar_of_isDigit
        (Nat.isDigit_of_mem_toDigits (by decide) (by decide) inDigits)
  · exact Nat.succ_pos _
  · have digits := (Nat.length_toDigits_le_iff (b := 10) (n := counter)
      (k := 62) (by decide) (by decide)).mpr small
    simp only [List.length_cons, PROVIDER_TOOL_NAME_MAX_LENGTH]
    omega

theorem counted_injective (candidate : Text) :
    Function.Injective (counted candidate) := by
  have tail : ∀ counter, (counted candidate counter).rtakeWhile Char.isDigit =
      Nat.toDigits 10 counter := by
    intro counter
    rw [counted, withSuffix, List.rtakeWhile, List.reverse_append,
      List.reverse_cons, List.reverse_cons, List.append_assoc,
      List.append_assoc, List.takeWhile_append_of_pos]
    · exact (congrArg List.reverse (List.append_nil _)).trans
        (List.reverse_reverse _)
    · intro char member
      exact Nat.isDigit_of_mem_toDigits (b := 10) (by decide) (by decide)
        (List.mem_reverse.mp member)
  intro left right same
  have digits := (tail left).symm.trans ((congrArg _ same).trans (tail right))
  have values := congrArg (fun text => Nat.ofDigitChars 10 text 0) digits
  simpa [Nat.ofDigitChars_ten_toDigits] using values

end Characters

theorem chooseCounted_eq (existingNames : List Text) (candidate : Text)
    (fuel counter : Nat) :
    ∃ used ≤ fuel,
      chooseCounted existingNames candidate fuel counter =
        counted candidate (counter + used) ∧
      (counted candidate (counter + used) ∈ existingNames →
        ∀ tried ≤ fuel, counted candidate (counter + tried) ∈ existingNames) := by
  induction fuel generalizing counter with
  | zero =>
      refine ⟨0, Nat.le_refl 0, rfl, ?_⟩
      intro held tried none
      rw [Nat.le_zero.mp none]
      exact held
  | succ fuel ih =>
      rw [chooseCounted]
      split
      · rename_i first
        obtain ⟨used, within, chosen, held⟩ := ih (counter + 1)
        refine ⟨used + 1, by omega, ?_, ?_⟩
        · rw [chosen, Nat.add_right_comm, Nat.add_assoc]
        · intro last tried bounded
          cases tried with
          | zero => exact first
          | succ tried =>
              have later := held (by
                rw [Nat.add_right_comm, Nat.add_assoc]
                exact last) tried (by omega)
              rw [Nat.add_right_comm, Nat.add_assoc] at later
              exact later
      · rename_i free
        exact ⟨0, Nat.zero_le _, rfl, fun held => absurd held free⟩

theorem chooseCounted_free (existingNames : List Text) (candidate : Text)
    (counter : Nat) :
    chooseCounted existingNames candidate existingNames.length counter ∉
      existingNames := by
  intro held
  obtain ⟨used, -, chosen, all⟩ :=
    chooseCounted_eq existingNames candidate existingNames.length counter
  rw [chosen] at held
  let tried := (List.range (existingNames.length + 1)).map
    fun number => counted candidate (counter + number)
  have distinct : tried.Nodup := by
    apply List.Nodup.map _ List.nodup_range
    intro left right same
    exact Nat.add_left_cancel (counted_injective candidate same)
  have inside : tried ⊆ existingNames := by
    intro name member
    obtain ⟨number, inRange, rfl⟩ := List.mem_map.mp member
    have bound := List.mem_range.mp inRange
    exact all held number (Nat.le_of_lt_succ bound)
  have longer := (List.subperm_of_subset distinct inside).length_le
  simp only [tried, List.length_map, List.length_range] at longer
  omega

theorem chooseMcpToolExposureName_spec (sha256 : Text → List UInt8)
    (existingNames : List Text) (input : ExposureInput)
    (few : existingNames.length < 10 ^ 61) :
    let name := chooseMcpToolExposureName sha256 existingNames input
    matchesProvider name = true ∧ name ∉ existingNames := by
  simp only [chooseMcpToolExposureName]
  have hashed := hashedCandidate_chars sha256 input
  split
  · assumption
  · split
    · rename_i free
      exact ⟨hashed, free⟩
    · refine ⟨?_, chooseCounted_free _ _ _⟩
      obtain ⟨used, within, chosen, -⟩ := chooseCounted_eq existingNames
        (hashedCandidate sha256 input) existingNames.length 2
      rw [chosen]
      apply counted_matches hashed
      have powers : (10 : Nat) ^ 61 + 2 ≤ 10 ^ 62 := by decide
      omega

end Takos.McpTools
