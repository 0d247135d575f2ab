import Takos.Foundation.Utf8

/-!
# Redaction of secrets

Words with the shape of a secret are replaced, and then what follows a word
`Bearer`.  The walk that does the latter reads the list that it rewrites: a
`Bearer` that it has replaced no longer guards the word behind it.
-/

namespace Takos.AgentContainer

open Takos.Foundation

/-- `char::is_whitespace`. -/
def isWhitespace (char : Char) : Bool :=
  let code := char.toNat
  (9 ≤ code && code ≤ 13) || code = 0x20 || code = 0x85 || code = 0xA0 ||
    code = 0x1680 || (0x2000 ≤ code && code ≤ 0x200A) || code = 0x2028 ||
    code = 0x2029 || code = 0x202F || code = 0x205F || code = 0x3000

def splitWhitespace (message : Text) : List Text :=
  (message.splitOnP isWhitespace).filter (· ≠ [])

def prefixNeedles : List Text :=
  ["sk-".toList, "sk_live_".toList, "sk_test_".toList, "ghp_".toList,
    "AIza".toList]

def isDigitOrUppercase (byte : UInt8) : Bool :=
  (48 ≤ byte && byte ≤ 57) || (65 ≤ byte && byte ≤ 90)

/-- An AWS access key id among the bytes: `AKIA` and 16 more. -/
def containsAccessKeyId (bytes : List UInt8) : Bool :=
  20 ≤ bytes.length && (List.range (bytes.length - 20 + 1)).any fun start =>
    (bytes.drop start).take 4 = [65, 75, 73, 65] &&
      ((bytes.drop (start + 4)).take 16).all isDigitOrUppercase

def partContainsSecretToken (part : Text) : Bool :=
  prefixNeedles.any part.includes || containsAccessKeyId (Utf8.encode part) ||
    (part.includes "eyJ".toList && part.contains '.')

def isAsciiWhitespace (char : Char) : Bool :=
  [' ', '\t', '\n', '\x0c', '\r'].contains char

def looksLikeEmail (part : Text) : Bool :=
  let domain := (part.dropWhile (· ≠ '@')).drop 1
  part.count '@' = 1 && part.takeWhile (· ≠ '@') ≠ [] && domain ≠ [] &&
    domain.contains '.' && domain.all fun char => !isAsciiWhitespace char

/-- `part.eq_ignore_ascii_case("bearer")`. -/
def isBearer (part : Text) : Bool := part.map Char.toLower = "bearer".toList

def redacted : Text := "<redacted>".toList

def hasSecretShape (part : Text) : Bool :=
  partContainsSecretToken part || looksLikeEmail part

def redactPart (part : Text) : Text :=
  if hasSecretShape part then redacted else part

/-- The walk over the parts, from one of them on. -/
def redactAfterBearer : Text → List Text → List Text
  | part, [] => [part]
  | part, next :: rest =>
    part :: redactAfterBearer
      (if isBearer part && next ≠ redacted then redacted else next) rest

def redactParts (words : List Text) : List Text :=
  match words.map redactPart with
  | [] => []
  | part :: rest => redactAfterBearer part rest

def redactSecretText (message : Text) : Text :=
  Text.join ' ' (redactParts (splitWhitespace message))

def HasShapeAt (words : List Text) (index : Nat) : Prop :=
  ∃ word, words[index]? = some word ∧ hasSecretShape word = true

def AfterBearer (words : List Text) (index : Nat) : Prop :=
  ∃ before word, index = before + 1 ∧ words[before]? = some word ∧
    isBearer word = true

def SecretAt (words : List Text) (index : Nat) : Prop :=
  HasShapeAt words index ∨ AfterBearer words index

/-- As many words, and the same ones but for secrets in both. -/
def SameButSecrets (left right : List Text) : Prop :=
  left.length = right.length ∧ ∀ index, left[index]? = right[index]? ∨
    HasShapeAt left index ∧ HasShapeAt right index ∨
    AfterBearer left index ∧ AfterBearer right index

def Removed (message : Text) : Prop :=
  ∀ index < (splitWhitespace message).length,
    SecretAt (splitWhitespace message) index →
    (splitWhitespace (redactSecretText message))[index]? = some redacted

/-- What follows two words `Bearer` in a row has the shape of a secret, or is
the mark of one. -/
def SinglyGuarded (words : List Text) : Prop :=
  ∀ index first second third, words[index]? = some first →
    words[index + 1]? = some second → words[index + 2]? = some third →
    isBearer first = true → isBearer second = true →
    hasSecretShape third = true ∨ third = redacted

theorem redacted_shape : hasSecretShape redacted = false := by decide

theorem redacted_bearer : isBearer redacted = false := by decide

theorem mem_of_includes {text needle : Text} {char : Char}
    (includes : text.includes needle = true) (within : char ∈ needle) :
    char ∈ text := by
  obtain ⟨tail, member, start⟩ := List.any_eq_true.mp includes
  exact ((List.mem_tails _ _).mp member).subset
    ((List.isPrefixOf_iff_prefix.mp start).subset within)

theorem bearer_shape {word : Text} (bearer : isBearer word = true) :
    hasSecretShape word = false := by
  have lower : word.map Char.toLower = "bearer".toList :=
    of_decide_eq_true bearer
  have letter : ∀ char ∈ word, char.toLower ∈ "bearer".toList := by
    intro char within
    rw [← lower]
    exact List.mem_map_of_mem within
  have excluded : ∀ needle char, char ∈ needle →
      char.toLower ∉ "bearer".toList → word.includes needle = false := by
    intro needle char within foreign
    apply Bool.eq_false_iff.mpr
    intro includes
    exact foreign (letter char (mem_of_includes includes within))
  have prefixes : prefixNeedles.any word.includes = false := by
    simp only [prefixNeedles, List.any_cons, List.any_nil, Bool.or_false,
      excluded "sk-".toList 's' (by decide) (by decide),
      excluded "sk_live_".toList 's' (by decide) (by decide),
      excluded "sk_test_".toList 's' (by decide) (by decide),
      excluded "ghp_".toList 'g' (by decide) (by decide),
      excluded "AIza".toList 'z' (by decide) (by decide)]
  have single : ∀ char ∈ word, (Utf8.encodeChar char).length = 1 := by
    intro char within
    have small : char.toNat < 0x80 := by
      have low := letter char within
      unfold Char.toLower at low
      split at low
      · rename_i upper
        exact (UInt32.le_iff_toNat_le.mp upper.2).trans_lt (by decide)
      · have ascii : "bearer".toList.all (·.toNat < 0x80) := by decide
        exact of_decide_eq_true (List.all_eq_true.mp ascii char low)
    rw [Utf8.encodeChar, if_pos small]
    rfl
  have short : (Utf8.encode word).length < 20 := by
    have length := congrArg List.length lower
    rw [List.length_map] at length
    rw [Utf8.encode, List.length_flatMap, List.map_congr_left single]
    simp [length]
  have keyId : containsAccessKeyId (Utf8.encode word) = false := by
    rw [containsAccessKeyId, decide_eq_false (by omega), Bool.false_and]
  have noAt : '@' ∉ word := fun within =>
    absurd (letter '@' within) (by decide)
  have email : looksLikeEmail word = false := by
    simp [looksLikeEmail, List.count_eq_zero_of_not_mem noAt]
  simp only [hasSecretShape, partContainsSecretToken, prefixes, keyId, email,
    excluded "eyJ".toList 'y' (by decide) (by decide), Bool.false_and,
    Bool.or_self]

theorem length_redactAfterBearer (part : Text) (rest : List Text) :
    (redactAfterBearer part rest).length = rest.length + 1 := by
  induction rest generalizing part with
  | nil => rfl
  | cons next rest ih => exact congrArg (· + 1) (ih _)

theorem length_redactParts (words : List Text) :
    (redactParts words).length = words.length := by
  cases words with
  | nil => rfl
  | cons word words =>
      rw [redactParts, List.map_cons]
      exact (length_redactAfterBearer _ _).trans (by simp)

theorem redactAfterBearer_next {rest : List Text} {index : Nat} {word : Text}
    (part : Text) (next : rest[index]? = some word) :
    ∃ before, (redactAfterBearer part rest)[index]? = some before ∧
      (redactAfterBearer part rest)[index + 1]? =
        some (if isBearer before = true then redacted else word) := by
  induction rest generalizing part index with
  | nil => cases next
  | cons other rest ih =>
      cases index with
      | succ index => exact ih _ next
      | zero =>
          cases next
          have head : (redactAfterBearer (if isBearer part && word ≠ redacted
              then redacted else word) rest)[0]? =
              some (if isBearer part = true then redacted else word) := by
            cases rest <;> by_cases same : word = redacted <;>
              simp [redactAfterBearer, same]
          exact ⟨part, rfl, head⟩

section Words

variable {words : List Text} {index : Nat} {word : Text}

theorem redactParts_at (found : words[index]? = some word) :
    AfterBearer (redactParts words) index ∧
        (redactParts words)[index]? = some redacted ∨
      ¬ AfterBearer (redactParts words) index ∧
        (redactParts words)[index]? = some (redactPart word) := by
  cases words with
  | nil => cases found
  | cons first words =>
      cases index with
      | zero =>
          cases found
          refine .inr ⟨by rintro ⟨_, _, ⟨⟩, _⟩, ?_⟩
          cases words <;> rfl
      | succ index =>
          have next :
              (words.map redactPart)[index]? = some (redactPart word) := by
            rw [List.getElem?_map]
            exact congrArg (Option.map redactPart) found
          obtain ⟨before, was, now⟩ :=
            redactAfterBearer_next (redactPart first) next
          by_cases bearer : isBearer before = true
          · rw [if_pos bearer] at now
            exact .inl ⟨⟨index, before, rfl, was, bearer⟩, now⟩
          · rw [if_neg bearer] at now
            refine .inr ⟨?_, now⟩
            rintro ⟨_, part, ⟨⟩, again, other⟩
            cases was.symm.trans again
            exact bearer other

theorem redactParts_cases (found : words[index]? = some word) :
    (redactParts words)[index]? = some redacted ∨
      (redactParts words)[index]? = some word ∧
        hasSecretShape word = false := by
  rcases redactParts_at found with ⟨_, mark⟩ | ⟨_, now⟩
  · exact .inl mark
  · rw [now, redactPart]
    cases hasSecretShape word with
    | true => exact .inl rfl
    | false => exact .inr ⟨rfl, rfl⟩

theorem found_of_redacted {part : Text}
    (now : (redactParts words)[index]? = some part) :
    ∃ word, words[index]? = some word := by
  have inside := (List.getElem?_eq_some_iff.mp now).1
  rw [length_redactParts] at inside
  exact ⟨_, List.getElem?_eq_getElem inside⟩

theorem afterBearer_of_redacted
    (after : AfterBearer (redactParts words) index) :
    AfterBearer words index := by
  obtain ⟨before, part, rfl, now, bearer⟩ := after
  obtain ⟨word, found⟩ := found_of_redacted now
  rcases redactParts_cases found with mark | ⟨same, _⟩
  · cases mark.symm.trans now
    cases redacted_bearer.symm.trans bearer
  · cases same.symm.trans now
    exact ⟨before, part, rfl, found, bearer⟩

theorem redactParts_shape (shaped : HasShapeAt words index) :
    (redactParts words)[index]? = some redacted := by
  obtain ⟨word, found, shape⟩ := shaped
  rcases redactParts_cases found with mark | ⟨_, none⟩
  · exact mark
  · cases none.symm.trans shape

theorem redactParts_kept (found : words[index]? = some word)
    (open_ : ¬ SecretAt words index) :
    (redactParts words)[index]? = some word := by
  rcases redactParts_at found with ⟨after, _⟩ | ⟨_, now⟩
  · exact absurd (.inr (afterBearer_of_redacted after)) open_
  · rw [now, redactPart, if_neg]
    intro shape
    exact open_ (.inl ⟨_, found, shape⟩)

theorem redactParts_secret (guarded : SinglyGuarded words)
    (found : words[index]? = some word) (secret : SecretAt words index) :
    (redactParts words)[index]? = some redacted := by
  rcases secret with shaped | ⟨before, first, rfl, was, bearer⟩
  · exact redactParts_shape shaped
  rcases redactParts_at found with ⟨_, mark⟩ | ⟨apart, now⟩
  · exact mark
  rcases redactParts_at was with ⟨replaced, _⟩ | ⟨_, kept⟩
  · -- The walk has replaced this `Bearer`, so another one stands before it.
    obtain ⟨earlier, part, rfl, earliest, other⟩ :=
      afterBearer_of_redacted replaced
    rcases guarded earlier part first word earliest was found other bearer with
      shape | rfl
    · exact redactParts_shape ⟨word, found, shape⟩
    · exact (redactParts_cases found).elim id And.left
  · rw [redactPart, bearer_shape bearer] at kept
    exact absurd ⟨before, first, rfl, kept, bearer⟩ apart

theorem redactParts_twice (words : List Text) :
    redactParts (redactParts words) = redactParts words := by
  apply List.ext_getElem?
  intro index
  cases now : (redactParts words)[index]? with
  | none =>
      rw [List.getElem?_eq_none_iff] at now ⊢
      rwa [length_redactParts]
  | some part =>
      obtain ⟨word, found⟩ := found_of_redacted now
      rcases redactParts_at now with ⟨after, mark⟩ | ⟨_, again⟩
      · rcases redactParts_at found with ⟨_, once⟩ | ⟨apart, _⟩
        · exact mark.trans (once.symm.trans now)
        · exact absurd (afterBearer_of_redacted after) apart
      · have shapeless : hasSecretShape part = false := by
          rcases redactParts_cases found with mark | ⟨same, none⟩
          · cases mark.symm.trans now
            exact redacted_shape
          · cases same.symm.trans now
            exact none
        rw [again, redactPart, shapeless]
        rfl

theorem not_whitespace_of_mem {message part : Text}
    (member : part ∈ message.splitOnP isWhitespace) :
    ∀ char ∈ part, isWhitespace char = false := by
  induction message generalizing part with
  | nil =>
      rw [List.splitOnP_nil, List.mem_singleton] at member
      simp [member]
  | cons first rest ih =>
      obtain ⟨head, tail, split⟩ := List.exists_cons_of_ne_nil
        (List.splitOnP_ne_nil isWhitespace rest)
      rw [List.splitOnP_cons_eq_if_modifyHead, split] at member
      rw [split] at ih
      split at member
      · cases List.mem_cons.mp member with
        | inl empty => simp [empty]
        | inr later => exact ih later
      · rename_i visible
        cases List.mem_cons.mp member with
        | inl same =>
            rw [same, List.forall_mem_cons]
            exact ⟨Bool.eq_false_iff.mpr visible, ih (.head _)⟩
        | inr later => exact ih (.tail _ later)

theorem splitWhitespace_join {parts : List Text}
    (clean : ∀ part ∈ parts,
      part ≠ [] ∧ ∀ char ∈ part, isWhitespace char = false) :
    splitWhitespace (Text.join ' ' parts) = parts := by
  induction parts with
  | nil => rfl
  | cons part rest ih =>
      obtain ⟨⟨nonempty, visible⟩, others⟩ := List.forall_mem_cons.mp clean
      cases rest with
      | nil =>
          rw [Text.join_singleton, splitWhitespace,
            List.splitOnP_eq_singleton visible]
          simp [nonempty]
      | cons next rest =>
          rw [Text.join_cons_cons, splitWhitespace,
            List.splitOnP_append_cons_of_forall_mem visible ' ' rfl]
          rw [List.filter_cons_of_pos (by simp [nonempty])]
          exact congrArg (part :: ·) (ih others)

theorem splitWhitespace_redacted (message : Text) :
    splitWhitespace (redactSecretText message) =
      redactParts (splitWhitespace message) := by
  apply splitWhitespace_join
  intro part member
  obtain ⟨index, now⟩ := List.mem_iff_getElem?.mp member
  obtain ⟨word, found⟩ := found_of_redacted now
  rcases redactParts_cases found with mark | ⟨same, _⟩
  · cases mark.symm.trans now
    have visible : redacted.all (!isWhitespace ·) := by decide
    refine ⟨by decide, fun char within => ?_⟩
    simpa using List.all_eq_true.mp visible char within
  · cases same.symm.trans now
    obtain ⟨piece, nonempty⟩ :=
      List.mem_filter.mp (List.mem_of_getElem? found)
    exact ⟨of_decide_eq_true nonempty, not_whitespace_of_mem piece⟩

theorem removed_iff (message : Text) :
    Removed message ↔ SinglyGuarded (splitWhitespace message) := by
  rw [Removed, splitWhitespace_redacted]
  constructor
  · intro removed index first second third at1 at2 at3 bearer1 bearer2
    have inside : ∀ {index word}, (splitWhitespace message)[index]? =
        some word → index < (splitWhitespace message).length :=
      fun found => (List.getElem?_eq_some_iff.mp found).1
    have mark2 := removed (index + 1) (inside at2)
      (.inr ⟨index, first, rfl, at1, bearer1⟩)
    have mark3 := removed (index + 2) (inside at3)
      (.inr ⟨index + 1, second, rfl, at2, bearer2⟩)
    rcases redactParts_at at3 with ⟨⟨before, part, ⟨⟩, was, bearer⟩, _⟩ |
      ⟨_, now⟩
    · cases mark2.symm.trans was
      cases redacted_bearer.symm.trans bearer
    · have same := Option.some.inj (now.symm.trans mark3)
      rw [redactPart] at same
      split at same
      · exact .inl ‹_›
      · exact .inr same
  · intro guarded index inside
    exact redactParts_secret guarded (List.getElem?_eq_getElem inside)

theorem SameButSecrets.symm {left right : List Text}
    (same : SameButSecrets left right) : SameButSecrets right left := by
  refine ⟨same.1.symm, fun index => ?_⟩
  exact (same.2 index).imp Eq.symm (Or.imp And.symm And.symm)

theorem SameButSecrets.redacted {left right : List Text}
    (same : SameButSecrets left right) (guardedLeft : SinglyGuarded left)
    (guardedRight : SinglyGuarded right) (alike : left[index]? = right[index]?)
    (found : left[index]? = some word) (secret : SecretAt left index) :
    (redactParts left)[index]? = (redactParts right)[index]? := by
  rw [redactParts_secret guardedLeft found secret]
  rw [alike] at found
  symm
  rcases secret with ⟨other, again, shape⟩ |
    ⟨before, first, rfl, was, bearer⟩
  · rw [alike] at again
    exact redactParts_secret guardedRight found (.inl ⟨other, again, shape⟩)
  · rcases same.2 before with still | ⟨⟨other, again, shape⟩, _⟩ |
      ⟨⟨earlier, second, rfl, earliest, guard⟩, _⟩
    · exact redactParts_secret guardedRight found
        (.inr ⟨before, first, rfl, still ▸ was, bearer⟩)
    · cases was.symm.trans again
      cases shape.symm.trans (bearer_shape bearer)
    · rcases guardedLeft earlier second first word earliest was
        (alike.trans found) guard bearer with shape | rfl
      · exact redactParts_secret guardedRight found (.inl ⟨word, found, shape⟩)
      · exact (redactParts_cases found).elim id And.left

theorem redactParts_same {left right : List Text}
    (same : SameButSecrets left right) (guardedLeft : SinglyGuarded left)
    (guardedRight : SinglyGuarded right) :
    redactParts left = redactParts right := by
  have lengths : (redactParts left).length = (redactParts right).length := by
    rw [length_redactParts, length_redactParts, same.1]
  apply List.ext_getElem?
  intro index
  cases foundLeft : left[index]? with
  | none =>
      have outside := List.getElem?_eq_none_iff.mp foundLeft
      rw [← length_redactParts] at outside
      rw [List.getElem?_eq_none outside,
        List.getElem?_eq_none (lengths ▸ outside)]
  | some word =>
      have inside := (List.getElem?_eq_some_iff.mp foundLeft).1
      have foundRight := List.getElem?_eq_getElem (same.1 ▸ inside)
      rcases same.2 index with alike | both
      · by_cases secretLeft : SecretAt left index
        · exact same.redacted guardedLeft guardedRight alike foundLeft
            secretLeft
        by_cases secretRight : SecretAt right index
        · exact (same.symm.redacted guardedRight guardedLeft alike.symm
            foundRight secretRight).symm
        rw [redactParts_kept foundLeft secretLeft,
          redactParts_kept (alike.symm.trans foundLeft) secretRight]
      · rw [redactParts_secret guardedLeft foundLeft
            (both.imp And.left And.left),
          redactParts_secret guardedRight foundRight
            (both.imp And.right And.right)]

/-- Two messages that differ in secrets only are redacted to the same text,
without the secrets and for good, exactly if no word is left behind two words
`Bearer`. -/
theorem redactions_agree_iff {left right : Text}
    (same : SameButSecrets (splitWhitespace left) (splitWhitespace right)) :
    (redactSecretText left = redactSecretText right ∧
      Removed left ∧ Removed right ∧
      redactSecretText (redactSecretText left) = redactSecretText left) ↔
    SinglyGuarded (splitWhitespace left) ∧
      SinglyGuarded (splitWhitespace right) := by
  constructor
  · rintro ⟨_, removedLeft, removedRight, _⟩
    exact ⟨(removed_iff left).mp removedLeft,
      (removed_iff right).mp removedRight⟩
  · rintro ⟨guardedLeft, guardedRight⟩
    refine ⟨congrArg (Text.join ' ')
      (redactParts_same same guardedLeft guardedRight),
      (removed_iff left).mpr guardedLeft, (removed_iff right).mpr guardedRight,
      ?_⟩
    rw [redactSecretText, splitWhitespace_redacted, redactParts_twice]
    rfl

end Words

namespace BearerTokens

def bearer : Text := "Bearer".toList

theorem guarded (token : Text) : SinglyGuarded [bearer, token] :=
  fun _ _ _ _ _ _ found => nomatch found

theorem token_redacted :
    redactSecretText "Bearer x".toList =
      redactSecretText "Bearer y".toList := by
  have left : splitWhitespace "Bearer x".toList = [bearer, ['x']] := by decide
  have right : splitWhitespace "Bearer y".toList = [bearer, ['y']] := by decide
  have same : SameButSecrets [bearer, ['x']] [bearer, ['y']] := by
    refine ⟨rfl, ?_⟩
    rintro (_ | _ | index)
    · exact .inl rfl
    · exact .inr (.inr ⟨⟨0, _, rfl, rfl, by decide⟩, 0, _, rfl, rfl, by decide⟩)
    · exact .inl rfl
  rw [← left, ← right] at same
  exact ((redactions_agree_iff same).mpr
    ⟨left ▸ guarded ['x'], right ▸ guarded ['y']⟩).1

theorem token_left :
    SameButSecrets (splitWhitespace "Bearer Bearer x".toList)
        (splitWhitespace "Bearer Bearer y".toList) ∧
      redactSecretText "Bearer Bearer x".toList ≠
        redactSecretText "Bearer Bearer y".toList := by
  have left : splitWhitespace "Bearer Bearer x".toList =
      [bearer, bearer, ['x']] := by decide
  have right : splitWhitespace "Bearer Bearer y".toList =
      [bearer, bearer, ['y']] := by decide
  rw [left, right]
  refine ⟨⟨rfl, ?_⟩, by decide⟩
  rintro (_ | _ | _ | index)
  · exact .inl rfl
  · exact .inl rfl
  · exact .inr (.inr ⟨⟨1, _, rfl, rfl, by decide⟩, 1, _, rfl, rfl, by decide⟩)
  · exact .inl rfl

end BearerTokens

end Takos.AgentContainer
