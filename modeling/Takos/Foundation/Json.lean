import Takos.Foundation.Text
import Mathlib.Tactic.IntervalCases

/-!
# JSON values and their texts

A value is a tree; an object is the list of its fields in their order.  Numbers
and their decimal form are a parameter.  Writing a value is unambiguous: the
text determines the value, also where more text follows.
-/

namespace Takos.Foundation

inductive Json (Number : Type) where
  | null
  | bool (value : Bool)
  | number (value : Number)
  | string (value : Text)
  | array (items : List (Json Number))
  | object (fields : List (Text × Json Number))

/-- Characters of a decimal number. -/
def isNumberChar (char : Char) : Bool :=
  char.isDigit || char = '-' || char = '+' || char = '.' || char = 'e'

/-- The decimal form of the finite numbers. -/
structure NumberFormat (Number : Type) where
  isFinite : Number → Bool
  render : Number → Text
  render_ne_nil : ∀ number, render number ≠ []
  render_chars : ∀ number, ∀ char ∈ render number, isNumberChar char = true
  render_injective : ∀ left right, isFinite left = true →
    isFinite right = true → render left = render right → left = right

namespace Json

variable {Number : Type}

/-- Reading a field; a value that is no object has none. -/
def field (key : Text) : Json Number → Option (Json Number)
  | .object fields => fields.lookup key
  | _ => none

def text : Json Number → Option Text
  | .string value => some value
  | _ => none

/-- One character between the quotes of a string. -/
def escape (char : Char) : Text :=
  if char = '"' then ['\\', '"']
  else if char = '\\' then ['\\', '\\']
  else if char = '\x08' then ['\\', 'b']
  else if char = '\x0C' then ['\\', 'f']
  else if char = '\n' then ['\\', 'n']
  else if char = '\r' then ['\\', 'r']
  else if char = '\t' then ['\\', 't']
  else if char.toNat < 0x20 then
    ['\\', 'u'] ++ Text.padStart 4 '0' (Nat.toDigits 16 char.toNat)
  else [char]

def quote (value : Text) : Text := '"' :: (value.flatMap escape ++ ['"'])

section Texts

variable (format : NumberFormat Number)

mutual

/-- `JSON.stringify` without indentation. -/
def stringify : Json Number → Text
  | .null => "null".toList
  | .bool true => "true".toList
  | .bool false => "false".toList
  | .number value =>
    if format.isFinite value then format.render value else "null".toList
  | .string value => quote value
  | .array items => '[' :: (stringifyItems items ++ [']'])
  | .object fields => '{' :: (stringifyFields fields ++ ['}'])

def stringifyItems : List (Json Number) → Text
  | [] => []
  | item :: rest => stringify item ++ stringifyMoreItems rest

def stringifyMoreItems : List (Json Number) → Text
  | [] => []
  | item :: rest => ',' :: (stringify item ++ stringifyMoreItems rest)

def stringifyFields : List (Text × Json Number) → Text
  | [] => []
  | (key, value) :: rest =>
    quote key ++ ':' :: (stringify value ++ stringifyMoreFields rest)

def stringifyMoreFields : List (Text × Json Number) → Text
  | [] => []
  | (key, value) :: rest =>
    ',' :: (quote key ++ ':' :: (stringify value ++ stringifyMoreFields rest))

end

end Texts

section WellFormed

variable (allowed : Number → Prop)

mutual

/-- Allowed numbers only, and one value for each key of an object. -/
def WellFormed : Json Number → Prop
  | .null => True
  | .bool _ => True
  | .number value => allowed value
  | .string _ => True
  | .array items => WellFormedItems items
  | .object fields => (fields.map Prod.fst).Nodup ∧ WellFormedFields fields

def WellFormedItems : List (Json Number) → Prop
  | [] => True
  | item :: rest => WellFormed item ∧ WellFormedItems rest

def WellFormedFields : List (Text × Json Number) → Prop
  | [] => True
  | (_, value) :: rest => WellFormed value ∧ WellFormedFields rest

end

variable {allowed}

theorem wellFormedItems_iff {items : List (Json Number)} :
    WellFormedItems allowed items ↔
      ∀ item ∈ items, WellFormed allowed item := by
  induction items with
  | nil => simp [WellFormedItems]
  | cons item rest ih => simp [WellFormedItems, ih]

theorem wellFormedFields_iff {fields : List (Text × Json Number)} :
    WellFormedFields allowed fields ↔
      ∀ entry ∈ fields, WellFormed allowed entry.2 := by
  induction fields with
  | nil => simp [WellFormedFields]
  | cons entry rest ih =>
      obtain ⟨key, value⟩ := entry
      simp only [WellFormedFields, ih, List.forall_mem_cons]

theorem WellFormed.field {value member : Json Number} {key : Text}
    (wellFormed : WellFormed allowed value)
    (found : value.field key = some member) : WellFormed allowed member := by
  cases value with
  | object fields =>
      obtain ⟨before, after, shape, _⟩ := List.lookup_eq_some_iff.mp found
      exact wellFormedFields_iff.mp wellFormed.2 (key, member)
        (by rw [shape]; simp)
  | _ => exact absurd found (by simp [Json.field])

end WellFormed

/-- Values that the text keeps: finite numbers, unique keys. -/
abbrev Plain (format : NumberFormat Number) : Json Number → Prop :=
  WellFormed fun number => format.isFinite number = true

abbrev PlainItems (format : NumberFormat Number) : List (Json Number) → Prop :=
  WellFormedItems fun number => format.isFinite number = true

abbrev PlainFields (format : NumberFormat Number) :
    List (Text × Json Number) → Prop :=
  WellFormedFields fun number => format.isFinite number = true

/-- Values as any JSON text gives them. -/
abbrev UniqueKeys : Json Number → Prop := WellFormed fun _ => True

/-- Reading one escaped character back. -/
def unescape : Text → Option (Char × Text)
  | '\\' :: '"' :: rest => some ('"', rest)
  | '\\' :: '\\' :: rest => some ('\\', rest)
  | '\\' :: 'b' :: rest => some ('\x08', rest)
  | '\\' :: 'f' :: rest => some ('\x0C', rest)
  | '\\' :: 'n' :: rest => some ('\n', rest)
  | '\\' :: 'r' :: rest => some ('\r', rest)
  | '\\' :: 't' :: rest => some ('\t', rest)
  | '\\' :: 'u' :: '0' :: '0' :: high :: low :: rest =>
    (List.range 0x20).findSome? fun code =>
      if Text.padStart 4 '0' (Nat.toDigits 16 code) = ['0', '0', high, low] then
        some (Char.ofNat code, rest)
      else none
  | char :: rest => some (char, rest)
  | [] => none

theorem unescape_control (code : Nat) (small : code < 0x20) (rest : Text) :
    unescape (escape (Char.ofNat code) ++ rest) =
      some (Char.ofNat code, rest) := by
  interval_cases code <;> rfl

theorem unescape_escape (char : Char) (rest : Text) :
    unescape (escape char ++ rest) = some (char, rest) := by
  by_cases control : char.toNat < 0x20
  · have whole := unescape_control char.toNat control rest
    rwa [Char.ofNat_toNat] at whole
  · unfold escape
    split
    · next same =>
        rw [same]
        rfl
    · split
      · next same =>
          rw [same]
          rfl
      · next plain backslash =>
          have others : char ≠ '\x08' ∧ char ≠ '\x0C' ∧ char ≠ '\n' ∧
              char ≠ '\r' ∧ char ≠ '\t' := by
            refine ⟨?_, ?_, ?_, ?_, ?_⟩ <;> rintro rfl <;>
              exact control (by decide)
          rw [if_neg others.1, if_neg others.2.1, if_neg others.2.2.1,
            if_neg others.2.2.2.1, if_neg others.2.2.2.2]
          rw [List.singleton_append, unescape.eq_def]
          split <;> simp_all

theorem escape_cancel {left right : Char} {rest other : Text}
    (same : escape left ++ rest = escape right ++ other) :
    left = right ∧ rest = other := by
  have read := unescape_escape left rest
  rw [same, unescape_escape] at read
  injection read with pair
  injection pair with chars texts
  exact ⟨chars.symm, texts.symm⟩

theorem escape_ne_quote (char : Char) (rest other : Text) :
    escape char ++ rest ≠ '"' :: other := by
  intro same
  unfold escape at same
  split_ifs at same with quoted
  all_goals simp only [List.cons_append, List.nil_append, List.cons.injEq] at same
  all_goals first
    | exact absurd same.1 (by decide)
    | exact quoted same.1

theorem escapes_cancel (left right rest other : Text)
    (same : left.flatMap escape ++ '"' :: rest =
      right.flatMap escape ++ '"' :: other) :
    left = right ∧ rest = other := by
  induction left generalizing right with
  | nil =>
      cases right with
      | nil =>
          injection same with _ tails
          exact ⟨rfl, tails⟩
      | cons char right =>
          rw [List.flatMap_cons, List.append_assoc] at same
          exact absurd same.symm (escape_ne_quote char _ _)
  | cons char left ih =>
      cases right with
      | nil =>
          rw [List.flatMap_cons, List.append_assoc] at same
          exact absurd same (escape_ne_quote char _ _)
      | cons other_ right =>
          rw [List.flatMap_cons, List.append_assoc, List.flatMap_cons,
            List.append_assoc] at same
          obtain ⟨chars, tails⟩ := escape_cancel same
          obtain ⟨texts, rests⟩ := ih right tails
          exact ⟨by rw [chars, texts], rests⟩

theorem quote_cancel {left right rest other : Text}
    (same : quote left ++ rest = quote right ++ other) :
    left = right ∧ rest = other := by
  simp only [quote, List.cons_append, List.append_assoc, List.nil_append,
    List.cons.injEq, true_and] at same
  exact escapes_cancel left right rest other same

/-- What follows a value: nothing, or a character of no number. -/
def Ends (rest : Text) : Prop :=
  ∀ char tail, rest = char :: tail → isNumberChar char = false

theorem ends_nil : Ends [] := by
  intro char tail shape
  exact absurd shape.symm (List.cons_ne_nil char tail)

theorem ends_cons {char : Char} (plain : isNumberChar char = false)
    (tail : Text) : Ends (char :: tail) := by
  intro other rest shape
  injection shape with same _
  rw [← same]
  exact plain

section Injective

variable {format : NumberFormat Number}

theorem takeWhile_number (number : Number) {rest : Text} (ends : Ends rest) :
    (format.render number ++ rest).takeWhile isNumberChar =
      format.render number := by
  rw [List.takeWhile_append_of_pos (format.render_chars number)]
  cases rest with
  | nil => rw [List.takeWhile_nil, List.append_nil]
  | cons char tail =>
      rw [List.takeWhile_cons, ends char tail rfl]
      exact List.append_nil _

theorem render_cancel {left right : Number} {rest other : Text}
    (finite : format.isFinite left = true)
    (finiteToo : format.isFinite right = true) (ends : Ends rest)
    (endsToo : Ends other)
    (same : format.render left ++ rest = format.render right ++ other) :
    left = right ∧ rest = other := by
  have tokens := congrArg (List.takeWhile isNumberChar) same
  rw [takeWhile_number left ends, takeWhile_number right endsToo] at tokens
  rw [tokens] at same
  exact ⟨format.render_injective left right finite finiteToo tokens,
    List.append_cancel_left same⟩

/-- The first character tells the kind of a value. -/
def kindOf (char : Char) : Nat :=
  if char = 'n' then 0
  else if char = 't' then 1
  else if char = 'f' then 2
  else if char = '"' then 3
  else if char = '[' then 4
  else if char = '{' then 5
  else 6

def kind : Json Number → Nat
  | .null => 0
  | .bool true => 1
  | .bool false => 2
  | .string _ => 3
  | .array _ => 4
  | .object _ => 5
  | .number _ => 6

theorem kindOf_number {char : Char} (number : isNumberChar char = true) :
    kindOf char = 6 := by
  unfold kindOf
  split_ifs with null yes no string array object
  all_goals first
    | rfl
    | exact absurd number (by subst_vars; decide)

theorem stringify_kind {value : Json Number} (plain : Plain format value)
    (rest : Text) :
    ∃ char tail, stringify format value ++ rest = char :: tail ∧
      kindOf char = kind value ∧ char ≠ ']' := by
  cases value with
  | null => exact ⟨'n', _, rfl, rfl, by decide⟩
  | bool value =>
      cases value with
      | true => exact ⟨'t', _, rfl, rfl, by decide⟩
      | false => exact ⟨'f', _, rfl, rfl, by decide⟩
  | number value =>
      have finite : format.isFinite value = true := plain
      obtain ⟨char, tail, shape⟩ :=
        List.exists_cons_of_ne_nil (format.render_ne_nil value)
      have first : isNumberChar char = true :=
        format.render_chars value char (by rw [shape]; exact List.mem_cons_self)
      refine ⟨char, tail ++ rest, ?_, kindOf_number first, ?_⟩
      · rw [stringify, if_pos finite, shape, List.cons_append]
      · rintro rfl
        exact absurd first (by decide)
  | string value => exact ⟨'"', _, rfl, rfl, by decide⟩
  | array items => exact ⟨'[', _, rfl, rfl, by decide⟩
  | object fields => exact ⟨'{', _, rfl, rfl, by decide⟩

theorem kind_eq {left right : Json Number} {rest other : Text}
    (plain : Plain format left) (plainToo : Plain format right)
    (same : stringify format left ++ rest = stringify format right ++ other) :
    kind left = kind right := by
  obtain ⟨char, tail, shape, first, _⟩ := stringify_kind plain rest
  obtain ⟨char', tail', shape', first', _⟩ := stringify_kind plainToo other
  rw [shape, shape'] at same
  injection same with chars _
  rw [← first, ← first', chars]

theorem stringify_ne_bracket {value : Json Number}
    (plain : Plain format value) {rest other : Text} :
    stringify format value ++ rest ≠ ']' :: other := by
  obtain ⟨char, tail, shape, _, bracket⟩ := stringify_kind plain rest
  intro same
  rw [shape] at same
  injection same with chars _
  exact bracket chars

theorem ends_moreItems (items : List (Json Number)) (rest : Text) :
    Ends (stringifyMoreItems format items ++ ']' :: rest) := by
  cases items with
  | nil | cons => exact ends_cons (by decide) _

theorem ends_moreFields (fields : List (Text × Json Number)) (rest : Text) :
    Ends (stringifyMoreFields format fields ++ '}' :: rest) := by
  cases fields with
  | nil | cons => exact ends_cons (by decide) _

theorem moreItems_of_items {left right : List (Json Number)}
    {rest other : Text} (plain : PlainItems format left)
    (plainToo : PlainItems format right)
    (same : stringifyItems format left ++ ']' :: rest =
      stringifyItems format right ++ ']' :: other) :
    stringifyMoreItems format left ++ ']' :: rest =
      stringifyMoreItems format right ++ ']' :: other := by
  match left, right with
  | [], [] => exact same
  | [], item :: right =>
      simp only [stringifyItems, List.append_assoc] at same
      exact absurd same.symm (stringify_ne_bracket plainToo.1)
  | item :: left, [] =>
      simp only [stringifyItems, List.append_assoc] at same
      exact absurd same (stringify_ne_bracket plain.1)
  | item :: left, next :: right => exact congrArg (List.cons ',') same

theorem moreFields_of_fields {left right : List (Text × Json Number)}
    {rest other : Text}
    (same : stringifyFields format left ++ '}' :: rest =
      stringifyFields format right ++ '}' :: other) :
    stringifyMoreFields format left ++ '}' :: rest =
      stringifyMoreFields format right ++ '}' :: other := by
  match left, right with
  | [], [] => exact same
  | [], field :: right =>
      injection same with chars _
      exact absurd chars (by decide)
  | field :: left, [] =>
      injection same with chars _
      exact absurd chars (by decide)
  | field :: left, next :: right => exact congrArg (List.cons ',') same

mutual

theorem stringify_cancel (left right : Json Number) (rest other : Text)
    (plain : Plain format left) (plainToo : Plain format right)
    (ends : Ends rest) (endsToo : Ends other)
    (same : stringify format left ++ rest = stringify format right ++ other) :
    left = right ∧ rest = other := by
  have kinds := kind_eq plain plainToo same
  cases left with
  | null =>
      cases right with
      | null => exact ⟨rfl, List.append_cancel_left same⟩
      | bool value => cases value <;> simp [kind] at kinds
      | _ => simp [kind] at kinds
  | bool value =>
      cases right with
      | bool other_ =>
          have values : value = other_ := by
            cases value <;> cases other_ <;> simp [kind] at kinds ⊢
          rw [values] at same ⊢
          exact ⟨rfl, List.append_cancel_left same⟩
      | _ => cases value <;> simp [kind] at kinds
  | number value =>
      cases right with
      | number other_ =>
          have finite : format.isFinite value = true := plain
          have finiteToo : format.isFinite other_ = true := plainToo
          rw [stringify, stringify, if_pos finite, if_pos finiteToo] at same
          obtain ⟨numbers, tails⟩ :=
            render_cancel finite finiteToo ends endsToo same
          exact ⟨congrArg _ numbers, tails⟩
      | bool value => cases value <;> simp [kind] at kinds
      | _ => simp [kind] at kinds
  | string value =>
      cases right with
      | string other_ =>
          rw [stringify, stringify] at same
          obtain ⟨texts, tails⟩ := quote_cancel same
          exact ⟨congrArg _ texts, tails⟩
      | bool value => cases value <;> simp [kind] at kinds
      | _ => simp [kind] at kinds
  | array items =>
      cases right with
      | array others =>
          simp only [stringify, List.cons_append, List.append_assoc,
            List.nil_append, List.cons.injEq, true_and] at same
          obtain ⟨lists, tails⟩ := stringifyMoreItems_cancel items others rest
            other plain plainToo (moreItems_of_items plain plainToo same)
          exact ⟨congrArg _ lists, tails⟩
      | bool value => cases value <;> simp [kind] at kinds
      | _ => simp [kind] at kinds
  | object fields =>
      cases right with
      | object others =>
          simp only [stringify, List.cons_append, List.append_assoc,
            List.nil_append, List.cons.injEq, true_and] at same
          obtain ⟨lists, tails⟩ := stringifyMoreFields_cancel fields others rest
            other plain.2 plainToo.2 (moreFields_of_fields same)
          exact ⟨congrArg _ lists, tails⟩
      | bool value => cases value <;> simp [kind] at kinds
      | _ => simp [kind] at kinds

theorem stringifyMoreItems_cancel (left right : List (Json Number))
    (rest other : Text) (plain : PlainItems format left)
    (plainToo : PlainItems format right)
    (same : stringifyMoreItems format left ++ ']' :: rest =
      stringifyMoreItems format right ++ ']' :: other) :
    left = right ∧ rest = other := by
  cases left with
  | nil =>
      cases right with
      | nil =>
          injection same with _ tails
          exact ⟨rfl, tails⟩
      | cons item right =>
          injection same with chars _
          exact absurd chars (by decide)
  | cons item left =>
      cases right with
      | nil =>
          injection same with chars _
          exact absurd chars (by decide)
      | cons next right =>
          simp only [stringifyMoreItems, List.cons_append, List.append_assoc,
            List.cons.injEq, true_and] at same
          obtain ⟨heads, tails⟩ := stringify_cancel item next _ _ plain.1
            plainToo.1 (ends_moreItems left rest) (ends_moreItems right other)
            same
          obtain ⟨lists, rests⟩ := stringifyMoreItems_cancel left right rest
            other plain.2 plainToo.2 tails
          exact ⟨by rw [heads, lists], rests⟩

theorem stringifyMoreFields_cancel (left right : List (Text × Json Number))
    (rest other : Text) (plain : PlainFields format left)
    (plainToo : PlainFields format right)
    (same : stringifyMoreFields format left ++ '}' :: rest =
      stringifyMoreFields format right ++ '}' :: other) :
    left = right ∧ rest = other := by
  match left, right with
  | [], [] =>
      injection same with _ tails
      exact ⟨rfl, tails⟩
  | [], (key, value) :: right =>
      injection same with chars _
      exact absurd chars (by decide)
  | (key, value) :: left, [] =>
      injection same with chars _
      exact absurd chars (by decide)
  | (key, value) :: left, (key', value') :: right =>
      simp only [stringifyMoreFields, List.append_assoc, List.cons_append,
        List.cons.injEq, true_and] at same
      obtain ⟨keys, values⟩ := quote_cancel same
      injection values with _ values
      obtain ⟨heads, tails⟩ := stringify_cancel value value' _ _ plain.1
        plainToo.1 (ends_moreFields left rest) (ends_moreFields right other)
        values
      obtain ⟨lists, rests⟩ := stringifyMoreFields_cancel left right rest
        other plain.2 plainToo.2 tails
      exact ⟨by rw [keys, heads, lists], rests⟩

end

theorem stringify_injective {left right : Json Number}
    (plain : Plain format left) (plainToo : Plain format right)
    (same : stringify format left = stringify format right) : left = right := by
  have texts : stringify format left ++ [] = stringify format right ++ [] := by
    rw [same]
  exact (stringify_cancel left right [] [] plain plainToo ends_nil ends_nil
    texts).1

end Injective

end Json

/-- The natural numbers in decimal. -/
def NumberFormat.natural : NumberFormat Nat where
  isFinite _ := true
  render := Nat.toDigits 10
  render_ne_nil _ := Nat.toDigits_ne_nil
  render_chars number char member := by
    have digit : char.isDigit = true :=
      Nat.isDigit_of_mem_toDigits (by decide) (by decide) member
    rw [isNumberChar, digit]
    rfl
  render_injective left right _ _ same := by
    have read := congrArg (fun digits => Nat.ofDigitChars 10 digits 0) same
    simpa only [Nat.ofDigitChars_ten_toDigits] using read

/-- The decimal form together with `JSON.parse`, which reads every written
value back. -/
structure JsonCodec (Number : Type) extends NumberFormat Number where
  parse : Text → Option (Json Number)
  parse_stringify : ∀ value, Json.Plain toNumberFormat value →
    parse (Json.stringify toNumberFormat value) = some value

open Classical in
/-- A reading that knows the written values only. -/
noncomputable def NumberFormat.codec {Number : Type}
    (format : NumberFormat Number) : JsonCodec Number where
  toNumberFormat := format
  parse text :=
    if written : ∃ value, Json.Plain format value ∧
        Json.stringify format value = text then
      some written.choose
    else none
  parse_stringify value plain := by
    have written : ∃ other, Json.Plain format other ∧
        Json.stringify format other = Json.stringify format value :=
      ⟨value, plain, rfl⟩
    rw [dif_pos written]
    exact congrArg some (Json.stringify_injective written.choose_spec.1 plain
      written.choose_spec.2)

end Takos.Foundation
