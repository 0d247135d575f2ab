import Mathlib.Algebra.GroupWithZero.Nat
import Mathlib.Data.List.Infix
import Mathlib.Data.List.DropRight

/-!
# Strings of the source language

A string is a list of characters.  Lengths and comparisons are taken over
UTF-16 code units, as in the source language; trimming removes its white space
and line terminators at both ends.
-/

namespace Takos.Foundation

abbrev Text := List Char

instance : LawfulBEq Text := inferInstance

namespace Text

/-- White space and line terminators removed by `trim`. -/
def isSpace (char : Char) : Bool :=
  let code := char.toNat
  (9 ≤ code && code ≤ 13) || code = 0x20 || code = 0xA0 || code = 0x1680 ||
    (0x2000 ≤ code && code ≤ 0x200A) || code = 0x2028 || code = 0x2029 ||
    code = 0x202F || code = 0x205F || code = 0x3000 || code = 0xFEFF

def trimStart (text : Text) : Text := text.dropWhile isSpace

def trimEnd (text : Text) : Text :=
  (text.reverse.dropWhile isSpace).reverse

def trim (text : Text) : Text := trimEnd (trimStart text)

/-- UTF-16 code units of a string. -/
def codeUnits (text : Text) : List Nat :=
  text.flatMap fun char =>
    if char.toNat < 0x10000 then [char.toNat]
    else
      [0xD800 + (char.toNat - 0x10000) / 0x400,
        0xDC00 + (char.toNat - 0x10000) % 0x400]

/-- The `length` of a string. -/
def size (text : Text) : Nat := text.codeUnits.length

/-- Bytes of the text in UTF-8. -/
def encodedSize (text : Text) : Nat := (text.map Char.utf8Size).sum

/-- Lexicographic comparison of code units: the operator `<` on strings. -/
def unitsLt : List Nat → List Nat → Bool
  | _, [] => false
  | [], _ :: _ => true
  | left :: lefts, right :: rights =>
    if left < right then true
    else if right < left then false
    else unitsLt lefts rights

def lt (left right : Text) : Bool := unitsLt left.codeUnits right.codeUnits

/-- `text.padStart(width, fill)`. -/
def padStart (width : Nat) (fill : Char) (text : Text) : Text :=
  List.replicate (width - text.size) fill ++ text

/-- `encodeURIComponent`: other characters become their UTF-8 bytes. -/
def encodeURIComponent (text : Text) : Text :=
  text.flatMap fun char =>
    if char.isAlphanum || "-_.!~*'()".toList.contains char then [char]
    else
      (String.utf8EncodeChar char).flatMap fun byte =>
        '%' :: (padStart 2 '0' (Nat.toDigits 16 byte.toNat)).map Char.toUpper

def startsWith (text needle : Text) : Bool := needle.isPrefixOf text

def endsWith (text needle : Text) : Bool := needle.isSuffixOf text

/-- `text.includes(needle)`. -/
def includes (text needle : Text) : Bool :=
  text.tails.any (fun tail => needle.isPrefixOf tail)

def split (separator : Char) (text : Text) : List Text :=
  text.splitOn separator

def join (separator : Char) (parts : List Text) : Text :=
  [separator].intercalate parts

theorem size_append (front back : Text) :
    size (front ++ back) = size front + size back := by
  simp [size, codeUnits]

theorem length_le_size (text : Text) : text.length ≤ text.size := by
  induction text with
  | nil => exact Nat.le_refl 0
  | cons char text ih =>
      have first : 1 ≤ size [char] := by
        simp only [size, codeUnits, List.flatMap_singleton]
        split
        · exact Nat.le_refl 1
        · exact Nat.le_succ 1
      have whole := size_append [char] text
      rw [List.singleton_append] at whole
      rw [List.length_cons, whole]
      omega

theorem join_split (separator : Char) (text : Text) :
    join separator (split separator text) = text :=
  List.intercalate_splitOn separator

theorem split_join {separator : Char} {parts : List Text}
    (clean : ∀ part ∈ parts, separator ∉ part) (nonempty : parts ≠ []) :
    split separator (join separator parts) = parts :=
  List.splitOn_intercalate separator clean nonempty

theorem split_append_cons (separator : Char) (front back : Text) :
    split separator (front ++ separator :: back) =
      split separator front ++ split separator back :=
  List.splitOn_append_cons_self front back

@[simp] theorem join_nil (separator : Char) : join separator [] = [] := rfl

@[simp] theorem join_singleton (separator : Char) (part : Text) :
    join separator [part] = part := by
  simp [join, List.intercalate]

theorem join_cons_cons (separator : Char) (part next : Text)
    (rest : List Text) :
    join separator (part :: next :: rest) =
      part ++ separator :: join separator (next :: rest) := by
  simp [join, List.intercalate]

theorem join_append_singleton (separator : Char) {parts : List Text}
    (nonempty : parts ≠ []) (last : Text) :
    join separator (parts ++ [last]) =
      join separator parts ++ separator :: last := by
  induction parts with
  | nil => exact absurd rfl nonempty
  | cons part rest ih =>
      cases rest with
      | nil => simp [join_cons_cons]
      | cons next rest =>
          have tail := ih (by simp)
          simp only [List.cons_append] at tail ⊢
          rw [join_cons_cons, tail, join_cons_cons]
          simp

theorem join_append (separator : Char) {front back : List Text}
    (frontNonempty : front ≠ []) (backNonempty : back ≠ []) :
    join separator (front ++ back) =
      join separator front ++ separator :: join separator back := by
  induction front with
  | nil => exact absurd rfl frontNonempty
  | cons part rest ih =>
      cases rest with
      | nil =>
          cases back with
          | nil => exact absurd rfl backNonempty
          | cons next others =>
              simp [join_cons_cons]
      | cons next rest =>
          have tail := ih (by simp)
          simp only [List.cons_append] at tail ⊢
          rw [join_cons_cons, tail, join_cons_cons]
          simp

theorem mem_of_mem_trim {char : Char} {text : Text}
    (member : char ∈ trim text) : char ∈ text := by
  have suffix : trimStart text <:+ text := List.dropWhile_suffix _
  have pre : (trim text).reverse <:+ (trimStart text).reverse := by
    unfold trim trimEnd
    rw [List.reverse_reverse]
    exact List.dropWhile_suffix _
  exact suffix.subset (by simpa using pre.subset (by simpa using member))

theorem trim_eq_self {text : Text}
    (first : ∀ char, text.head? = some char → isSpace char = false)
    (last : ∀ char, text.getLast? = some char → isSpace char = false) :
    trim text = text := by
  have start : trimStart text = text := by
    cases text with
    | nil => rfl
    | cons char rest =>
        have plain := first char rfl
        simp [trimStart, plain]
  have finish : ∀ reversed : Text,
      (∀ char, reversed.head? = some char → isSpace char = false) →
      reversed.dropWhile isSpace = reversed := by
    intro reversed plain
    cases reversed with
    | nil => rfl
    | cons char rest => simp [plain char rfl]
  unfold trim
  rw [start, trimEnd, finish text.reverse (by simpa using last),
    List.reverse_reverse]

theorem trimEnd_idem (text : Text) :
    trimEnd (trimEnd text) = trimEnd text :=
  List.rdropWhile_idempotent isSpace text

theorem trimStart_trimEnd {text : Text} (trimmed : trimStart text = text) :
    trimStart (trimEnd text) = trimEnd text := by
  have pre : trimEnd text <+: text := List.rdropWhile_prefix isSpace text
  cases shape : trimEnd text with
  | nil => rfl
  | cons char rest =>
      obtain ⟨others, whole⟩ := pre
      rw [shape] at whole
      have kept : isSpace char = false := by
        by_contra space
        have spaceTrue : isSpace char = true := by simpa using space
        rw [← whole] at trimmed
        have shorter : (trimStart (char :: rest ++ others)).length ≤
            (rest ++ others).length := by
          simp only [trimStart, List.cons_append, List.dropWhile_cons,
            spaceTrue, if_true]
          exact (List.dropWhile_suffix isSpace).length_le
        rw [trimmed] at shorter
        simp only [List.cons_append, List.length_cons] at shorter
        omega
      simp [trimStart, kept]

theorem prefix_trimEnd (front back : Text) {char : Char}
    (visible : isSpace char = false) :
    front ++ [char] <+: trimEnd (front ++ char :: back) := by
  induction back using List.reverseRecOn with
  | nil =>
      have kept : trimEnd (front ++ [char]) = front ++ [char] := by
        simp [trimEnd, visible]
      rw [kept]
  | append_singleton back last ih =>
      have shape : front ++ char :: (back ++ [last]) =
          (front ++ char :: back) ++ [last] := by simp
      rw [shape]
      by_cases space : isSpace last = true
      · have dropped : trimEnd ((front ++ char :: back) ++ [last]) =
            trimEnd (front ++ char :: back) := by
          simp only [trimEnd, List.reverse_append, List.reverse_singleton,
            List.singleton_append, List.dropWhile_cons, space, if_true]
        rw [dropped]
        exact ih
      · have kept : trimEnd ((front ++ char :: back) ++ [last]) =
            (front ++ char :: back) ++ [last] := by
          simp [trimEnd, space]
        rw [kept]
        exact ⟨back ++ [last], by simp⟩

theorem length_lt_trim_append {front : Text} (back : Text) {char : Char}
    (trimmed : trim front = front) (nonempty : front ≠ [])
    (visible : isSpace char = false) :
    front.length < (trim (front ++ char :: back)).length := by
  have start : trimStart (front ++ char :: back) = front ++ char :: back := by
    cases front with
    | nil => exact absurd rfl nonempty
    | cons first rest =>
        have kept : isSpace first = false := by
          by_contra space
          have spaceTrue : isSpace first = true := by simpa using space
          have shorter := (List.rdropWhile_prefix isSpace
            (trimStart (first :: rest))).length_le
          have front : (rest.dropWhile isSpace).length ≤ rest.length :=
            (List.dropWhile_suffix isSpace).length_le
          have whole : List.rdropWhile isSpace (trimStart (first :: rest)) =
              first :: rest := trimmed
          rw [whole] at shorter
          simp only [trimStart, List.dropWhile_cons, spaceTrue, if_true,
            List.length_cons] at shorter
          omega
        simp [trimStart, kept]
  simp only [trim, start]
  have longer := (prefix_trimEnd front back visible).length_le
  simp only [List.length_append, List.length_singleton] at longer
  omega

theorem trim_idem (text : Text) : trim (trim text) = trim text := by
  have start : trimStart (trimStart text) = trimStart text :=
    List.dropWhile_idempotent isSpace text
  simp only [trim]
  rw [trimStart_trimEnd start, trimEnd_idem]

end Text

end Takos.Foundation

/-!
# Cutting a text

A text is cut around the last occurrence of a character, around its first
blank line, or into the parts between separators, and white space is dropped
at its ends.
-/

namespace Takos.Foundation

namespace Text

/-- The text before and after the last `char`. -/
def cutLast (char : Char) : Text → Option (Text × Text)
  | [] => none
  | first :: rest =>
    match cutLast char rest with
    | some (front, back) => some (first :: front, back)
    | none => if first = char then some ([], rest) else none

/-- The text before and after the first two line feeds in a row. -/
def cutBlankLine : Text → Option (Text × Text)
  | [] => none
  | first :: rest =>
    if first = '\n' ∧ rest.head? = some '\n' then some ([], rest.tail)
    else (cutBlankLine rest).map fun (front, back) => (first :: front, back)

theorem cutLast_eq_none {char : Char} {text : Text} :
    cutLast char text = none ↔ char ∉ text := by
  induction text with
  | nil => simp [cutLast]
  | cons first rest ih =>
      rw [cutLast, List.mem_cons, not_or]
      cases found : cutLast char rest with
      | some cut =>
          have present : ¬char ∉ rest := by
            rw [← ih, found]
            exact Option.some_ne_none cut
          simp [present]
      | none => simp [ih.mp found, eq_comm]

theorem cutLast_append (front : Text) {char : Char} {back : Text}
    (absent : char ∉ back) :
    cutLast char (front ++ char :: back) = some (front, back) := by
  induction front with
  | nil =>
      rw [List.nil_append, cutLast, cutLast_eq_none.mpr absent]
      exact if_pos rfl
  | cons first front ih => rw [List.cons_append, cutLast, ih]

theorem cutLast_append_of_some (front : Text) {char : Char}
    {text before after : Text} (cut : cutLast char text = some (before, after)) :
    cutLast char (front ++ text) = some (front ++ before, after) := by
  induction front with
  | nil => exact cut
  | cons first front ih => rw [List.cons_append, cutLast, ih, List.cons_append]

theorem cutLast_eq_some {char : Char} {text front back : Text}
    (cut : cutLast char text = some (front, back)) :
    text = front ++ char :: back ∧ char ∉ back := by
  induction text generalizing front back with
  | nil => cases cut
  | cons first rest ih =>
      rw [cutLast] at cut
      split at cut
      · rename_i later after found
        obtain ⟨rfl, rfl⟩ := Prod.mk.inj (Option.some.inj cut)
        obtain ⟨whole, absent⟩ := ih found
        exact ⟨by rw [whole, List.cons_append], absent⟩
      · rename_i none
        split at cut
        · rename_i same
          obtain ⟨rfl, rfl⟩ := Prod.mk.inj (Option.some.inj cut)
          exact ⟨by rw [same, List.nil_append], cutLast_eq_none.mp none⟩
        · cases cut

theorem cutBlankLine_append {line : Text} (whole : '\n' ∉ line) (rest : Text) :
    cutBlankLine (line ++ rest) =
      (cutBlankLine rest).map fun cut => (line ++ cut.1, cut.2) := by
  induction line with
  | nil => simp
  | cons first line ih =>
      have different : ¬first = '\n' := by
        intro same
        exact whole (by simp [same])
      rw [List.cons_append, cutBlankLine, if_neg (fun both => different both.1),
        ih (fun member => whole (List.mem_cons_of_mem _ member)),
        Option.map_map]
      rfl

theorem cutBlankLine_join {lines : List Text}
    (clean : ∀ line ∈ lines, '\n' ∉ line) (filled : ∀ line ∈ lines, line ≠ [])
    (nonempty : lines ≠ []) (message : Text) :
    cutBlankLine (join '\n' lines ++ '\n' :: '\n' :: message) =
      some (join '\n' lines, message) := by
  induction lines with
  | nil => exact absurd rfl nonempty
  | cons line lines ih =>
      have lineClean := clean line List.mem_cons_self
      cases lines with
      | nil =>
          rw [join_singleton, cutBlankLine_append lineClean, cutBlankLine,
            if_pos ⟨rfl, rfl⟩]
          simp
      | cons next lines =>
          have later := ih
            (fun line member => clean line (List.mem_cons_of_mem _ member))
            (fun line member => filled line (List.mem_cons_of_mem _ member))
            (List.cons_ne_nil _ _)
          obtain ⟨first, others, nextShape⟩ := List.exists_cons_of_ne_nil
            (filled next (List.mem_cons_of_mem _ List.mem_cons_self))
          have visible : first ≠ '\n' := by
            rintro rfl
            exact clean next (List.mem_cons_of_mem _ List.mem_cons_self)
              (by simp [nextShape])
          have start : ∃ more, join '\n' (next :: lines) = first :: more := by
            cases lines with
            | nil => exact ⟨others, by rw [join_singleton, nextShape]⟩
            | cons _ _ => exact ⟨_, by rw [join_cons_cons, nextShape]; rfl⟩
          obtain ⟨more, startShape⟩ := start
          rw [join_cons_cons, List.append_assoc, cutBlankLine_append lineClean,
            List.cons_append, cutBlankLine]
          rw [if_neg]
          · rw [later]
            rfl
          · rw [startShape]
            intro both
            exact visible (Option.some.inj both.2)

theorem mem_of_mem_split {separator char : Char} {text part : Text}
    (member : part ∈ split separator text) (inside : char ∈ part) :
    char ∈ text ∧ char ≠ separator := by
  induction text generalizing part with
  | nil =>
      rw [split, List.splitOn_nil, List.mem_singleton] at member
      rw [member] at inside
      cases inside
  | cons first rest ih =>
      have further : ∀ {part : Text}, part ∈ split separator rest →
          char ∈ part → char ∈ first :: rest ∧ char ≠ separator := by
        intro part member inside
        obtain ⟨later, different⟩ := ih member inside
        exact ⟨List.mem_cons_of_mem _ later, different⟩
      rw [split, List.splitOn_cons_eq_if_modifyHead] at member
      split at member
      · cases List.mem_cons.mp member with
        | inl empty =>
            rw [empty] at inside
            cases inside
        | inr later => exact further later inside
      · rename_i different
        cases parts : rest.splitOn separator with
        | nil => exact absurd parts (List.splitOn_ne_nil separator rest)
        | cons front others =>
            rw [parts, List.modifyHead_cons] at member
            cases List.mem_cons.mp member with
            | inl whole =>
                rw [whole] at inside
                cases List.mem_cons.mp inside with
                | inl same =>
                    rw [same]
                    exact ⟨List.mem_cons_self, by simpa using different⟩
                | inr later =>
                    have front : front ∈ split separator rest := by
                      rw [split, parts]
                      exact List.mem_cons_self
                    exact further front later
            | inr later =>
                have other : part ∈ split separator rest := by
                  rw [split, parts]
                  exact List.mem_cons_of_mem _ later
                exact further other inside

theorem trimEnd_append (front back : Text) :
    trimEnd (front ++ back) =
      if trimEnd back = [] then trimEnd front else front ++ trimEnd back := by
  simp only [trimEnd, List.reverse_append, List.dropWhile_append,
    List.reverse_eq_nil_iff, List.isEmpty_iff]
  split
  · rfl
  · rw [List.reverse_append, List.reverse_reverse]

theorem trim_append_space (text : Text) :
    trim (text ++ [' ']) = trim text := by
  have back : trimEnd [' '] = [] := rfl
  simp only [trim, trimStart, List.dropWhile_append, List.isEmpty_iff]
  split
  · rename_i blank
    rw [blank]
    rfl
  · rw [trimEnd_append, if_pos back]

end Text

end Takos.Foundation
