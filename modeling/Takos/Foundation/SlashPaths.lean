import Takos.Foundation.Text

/-!
# Absolute paths

A path is a slash before each of its names.  A name is not empty and holds no
slash, so the names of a path are read back from it.
-/

namespace Takos.Foundation

namespace SlashPath

structure IsName (name : Text) : Prop where
  nonempty : name ≠ []
  noSlash : '/' ∉ name

def pathOf (names : List Text) : Text := names.flatMap ('/' :: ·)

/-- `text.split("/").filter(Boolean)`. -/
def parts (text : Text) : List Text :=
  (Text.split '/' text).filter (· ≠ [])

@[simp] theorem pathOf_nil : pathOf [] = [] := rfl

@[simp] theorem pathOf_cons (name : Text) (names : List Text) :
    pathOf (name :: names) = '/' :: (name ++ pathOf names) := by
  simp [pathOf]

@[simp] theorem pathOf_append (front back : List Text) :
    pathOf (front ++ back) = pathOf front ++ pathOf back := by
  simp [pathOf]

theorem pathOf_eq_nil {names : List Text} : pathOf names = [] ↔ names = [] := by
  cases names with
  | nil | cons => simp

/-- A text is empty, starts with a slash, is a name, or starts with a name and
a slash. -/
theorem word_cases (text : Text) :
    text = [] ∨ (∃ rest, text = '/' :: rest) ∨ IsName text ∨
      ∃ name rest, IsName name ∧ text = name ++ '/' :: rest := by
  induction text with
  | nil => exact Or.inl rfl
  | cons char text ih =>
      by_cases slash : char = '/'
      · subst slash
        exact Or.inr (Or.inl ⟨text, rfl⟩)
      · refine Or.inr (Or.inr ?_)
        have single : IsName [char] :=
          ⟨by simp, by simpa using Ne.symm slash⟩
        rcases ih with rfl | ⟨rest, rfl⟩ | name | ⟨name, rest, isName, rfl⟩
        · exact Or.inl single
        · exact Or.inr ⟨[char], rest, single, rfl⟩
        · exact Or.inl ⟨by simp, by simpa [Ne.symm slash] using name.noSlash⟩
        · exact Or.inr ⟨char :: name, rest,
            ⟨by simp, by simpa [Ne.symm slash] using isName.noSlash⟩, rfl⟩

@[simp] theorem parts_nil : parts [] = [] := by
  simp [parts, Text.split]

@[simp] theorem parts_slash (rest : Text) : parts ('/' :: rest) = parts rest := by
  have cut := Text.split_append_cons '/' [] rest
  simp only [List.nil_append] at cut
  rw [parts, cut, List.filter_append]
  simp [Text.split, parts]

theorem parts_name {name : Text} (isName : IsName name) :
    parts name = [name] := by
  have whole : Text.split '/' (Text.join '/' [name]) = [name] :=
    Text.split_join (by simpa using isName.noSlash) (by simp)
  rw [Text.join_singleton] at whole
  simp [parts, whole, isName.nonempty]

theorem parts_name_slash {name : Text} (isName : IsName name) (rest : Text) :
    parts (name ++ '/' :: rest) = name :: parts rest := by
  rw [parts, Text.split_append_cons, List.filter_append]
  have first : (Text.split '/' name).filter (· ≠ []) = [name] :=
    parts_name isName
  rw [first]
  rfl

theorem parts_pathOf {names : List Text}
    (areNames : ∀ name ∈ names, IsName name) : parts (pathOf names) = names := by
  induction names with
  | nil => simp
  | cons name names ih =>
      have isName := areNames name (by simp)
      have tail := ih (fun other member => areNames other (by simp [member]))
      rw [pathOf_cons, parts_slash]
      cases names with
      | nil => simpa using parts_name isName
      | cons next names =>
          rw [pathOf_cons, parts_name_slash isName]
          rw [pathOf_cons, parts_slash] at tail
          rw [tail]

theorem isName_of_mem_parts {text part : Text} (member : part ∈ parts text) :
    IsName part := by
  induction length : text.length using Nat.strong_induction_on
    generalizing text with
  | h size ih =>
      rcases word_cases text with rfl | ⟨rest, rfl⟩ | isName |
        ⟨name, rest, isName, rfl⟩
      · simp at member
      · rw [parts_slash] at member
        exact ih rest.length (by simp [← length]) member rfl
      · rw [parts_name isName, List.mem_singleton] at member
        exact member ▸ isName
      · rw [parts_name_slash isName, List.mem_cons] at member
        rcases member with rfl | member
        · exact isName
        · exact ih rest.length (by simp [← length]; omega) member rfl

theorem last_slash {front path name other : Text} (clean : '/' ∉ name)
    (otherClean : '/' ∉ other)
    (same : front ++ '/' :: other = path ++ '/' :: name) :
    front = path ∧ other = name := by
  rcases List.append_eq_append_iff.mp same with
    ⟨between, pathShape, tail⟩ | ⟨between, frontShape, tail⟩
  · cases between with
    | nil =>
        simp only [List.nil_append, List.cons.injEq, true_and] at tail
        exact ⟨by simpa using pathShape.symm, tail⟩
    | cons char between =>
        simp only [List.cons_append, List.cons.injEq] at tail
        exact absurd (by simp [tail.2]) otherClean
  · cases between with
    | nil =>
        simp only [List.nil_append, List.cons.injEq, true_and] at tail
        exact ⟨by simpa using frontShape, tail.symm⟩
    | cons char between =>
        simp only [List.cons_append, List.cons.injEq] at tail
        exact absurd (by simp [tail.2]) clean

/-- What starts a path with a slash is the path before its last name, or starts
that path. -/
theorem prefix_child {front path name : Text} (clean : '/' ∉ name) :
    front ++ ['/'] <+: path ++ '/' :: name ↔
      front = path ∨ front ++ ['/'] <+: path := by
  constructor
  · rintro ⟨rest, whole⟩
    have shape : front ++ '/' :: rest = path ++ '/' :: name := by
      simpa using whole
    rcases List.append_eq_append_iff.mp shape with
      ⟨between, pathShape, tail⟩ | ⟨between, frontShape, tail⟩
    · cases between with
      | nil => exact Or.inl (by simpa using pathShape.symm)
      | cons char between =>
          simp only [List.cons_append, List.cons.injEq] at tail
          right
          exact ⟨between, by simp [pathShape, ← tail.1]⟩
    · cases between with
      | nil => exact Or.inl (by simpa using frontShape)
      | cons char between =>
          simp only [List.cons_append, List.cons.injEq] at tail
          exact absurd (by simp [tail.2]) clean
  · rintro (rfl | starts)
    · exact ⟨name, by simp⟩
    · exact starts.trans (List.prefix_append _ _)

end SlashPath

end Takos.Foundation
