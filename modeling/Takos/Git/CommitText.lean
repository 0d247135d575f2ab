import Takos.Foundation.Decimals
import Takos.Foundation.Text
import Takos.Foundation.Utf8
import Takos.Git.Objects

/-!
# The text of a commit object

A commit is written line by line: its tree, its parents, the two signatures, an
empty line and the message.  Nothing is escaped.  A reader cuts the text at the
first blank line, tells the header lines apart by their first word, and finds
the parts of a signature around its last angle brackets.
-/

namespace Takos.Git

open Takos.Foundation

def formatSignature (key : Text) (sig : GitSignature) : Text :=
  key ++ ' ' :: sig.name ++ ' ' :: '<' :: sig.email ++ '>' :: ' ' ::
    decimal sig.timestamp ++ ' ' :: sig.tzOffset

def treeKey : Text := ['t', 'r', 'e', 'e', ' ']
def parentKey : Text := ['p', 'a', 'r', 'e', 'n', 't', ' ']
def authorKey : Text := ['a', 'u', 't', 'h', 'o', 'r', ' ']
def committerKey : Text := ['c', 'o', 'm', 'm', 'i', 't', 't', 'e', 'r', ' ']

/-- The lines before the empty one. -/
def headerLines (commit : CommitContent Text) : List Text :=
  (treeKey ++ commit.tree) :: (commit.parents.map (parentKey ++ ·) ++
    [formatSignature "author".toList commit.author,
      formatSignature "committer".toList commit.committer])

def encodeCommitContent (commit : CommitContent Text) : List UInt8 :=
  Utf8.encode
    (Text.join '\n' (headerLines commit ++ [[], commit.message]))

/-- A signature as it is read: a time that is no number is `NaN`, here
`none`. -/
structure ReadSignature where
  name : Text
  email : Text
  timestamp : Option Int
  tzOffset : Text
  deriving DecidableEq

structure ReadCommit where
  sha : Text
  tree : Text
  parents : List Text
  author : ReadSignature
  committer : ReadSignature
  message : Text
  deriving DecidableEq

inductive CommitTextError where
  | noEmail
  | noEmailStart
  | missingFields
  deriving DecidableEq, Repr

def CommitTextError.message : CommitTextError → String
  | .noEmail => "Invalid signature: no email"
  | .noEmailStart => "Invalid signature: no email start"
  | .missingFields => "Invalid commit object: missing required fields"

/-- What the first and the second of the parts after the email stand for. -/
def readTime (parts : List Text) : Option Int × Text :=
  let tzOffset := parts[1]?.getD []
  (parseInt (parts[0]?.getD []),
    if tzOffset = [] then "+0000".toList else tzOffset)

def parseSignature (raw : Text) : Except CommitTextError ReadSignature :=
  match Text.cutLast '>' raw with
  | none => .error .noEmail
  | some (upToEmail, rest) =>
    match Text.cutLast '<' upToEmail with
    | none => .error .noEmailStart
    | some (name, email) =>
      let time := readTime (Text.split ' ' (Text.trim rest))
      .ok { name := Text.trim name, email := email
            timestamp := time.1, tzOffset := time.2 }

/-- The variables of `decodeCommit`. -/
structure CommitHeaders where
  tree : Text := []
  parents : List Text := []
  author : Option ReadSignature := none
  committer : Option ReadSignature := none

def readHeaderLine (headers : CommitHeaders) (line : Text) :
    Except CommitTextError CommitHeaders :=
  if Text.startsWith line treeKey then
    .ok { headers with tree := line.drop 5 }
  else if Text.startsWith line parentKey then
    .ok { headers with parents := headers.parents ++ [line.drop 7] }
  else if Text.startsWith line authorKey then do
    let author ← parseSignature (line.drop 7)
    .ok { headers with author := some author }
  else if Text.startsWith line committerKey then do
    let committer ← parseSignature (line.drop 10)
    .ok { headers with committer := some committer }
  else .ok headers

def finishCommit (headers : CommitHeaders) (message : Text) :
    Except CommitTextError ReadCommit :=
  match headers.author, headers.committer with
  | some author, some committer =>
    if headers.tree = [] then .error .missingFields
    else
      .ok { sha := [], tree := headers.tree, parents := headers.parents
            author := author, committer := committer, message := message }
  | _, _ => .error .missingFields

def decodeCommit (content : List UInt8) : Except CommitTextError ReadCommit := do
  let text := Utf8.decodeText content
  let cut := (Text.cutBlankLine text).getD (text, [])
  let headers ← (Text.split '\n' cut.1).foldlM readHeaderLine {}
  finishCommit headers cut.2

def signatureText (sig : GitSignature) : Text :=
  (sig.name ++ [' ']) ++ '<' :: sig.email ++ '>' ::
    (' ' :: decimal sig.timestamp ++ ' ' :: sig.tzOffset)

theorem formatSignature_eq (key : Text) (sig : GitSignature) :
    formatSignature key sig = (key ++ [' ']) ++ signatureText sig := by
  simp [formatSignature, signatureText]

/-- The signature read back unchanged. -/
def GitSignature.asRead (sig : GitSignature) : ReadSignature where
  name := sig.name
  email := sig.email
  timestamp := some sig.timestamp
  tzOffset := sig.tzOffset

/-- The reader finds the parts of the signature where they were written. -/
structure GitSignature.Delimited (sig : GitSignature) : Prop where
  name_trimmed : Text.trim sig.name = sig.name
  email_plain : '<' ∉ sig.email
  offset_present : sig.tzOffset ≠ []
  offset_word : ' ' ∉ sig.tzOffset
  offset_plain : '>' ∉ sig.tzOffset
  offset_trimmed : Text.trimEnd sig.tzOffset = sig.tzOffset

theorem readTime_written (number : Int) {tzOffset : Text}
    (word : ' ' ∉ tzOffset) :
    readTime (Text.split ' ' (Text.trim
      (' ' :: decimal number ++ ' ' :: tzOffset))) =
      (parseInt (decimal number),
        if Text.trimEnd tzOffset = [] then "+0000".toList
        else Text.trimEnd tzOffset) := by
  have start : Text.trimStart (' ' :: decimal number ++ ' ' :: tzOffset) =
      (decimal number ++ [' ']) ++ tzOffset := by
    obtain ⟨first, others, shape⟩ :=
      List.exists_cons_of_ne_nil (decimal_ne_nil number)
    have visible : Text.isSpace first = false := by
      have member : first ∈ decimal number := by
        rw [shape]
        exact List.mem_cons_self
      exact decimal_visible member
    have space : Text.isSpace ' ' = true := rfl
    simp [Text.trimStart, shape, visible, space]
  have alone : ' ' ∉ decimal number := by
    intro member
    exact absurd (decimal_visible member) (by decide)
  have back : Text.trimEnd (decimal number ++ [' ']) = decimal number := by
    have blank : Text.trimEnd [' '] = [] := rfl
    rw [Text.trimEnd_append, if_pos blank]
    apply List.rdropWhile_eq_self_iff.mpr
    intro nonempty
    have visible := decimal_visible (List.getLast_mem nonempty)
    simp [visible]
  rw [Text.trim, start, Text.trimEnd_append]
  by_cases empty : Text.trimEnd tzOffset = []
  · rw [if_pos empty, if_pos empty, back, Text.split,
      List.splitOn_eq_singleton alone]
    rfl
  · have trimmed : ' ' ∉ Text.trimEnd tzOffset := by
      intro member
      exact word ((List.rdropWhile_prefix Text.isSpace tzOffset).subset member)
    rw [if_neg empty, if_neg empty, List.append_assoc, List.singleton_append,
      Text.split_append_cons, Text.split, List.splitOn_eq_singleton alone,
      Text.split, List.splitOn_eq_singleton trimmed]
    simp [readTime, empty]

theorem parseSignature_signatureText_ok (sig : GitSignature) :
    ∃ read, parseSignature (signatureText sig) = .ok read := by
  have cut : ∃ before after, Text.cutLast '>' ('>' ::
      (' ' :: decimal sig.timestamp ++ ' ' :: sig.tzOffset)) =
        some (before, after) := by
    cases found : Text.cutLast '>' ('>' ::
      (' ' :: decimal sig.timestamp ++ ' ' :: sig.tzOffset)) with
    | none => exact absurd List.mem_cons_self (Text.cutLast_eq_none.mp found)
    | some cut => exact ⟨cut.1, cut.2, rfl⟩
  obtain ⟨before, after, found⟩ := cut
  have upToEmail := Text.cutLast_append_of_some
    ((sig.name ++ [' ']) ++ '<' :: sig.email) found
  unfold parseSignature signatureText
  rw [upToEmail]
  dsimp only
  cases start : Text.cutLast '<'
      ((sig.name ++ [' ']) ++ '<' :: sig.email ++ before) with
  | none =>
      have absent := Text.cutLast_eq_none.mp start
      exact absurd (by simp) absent
  | some names => exact ⟨_, rfl⟩

theorem parseSignature_inv {raw : Text} {read : ReadSignature}
    (parsed : parseSignature raw = .ok read) :
    ∃ name email rest, raw = (name ++ '<' :: email) ++ '>' :: rest ∧
      '<' ∉ email ∧ '>' ∉ rest ∧ read =
        { name := Text.trim name, email := email
          timestamp := (readTime (Text.split ' ' (Text.trim rest))).1
          tzOffset := (readTime (Text.split ' ' (Text.trim rest))).2 } := by
  unfold parseSignature at parsed
  split at parsed
  · cases parsed
  · rename_i upToEmail rest ending
    split at parsed
    · cases parsed
    · rename_i name email start
      obtain ⟨whole, restPlain⟩ := Text.cutLast_eq_some ending
      obtain ⟨front, emailPlain⟩ := Text.cutLast_eq_some start
      refine ⟨name, email, rest, ?_, emailPlain, restPlain,
        (Except.ok.inj parsed).symm⟩
      rw [whole, front]

theorem readTime_offset (text : Text) :
    (readTime (Text.split ' ' text)).2 = "+0000".toList ∨
      (readTime (Text.split ' ' text)).2 ≠ [] ∧
        ∀ char ∈ (readTime (Text.split ' ' text)).2,
          char ∈ text ∧ char ≠ ' ' := by
  unfold readTime
  dsimp only
  split
  · exact .inl rfl
  · rename_i present
    refine .inr ⟨present, fun char inside => ?_⟩
    cases second : (Text.split ' ' text)[1]? with
    | none =>
        rw [second] at present
        exact absurd rfl present
    | some part =>
        rw [second] at inside
        exact Text.mem_of_mem_split (List.mem_of_getElem? second) inside

theorem time_plain (number : Int) {tzOffset : Text} (plain : '>' ∉ tzOffset) :
    '>' ∉ ' ' :: decimal number ++ ' ' :: tzOffset := by
  intro member
  cases List.mem_append.mp member with
  | inl early =>
      cases List.mem_cons.mp early with
      | inl space => exact absurd space (by decide)
      | inr digits =>
          cases mem_decimal digits with
          | inl sign => exact absurd sign (by decide)
          | inr digit => exact absurd digit (by decide)
  | inr late =>
      cases List.mem_cons.mp late with
      | inl space => exact absurd space (by decide)
      | inr inside => exact plain inside

theorem parseSignature_signatureText {sig : GitSignature}
    (dated : sig.timestamp.natAbs < 2 ^ 53) :
    parseSignature (signatureText sig) = .ok sig.asRead ↔ sig.Delimited := by
  constructor
  · intro parsed
    obtain ⟨name, email, rest, whole, emailPlain, restPlain, read⟩ :=
      parseSignature_inv parsed
    have nameRead : sig.name = Text.trim name := congrArg (·.name) read
    have emailRead : sig.email = email := congrArg (·.email) read
    have offsetRead : sig.tzOffset =
        (readTime (Text.split ' ' (Text.trim rest))).2 :=
      congrArg (·.tzOffset) read
    have offset : sig.tzOffset ≠ [] ∧ ' ' ∉ sig.tzOffset ∧
        '>' ∉ sig.tzOffset := by
      rw [offsetRead]
      cases readTime_offset (Text.trim rest) with
      | inl default =>
          rw [default]
          decide
      | inr word =>
          obtain ⟨present, inside⟩ := word
          refine ⟨present, fun member => (inside _ member).2 rfl,
            fun member => ?_⟩
          exact restPlain (Text.mem_of_mem_trim (inside _ member).1)
    obtain ⟨present, word, plain⟩ := offset
    -- With no angle bracket in the offset the last one ends the email.
    have restWritten : rest =
        ' ' :: decimal sig.timestamp ++ ' ' :: sig.tzOffset := by
      have written := Text.cutLast_append
        ((sig.name ++ [' ']) ++ '<' :: sig.email)
        (time_plain sig.timestamp plain)
      have found := Text.cutLast_append (name ++ '<' :: email) restPlain
      have same : signatureText sig =
          ((sig.name ++ [' ']) ++ '<' :: sig.email) ++ '>' ::
            (' ' :: decimal sig.timestamp ++ ' ' :: sig.tzOffset) := rfl
      rw [← same, whole, found] at written
      exact (Prod.mk.inj (Option.some.inj written)).2
    rw [restWritten, readTime_written _ word] at offsetRead
    dsimp only at offsetRead
    refine ⟨?_, ?_, present, word, plain, ?_⟩
    · rw [nameRead, Text.trim_idem]
    · rwa [emailRead]
    · split at offsetRead
      · rw [offsetRead]
        decide
      · exact offsetRead.symm
  · rintro ⟨name, email, present, word, plain, trimmed⟩
    unfold parseSignature signatureText
    rw [Text.cutLast_append _ (time_plain sig.timestamp plain)]
    dsimp only
    rw [Text.cutLast_append _ email]
    dsimp only
    rw [readTime_written _ word, Text.trim_append_space, name, trimmed,
      if_neg present, parseInt_decimal dated]
    rfl

end Takos.Git
