import Takos.Git.CommitFile
import Takos.Git.CommitText

/-!
# Reading a commit back

As long as no header field holds a line feed, each header is read from its own
field whatever the message is.  A commit is read back unchanged exactly where
also its tree is not empty and the parts of its signatures are delimited.
-/

namespace Takos.Git

open Takos.Foundation

structure GitSignature.OneLine (sig : GitSignature) : Prop where
  name_line : '\n' ∉ sig.name
  email_line : '\n' ∉ sig.email
  offset_line : '\n' ∉ sig.tzOffset

/-- No header field holds a line feed. -/
structure OneLineHeaders (commit : CommitContent Text) : Prop where
  tree_line : '\n' ∉ commit.tree
  parents_line : ∀ parent ∈ commit.parents, '\n' ∉ parent
  author_line : commit.author.OneLine
  committer_line : commit.committer.OneLine

/-- The commits that the format can hold. -/
structure Representable (commit : CommitContent Text) : Prop where
  one_line : OneLineHeaders commit
  tree_present : commit.tree ≠ []
  author_delimited : commit.author.Delimited
  committer_delimited : commit.committer.Delimited

/-- The commit read back unchanged. -/
def asRead (commit : CommitContent Text) : ReadCommit where
  sha := []
  tree := commit.tree
  parents := commit.parents
  author := commit.author.asRead
  committer := commit.committer.asRead
  message := commit.message

theorem signatureText_line {sig : GitSignature} (line : sig.OneLine) :
    '\n' ∉ signatureText sig := by
  have digits : '\n' ∉ decimal sig.timestamp := by
    intro member
    exact absurd (decimal_visible member) (by decide)
  have name := line.name_line
  have email := line.email_line
  have tzOffset := line.offset_line
  simp [signatureText, name, email, tzOffset, digits]

theorem headerLines_eq (commit : CommitContent Text) :
    headerLines commit =
      (treeKey ++ commit.tree) :: (commit.parents.map (parentKey ++ ·) ++
        [authorKey ++ signatureText commit.author,
          committerKey ++ signatureText commit.committer]) := by
  rw [headerLines, formatSignature_eq, formatSignature_eq]
  rfl

variable {commit : CommitContent Text}

theorem mem_headerLines {line : Text} :
    line ∈ headerLines commit ↔ line = treeKey ++ commit.tree ∨
      (∃ parent ∈ commit.parents, line = parentKey ++ parent) ∨
      line = authorKey ++ signatureText commit.author ∨
      line = committerKey ++ signatureText commit.committer := by
  simp [headerLines_eq, eq_comm]

theorem headerLines_line (headers : OneLineHeaders commit) :
    ∀ line ∈ headerLines commit, '\n' ∉ line := by
  have keys : '\n' ∉ treeKey ∧ '\n' ∉ parentKey ∧ '\n' ∉ authorKey ∧
      '\n' ∉ committerKey := by
    decide
  obtain ⟨tree, parent, author, committer⟩ := keys
  intro line member
  rcases mem_headerLines.mp member with
    rfl | ⟨sha, parentMember, rfl⟩ | rfl | rfl
  · exact List.not_mem_append tree headers.tree_line
  · exact List.not_mem_append parent (headers.parents_line sha parentMember)
  · exact List.not_mem_append author (signatureText_line headers.author_line)
  · exact List.not_mem_append committer
      (signatureText_line headers.committer_line)

theorem headerLines_filled (commit : CommitContent Text) :
    ∀ line ∈ headerLines commit, line ≠ [] := by
  intro line member
  rcases mem_headerLines.mp member with
    rfl | ⟨sha, parentMember, rfl⟩ | rfl | rfl <;> exact List.cons_ne_nil _ _

theorem headerLines_ne_nil (commit : CommitContent Text) :
    headerLines commit ≠ [] := List.cons_ne_nil _ _

theorem decodeText_encodeCommitContent (commit : CommitContent Text) :
    Utf8.decodeText (encodeCommitContent commit) =
      Text.join '\n' (headerLines commit) ++ '\n' :: '\n' :: commit.message := by
  have text : Text.join '\n' (headerLines commit ++ [[], commit.message]) =
      Text.join '\n' (headerLines commit) ++
        '\n' :: '\n' :: commit.message := by
    rw [Text.join_append '\n' (headerLines_ne_nil commit)
      (List.cons_ne_nil _ _), Text.join_cons_cons, Text.join_singleton,
      List.nil_append]
  have start : ∃ rest, Text.join '\n' (headerLines commit) = 't' :: rest := by
    cases others : commit.parents.map (parentKey ++ ·) ++
      [formatSignature "author".toList commit.author,
        formatSignature "committer".toList commit.committer] with
    | nil => exact absurd others (by simp)
    | cons next lines =>
        rw [headerLines, others, Text.join_cons_cons]
        exact ⟨_, rfl⟩
  obtain ⟨rest, startShape⟩ := start
  rw [encodeCommitContent, text]
  apply Utf8.decodeText_encode
  rw [startShape]
  have letter : 't' ≠ Utf8.byteOrderMark := by decide
  simpa using letter

theorem readHeaderLine_tree (headers : CommitHeaders) (tree : Text) :
    readHeaderLine headers (treeKey ++ tree) =
      .ok { headers with tree := tree } := rfl

theorem readHeaderLine_parent (headers : CommitHeaders) (parent : Text) :
    readHeaderLine headers (parentKey ++ parent) =
      .ok { headers with parents := headers.parents ++ [parent] } := rfl

theorem readHeaderLine_author (headers : CommitHeaders) (text : Text) :
    readHeaderLine headers (authorKey ++ text) = (do
      let author ← parseSignature text
      .ok { headers with author := some author }) := rfl

theorem readHeaderLine_committer (headers : CommitHeaders) (text : Text) :
    readHeaderLine headers (committerKey ++ text) = (do
      let committer ← parseSignature text
      .ok { headers with committer := some committer }) := rfl

theorem readParents (headers : CommitHeaders) (parents : List Text) :
    (parents.map (parentKey ++ ·)).foldlM readHeaderLine headers =
      .ok { headers with parents := headers.parents ++ parents } := by
  induction parents generalizing headers with
  | nil => simp [pure, Except.pure]
  | cons parent parents ih =>
      rw [List.map_cons, List.foldlM_cons, readHeaderLine_parent]
      change List.foldlM readHeaderLine _ _ = _
      rw [ih]
      simp

theorem readHeaderLines (commit : CommitContent Text) :
    (headerLines commit).foldlM readHeaderLine {} = (do
      let author ← parseSignature (signatureText commit.author)
      let committer ← parseSignature (signatureText commit.committer)
      .ok { tree := commit.tree, parents := commit.parents
            author := some author, committer := some committer }) := by
  rw [headerLines_eq, List.foldlM_cons, readHeaderLine_tree]
  change List.foldlM readHeaderLine _ _ = _
  rw [List.foldlM_append, readParents]
  change List.foldlM readHeaderLine _ _ = _
  rw [List.foldlM_cons, readHeaderLine_author]
  cases parseSignature (signatureText commit.author) with
  | error failure => rfl
  | ok author =>
      change List.foldlM readHeaderLine _ _ = _
      rw [List.foldlM_cons, readHeaderLine_committer]
      cases parseSignature (signatureText commit.committer) with
      | error failure => rfl
      | ok committer => rfl

theorem decodeCommit_oneLine (headers : OneLineHeaders commit)
    {author committer : ReadSignature}
    (authorRead : parseSignature (signatureText commit.author) = .ok author)
    (committerRead :
      parseSignature (signatureText commit.committer) = .ok committer) :
    decodeCommit (encodeCommitContent commit) =
      finishCommit { tree := commit.tree, parents := commit.parents
                     author := some author, committer := some committer }
        commit.message := by
  have cut := Text.cutBlankLine_join (headerLines_line headers)
    (headerLines_filled commit) (headerLines_ne_nil commit) commit.message
  have lines := Text.split_join (headerLines_line headers)
    (headerLines_ne_nil commit)
  have read := readHeaderLines commit
  rw [authorRead, committerRead] at read
  unfold decodeCommit
  dsimp only
  rw [decodeText_encodeCommitContent, cut]
  simp only [Option.getD_some]
  rw [lines, read]
  rfl

structure ReadSignature.OneLine (sig : ReadSignature) : Prop where
  name_line : '\n' ∉ sig.name
  email_line : '\n' ∉ sig.email
  offset_line : '\n' ∉ sig.tzOffset

structure CommitHeaders.OneLine (headers : CommitHeaders) : Prop where
  tree_line : '\n' ∉ headers.tree
  parents_line : ∀ parent ∈ headers.parents, '\n' ∉ parent
  author_line : ∀ sig ∈ headers.author, sig.OneLine
  committer_line : ∀ sig ∈ headers.committer, sig.OneLine

theorem parseSignature_line {raw : Text} {read : ReadSignature}
    (line : '\n' ∉ raw) (parsed : parseSignature raw = .ok read) :
    read.OneLine := by
  obtain ⟨name, email, rest, rfl, _, _, rfl⟩ := parseSignature_inv parsed
  have parts : '\n' ∉ name ∧ '\n' ∉ email ∧ '\n' ∉ rest := by
    simpa using line
  refine ⟨fun member => parts.1 (Text.mem_of_mem_trim member), parts.2.1, ?_⟩
  change '\n' ∉ (readTime (Text.split ' ' (Text.trim rest))).2
  cases readTime_offset (Text.trim rest) with
  | inl default =>
      rw [default]
      decide
  | inr word =>
      intro member
      exact parts.2.2 (Text.mem_of_mem_trim (word.2 _ member).1)

theorem drop_line {line : Text} (whole : '\n' ∉ line) (count : Nat) :
    '\n' ∉ line.drop count :=
  fun member => whole (List.mem_of_mem_drop member)

theorem readHeaderLine_line {headers after : CommitHeaders} {line : Text}
    (before : headers.OneLine) (whole : '\n' ∉ line)
    (read : readHeaderLine headers line = .ok after) : after.OneLine := by
  unfold readHeaderLine at read
  split at read
  · obtain rfl := Except.ok.inj read
    exact { before with tree_line := drop_line whole 5 }
  split at read
  · obtain rfl := Except.ok.inj read
    refine { before with parents_line := ?_ }
    intro parent member
    cases List.mem_append.mp member with
    | inl earlier => exact before.parents_line parent earlier
    | inr last =>
        rw [List.mem_singleton.mp last]
        exact drop_line whole 7
  split at read
  · cases parsed : parseSignature (line.drop 7) with
    | error failure =>
        rw [parsed] at read
        cases read
    | ok author =>
        rw [parsed] at read
        obtain rfl := Except.ok.inj read
        refine { before with author_line := ?_ }
        intro sig found
        rw [← Option.some.inj found]
        exact parseSignature_line (drop_line whole 7) parsed
  split at read
  · cases parsed : parseSignature (line.drop 10) with
    | error failure =>
        rw [parsed] at read
        cases read
    | ok committer =>
        rw [parsed] at read
        obtain rfl := Except.ok.inj read
        refine { before with committer_line := ?_ }
        intro sig found
        rw [← Option.some.inj found]
        exact parseSignature_line (drop_line whole 10) parsed
  · obtain rfl := Except.ok.inj read
    exact before

theorem readHeaderLines_line {lines : List Text} {headers after : CommitHeaders}
    (before : headers.OneLine) (whole : ∀ line ∈ lines, '\n' ∉ line)
    (read : lines.foldlM readHeaderLine headers = .ok after) :
    after.OneLine := by
  induction lines generalizing headers with
  | nil =>
      obtain rfl := Except.ok.inj read
      exact before
  | cons line lines ih =>
      rw [List.foldlM_cons] at read
      cases first : readHeaderLine headers line with
      | error failure =>
          rw [first] at read
          cases read
      | ok next =>
          rw [first] at read
          apply ih _ _ read
          · exact readHeaderLine_line before (whole line List.mem_cons_self)
              first
          · intro line member
            exact whole line (List.mem_cons_of_mem _ member)

theorem decodeCommit_line {content : List UInt8} {read : ReadCommit}
    (decoded : decodeCommit content = .ok read) :
    '\n' ∉ read.tree ∧ (∀ parent ∈ read.parents, '\n' ∉ parent) ∧
      read.author.OneLine ∧ read.committer.OneLine := by
  unfold decodeCommit at decoded
  dsimp only at decoded
  cases headersRead : (Text.split '\n'
      ((Text.cutBlankLine (Utf8.decodeText content)).getD
        (Utf8.decodeText content, [])).1).foldlM readHeaderLine {} with
  | error failure =>
      rw [headersRead] at decoded
      cases decoded
  | ok headers =>
      rw [headersRead] at decoded
      change finishCommit headers _ = _ at decoded
      have empty : CommitHeaders.OneLine {} :=
        { tree_line := List.not_mem_nil
          parents_line := fun _ member => absurd member List.not_mem_nil
          author_line := by simp
          committer_line := by simp }
      have lines := readHeaderLines_line empty
        (fun line member inside =>
          (Text.mem_of_mem_split member inside).2 rfl) headersRead
      unfold finishCommit at decoded
      split at decoded
      · rename_i author committer authorFound committerFound
        split at decoded
        · cases decoded
        · obtain rfl := Except.ok.inj decoded
          exact ⟨lines.tree_line, lines.parents_line,
            lines.author_line author authorFound,
            lines.committer_line committer committerFound⟩
      · cases decoded

theorem timestamp_small {sig : GitSignature} (dated : hasIsoDate sig = true) :
    sig.timestamp.natAbs < 2 ^ 53 := by
  have bound : sig.timestamp.natAbs ≤ 8640000000000 := by
    simpa [hasIsoDate] using dated
  omega

/-- With its tree present a commit of single lines is read: each header is what
its own field holds. -/
theorem decodeCommit_fields (headers : OneLineHeaders commit)
    (present : commit.tree ≠ []) :
    ∃ author committer,
      parseSignature (signatureText commit.author) = .ok author ∧
      parseSignature (signatureText commit.committer) = .ok committer ∧
      decodeCommit (encodeCommitContent commit) =
        .ok { sha := [], tree := commit.tree, parents := commit.parents
              author := author, committer := committer
              message := commit.message } := by
  obtain ⟨author, authorRead⟩ := parseSignature_signatureText_ok commit.author
  obtain ⟨committer, committerRead⟩ :=
    parseSignature_signatureText_ok commit.committer
  refine ⟨author, committer, authorRead, committerRead, ?_⟩
  rw [decodeCommit_oneLine headers authorRead committerRead]
  exact if_neg present

theorem oneLineHeaders_of_decoded
    (decoded : decodeCommit (encodeCommitContent commit) =
      .ok (asRead commit)) : OneLineHeaders commit := by
  obtain ⟨tree, parents, author, committer⟩ := decodeCommit_line decoded
  exact
    { tree_line := tree
      parents_line := parents
      author_line := ⟨author.name_line, author.email_line, author.offset_line⟩
      committer_line :=
        ⟨committer.name_line, committer.email_line, committer.offset_line⟩ }

theorem tree_of_decoded
    (decoded : decodeCommit (encodeCommitContent commit) =
      .ok (asRead commit)) : commit.tree ≠ [] := by
  obtain ⟨author, authorRead⟩ := parseSignature_signatureText_ok commit.author
  obtain ⟨committer, committerRead⟩ :=
    parseSignature_signatureText_ok commit.committer
  rw [decodeCommit_oneLine (oneLineHeaders_of_decoded decoded) authorRead
    committerRead] at decoded
  intro empty
  have refused := decoded.symm.trans (if_pos empty)
  cases refused

/-- A commit is read back exactly where the format can hold it, and as long as
its headers are single lines no field is read as another header. -/
theorem decodeCommit_encodeCommitContent (commit : CommitContent Text)
    (authorDated : hasIsoDate commit.author = true)
    (committerDated : hasIsoDate commit.committer = true) :
    (decodeCommit (encodeCommitContent commit) = .ok (asRead commit) ↔
      Representable commit) ∧
    (OneLineHeaders commit → commit.tree ≠ [] →
      ∃ author committer,
        parseSignature (signatureText commit.author) = .ok author ∧
        parseSignature (signatureText commit.committer) = .ok committer ∧
        decodeCommit (encodeCommitContent commit) =
          .ok { sha := [], tree := commit.tree, parents := commit.parents
                author := author, committer := committer
                message := commit.message }) := by
  have authorIff := parseSignature_signatureText (timestamp_small authorDated)
  have committerIff :=
    parseSignature_signatureText (timestamp_small committerDated)
  refine ⟨⟨fun decoded => ?_, fun representable => ?_⟩, decodeCommit_fields⟩
  · have headers := oneLineHeaders_of_decoded decoded
    have present := tree_of_decoded decoded
    obtain ⟨author, committer, authorRead, committerRead, read⟩ :=
      decodeCommit_fields headers present
    have same := Except.ok.inj (read.symm.trans decoded)
    have authorSame : author = commit.author.asRead :=
      congrArg (·.author) same
    have committerSame : committer = commit.committer.asRead :=
      congrArg (·.committer) same
    rw [authorSame] at authorRead
    rw [committerSame] at committerRead
    exact ⟨headers, present, authorIff.mp authorRead,
      committerIff.mp committerRead⟩
  · obtain ⟨headers, present, author, committer⟩ := representable
    rw [decodeCommit_oneLine headers (authorIff.mpr author)
      (committerIff.mpr committer)]
    exact if_neg present

def plainSignature : GitSignature where
  name := ['A']
  email := ['e']
  timestamp := 5
  tzOffset := ['+', '0']

def plainCommit : CommitContent Text where
  tree := ['t']
  parents := [['p']]
  author := plainSignature
  committer := plainSignature
  message := ['\n', 'm']

theorem decodeCommit_encodeCommitContent_plain :
    hasIsoDate plainSignature = true ∧
      decodeCommit (encodeCommitContent plainCommit) =
        .ok (asRead plainCommit) := by
  have line : plainSignature.OneLine := by
    constructor <;> decide
  have delimited : plainSignature.Delimited := by
    constructor <;> decide
  have headers : OneLineHeaders plainCommit := by
    refine ⟨by decide, by decide, line, line⟩
  exact ⟨rfl, (decodeCommit_encodeCommitContent plainCommit rfl rfl).1.mpr
    ⟨headers, by decide, delimited, delimited⟩⟩

/-- The name ends its own signature, adds a parent and begins another one. -/
def injectedCommit : CommitContent Text :=
  { plainCommit with
    parents := []
    author := { plainSignature with
      name := "A <a> 1 +0\nparent p\nauthor B".toList } }

theorem decodeCommit_injected :
    hasIsoDate injectedCommit.author = true ∧
      hasIsoDate injectedCommit.committer = true ∧
      injectedCommit.parents = [] ∧
      decodeCommit (encodeCommitContent injectedCommit) =
        .ok { asRead plainCommit with
          parents := [['p']]
          author := { plainSignature.asRead with name := ['B'] } } := by
  refine ⟨rfl, rfl, rfl, ?_⟩
  unfold decodeCommit
  rw [decodeText_encodeCommitContent]
  decide +kernel

end Takos.Git
