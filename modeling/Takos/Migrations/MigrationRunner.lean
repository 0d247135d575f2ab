import Takos.Foundation.Collation
import Takos.Foundation.Interleaving

/-!
# The migration runners

A boot looks for the marker of each file, and runs the statements of an unmarked
file and the insertion of its marker in one transaction.  Errors about objects
that exist already are passed over inside of the transaction.

A database keeps the markers, the markers of open transactions, and what was
committed; the rest of an open transaction lives with its boot.  Each call to the
database takes its answer from the boot.  The text rewritings are parameters.
-/

namespace Takos.Migrations

open Takos.Foundation

structure SqlError where
  message : Text
  code : Text
  deriving DecidableEq

def lowered (text : Text) : Text := text.map Char.toLower

/-- A match of a plain text under the flag `i`. -/
def includesIgnoringCase (text : Text) (needle : String) : Bool :=
  Text.includes (lowered text) (lowered needle.toList)

def startsIgnoringCase (text : Text) (needle : String) : Bool :=
  Text.startsWith (lowered text) (lowered needle.toList)

/-- `\s+`, and what follows. -/
def afterSpaces (text : Text) : Option Text :=
  if (text.takeWhile Text.isSpace).isEmpty then none
  else some (text.dropWhile Text.isSpace)

/-- `"[^"]+"`, and what follows. -/
def afterQuoted : Text → Option Text
  | '"' :: rest =>
    match rest.dropWhile (· ≠ '"') with
    | _ :: after =>
      if (rest.takeWhile (· ≠ '"')).isEmpty then none else some after
    | [] => none
  | _ => none

/-- `^ALTER TABLE\s+"[^"]+"\s+ADD (…)`. -/
def altersTable (statement : Text) (additions : List String) : Bool :=
  startsIgnoringCase statement "ALTER TABLE" &&
    (((afterSpaces (statement.drop "ALTER TABLE".length)).bind
      afterQuoted).bind afterSpaces).any fun rest =>
        additions.any fun addition => startsIgnoringCase rest ("ADD " ++ addition)

def createsSchema (statement : Text) : Bool :=
  startsIgnoringCase statement "CREATE TABLE" ||
    startsIgnoringCase statement "CREATE UNIQUE INDEX" ||
    startsIgnoringCase statement "CREATE INDEX"

def isRecoverableSqliteSchemaDuplication (error : SqlError)
    (normalizedStatement : Text) : Bool :=
  (includesIgnoringCase error.message "already exists" ||
      includesIgnoringCase error.message "duplicate column name") &&
    (createsSchema normalizedStatement ||
      altersTable normalizedStatement ["COLUMN"])

/-- `isSchemaDuplication`. -/
def isPostgresSchemaDuplication (error : SqlError) (postgresStatement : Text) :
    Bool :=
  (error.code = "42P07".toList || error.code = "42710".toList ||
      error.code = "42701".toList) &&
    (createsSchema postgresStatement ||
      altersTable postgresStatement ["CONSTRAINT", "COLUMN"])

def stripLeadingSqlComments (statement : Text) : Text :=
  Text.trim (Text.join '\n' ((Text.split '\n' statement).filter fun line =>
    !Text.startsWith (Text.trim line) "--".toList))

inductive Dialect where
  | sqlite | postgres
  deriving DecidableEq

def Dialect.recognises (dialect : Dialect) (error : SqlError)
    (statement : Text) : Bool :=
  match dialect with
  | sqlite => isRecoverableSqliteSchemaDuplication error statement
  | postgres => isPostgresSchemaDuplication error statement

/-- A file without content cannot be read. -/
structure MigrationFile where
  name : Text
  content : Option Text

/-- The rewritings of names and texts. -/
structure Rewriting where
  normalizeMigrationSql : Text → Text → Text
  normalizePostgresMigrationSql : Text → Text → Text
  rewriteInsertOrIgnoreForPostgres : Text → Text
  splitSqlStatements : Text → List Text

/-- What becomes of a call to the database: it may be executed, fail without an
effect, or end with a crash of the process. -/
inductive Answer where
  | executed
  | error (error : SqlError)
  | crash
  deriving DecidableEq

/-- `stripped` is what the rewritings make of a file that read the schema; the
answers are for the calls of the boot, one after another. -/
structure Boot where
  dialect : Dialect
  entries : Option (List MigrationFile)
  collation : Collation
  rewriting : Rewriting
  stripped : Text → Text
  answers : Nat → Answer

namespace Boot

variable (boot : Boot)

/-- The files of the directory in their order. -/
def files (entries : List MigrationFile) : List MigrationFile :=
  boot.collation.sortBy MigrationFile.name
    (entries.filter fun entry => Text.endsWith entry.name ".sql".toList)

/-- `migrationSql`. -/
def migrationSql (name content : Text) : Text :=
  match boot.dialect with
  | .sqlite => boot.rewriting.normalizeMigrationSql name content
  | .postgres => boot.rewriting.normalizePostgresMigrationSql name content

/-- The statements of a file, as they are executed. -/
def statementsOf (file : MigrationFile) : List Text :=
  match file.content with
  | none => []
  | some content =>
    let sql := boot.migrationSql file.name content
    if Text.trim sql = [] then []
    else
      match boot.dialect with
      | .sqlite =>
        ((boot.rewriting.splitSqlStatements (boot.stripped sql)).map
          stripLeadingSqlComments).filter (· ≠ [])
      | .postgres =>
        (((boot.rewriting.splitSqlStatements sql).map
          stripLeadingSqlComments).filter (· ≠ [])).map
            boot.rewriting.rewriteInsertOrIgnoreForPostgres

end Boot

/-- Where a boot is: how many calls it has made, its file and the files after. -/
structure BootAt where
  boot : Boot
  step : Nat
  file : MigrationFile
  rest : List MigrationFile

namespace BootAt

variable (position : BootAt)

def answer : Answer := position.boot.answers position.step

def next : BootAt := { position with step := position.step + 1 }

end BootAt

/-- Statements that were executed, each with the error that was passed over. -/
abbrev Executed := List (Text × Option SqlError)

def Executed.failed (ran : Executed) : Bool := ran.any fun entry => entry.2.isSome

structure OpenTransaction where
  position : BootAt
  remaining : List Text
  ran : Executed

namespace OpenTransaction

variable (transaction : OpenTransaction)

/-- A transaction in which no further statement is accepted. -/
def aborted : Bool :=
  transaction.position.boot.dialect = .postgres && transaction.ran.failed

def name : Text := transaction.position.file.name

def next : OpenTransaction :=
  { transaction with position := transaction.position.next }

def after (statement : Text) (error : Option SqlError)
    (remaining : List Text) : OpenTransaction :=
  { position := transaction.position.next
    remaining := remaining
    ran := transaction.ran ++ [(statement, error)] }

end OpenTransaction

/-- A committed transaction. -/
structure AppliedFile where
  boot : Boot
  file : MigrationFile
  ran : Executed

structure MigrationState where
  markers : List Text
  pending : List Text
  applied : List AppliedFile

inductive BootError where
  | answered (error : SqlError)
  | aborted
  | duplicateMarker
  | unreadable

inductive BootResult where
  | booted
  | failed (file : Option Text) (error : BootError)
  | crashed

/-- Calls by the statement that they execute next. -/
inductive MigrationCall where
  | createTable (boot : Boot)
  | checkApplied (position : BootAt)
  | insertEmpty (position : BootAt)
  | inspect (position : BootAt)
  | begin (position : BootAt)
  | execute (transaction : OpenTransaction)
  | insertMarker (transaction : OpenTransaction)
  | commit (transaction : OpenTransaction)
  | rollback (transaction : OpenTransaction) (error : BootError)
      (inserted : Bool)

abbrev MigrationOutcome := Outcome MigrationCall BootResult

def startNext (boot : Boot) (step : Nat) :
    List MigrationFile → MigrationOutcome
  | [] => .done .booted
  | file :: rest => .next (.checkApplied ⟨boot, step, file, rest⟩)

/-- What follows a call outside of a transaction. -/
def BootAt.proceed (position : BootAt) (executed : MigrationOutcome) :
    MigrationOutcome :=
  match position.answer with
  | .executed => executed
  | .error error =>
    .done (.failed (some position.file.name) (.answered error))
  | .crash => .done .crashed

/-- What follows the look for the marker of a file that has none. -/
def startFile (position : BootAt) : MigrationOutcome :=
  match position.file.content with
  | none => .done (.failed (some position.file.name) .unreadable)
  | some content =>
    match position.boot.dialect with
    | .sqlite =>
      if Text.trim (position.boot.migrationSql position.file.name content) = []
        then .next (.insertEmpty position)
      else .next (.inspect position)
    | .postgres => .next (.begin position)

namespace MigrationState

variable (state : MigrationState)

def apply (boot : Boot) (file : MigrationFile) (ran : Executed) :
    MigrationState :=
  { markers := file.name :: state.markers
    pending := state.pending.erase file.name
    applied := ⟨boot, file, ran⟩ :: state.applied }

def release (name : Text) : MigrationState :=
  { state with pending := state.pending.erase name }

end MigrationState

namespace MigrationCall

def statement (call : MigrationCall) (state : MigrationState) :
    MigrationState × MigrationOutcome :=
  match call with
  | .createTable boot =>
    (state,
      match boot.answers 0 with
      | .executed =>
        match boot.entries with
        | none => .done (.failed none .unreadable)
        | some entries => startNext boot 1 (boot.files entries)
      | .error error => .done (.failed none (.answered error))
      | .crash => .done .crashed)
  | .checkApplied position =>
    (state, position.proceed
      (if position.file.name ∈ state.markers then
        startNext position.boot (position.step + 1) position.rest
      else startFile position.next))
  | .insertEmpty position =>
    match position.answer with
    | .executed =>
      if position.file.name ∈ state.markers then
        (state, .done (.failed (some position.file.name) .duplicateMarker))
      -- The insertion waits for the transaction that holds the key.
      else if position.file.name ∈ state.pending then (state, .next call)
      else
        (state.apply position.boot position.file [],
          startNext position.boot (position.step + 1) position.rest)
    | .error error =>
      (state, .done (.failed (some position.file.name) (.answered error)))
    | .crash => (state, .done .crashed)
  | .inspect position => (state, position.proceed (.next (.begin position.next)))
  | .begin position =>
    (state, position.proceed (.next (.execute
      ⟨position.next, position.boot.statementsOf position.file, []⟩)))
  | .execute transaction =>
    (state,
      match transaction.remaining with
      | [] => .next (.insertMarker transaction)
      | statement :: remaining =>
        match transaction.position.answer with
        | .crash => .done .crashed
        | .executed =>
          if transaction.aborted then
            .next (.rollback transaction.next .aborted false)
          else .next (.execute (transaction.after statement none remaining))
        | .error error =>
          if transaction.aborted then
            .next (.rollback transaction.next .aborted false)
          else if transaction.position.boot.dialect.recognises error statement
            then .next (.execute
              (transaction.after statement (some error) remaining))
          else
            .next (.rollback transaction.next (.answered error) false))
  | .insertMarker transaction =>
    match transaction.position.answer with
    | .crash => (state, .done .crashed)
    | .error error =>
      (state, .next (.rollback transaction.next
        (if transaction.aborted then .aborted else .answered error) false))
    | .executed =>
      if transaction.aborted then
        (state, .next (.rollback transaction.next .aborted false))
      else if transaction.name ∈ state.markers then
        (state, .next (.rollback transaction.next .duplicateMarker false))
      else if transaction.name ∈ state.pending then (state, .next call)
      else
        ({ state with pending := transaction.name :: state.pending },
          .next (.commit transaction.next))
  | .commit transaction =>
    let { position, ran, .. } := transaction
    match position.answer with
    | .crash => (state.release position.file.name, .done .crashed)
    | .error error =>
      (state, .next (.rollback transaction.next (.answered error) true))
    | .executed =>
      (state.apply position.boot position.file ran,
        startNext position.boot (position.step + 1) position.rest)
  | .rollback transaction error inserted =>
    (if inserted then state.release transaction.name else state,
      if transaction.position.answer = .crash then .done .crashed
      else .done (.failed (some transaction.name) error))

end MigrationCall

def migrationProgram : Program MigrationState MigrationCall BootResult where
  starts call := ∃ boot, call = .createTable boot
  statement := MigrationCall.statement

end Takos.Migrations
