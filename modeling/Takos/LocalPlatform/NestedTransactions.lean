import Takos.Foundation.Savepoints

/-!
# Nested transactions

One manager and its database.  A callback is the tree of what it does, and says
of each statement and scope whether the database fails it.  Whatever throws, the
callback may catch it and go on.
-/

namespace Takos.LocalPlatform

open Takos.Foundation

inductive D1TransactionMode where
  | localSqlite
  | d1
  | d1Compensated
  | unknown

/-- The statements around a scope that the database fails: `BEGIN` or
`SAVEPOINT`, `COMMIT` or `RELEASE`, `ROLLBACK` or `ROLLBACK TO`, and the
`RELEASE` after that. -/
structure ScopeFailures where
  opening : Bool
  closing : Bool
  rollback : Bool
  discard : Bool

/-- `next` is what follows a statement or a nested scope, by whether that has
succeeded. -/
inductive Callback (Effect : Type) where
  | returns
  | throws
  | write (effect : Effect) (fails : Bool) (next : Bool → Callback Effect)
  | nested (failures : ScopeFailures) (inner : Callback Effect)
      (next : Bool → Callback Effect)

section Manager

variable {Effect : Type}

/-- The effects in force, in their order, are the content of the database.
Savepoint `sp_n` goes by its number. -/
structure TransactionWorld (Effect : Type) where
  transactionDepth : Int
  savepointSeq : Nat
  session : SqlSession Nat (List Effect)

/-- One statement; `true` where it has succeeded. -/
def issue (statement : SqlStatement Nat (List Effect)) (fails : Bool)
    (world : TransactionWorld Effect) : Bool × TransactionWorld Effect :=
  if fails then (false, world)
  else
    match world.session.execute statement with
    | none => (false, world)
    | some session => (true, { world with session := session })

def TransactionWorld.deeper (world : TransactionWorld Effect) :
    TransactionWorld Effect :=
  { world with transactionDepth := world.transactionDepth + 1 }

def TransactionWorld.shallower (world : TransactionWorld Effect) :
    TransactionWorld Effect :=
  { world with transactionDepth := world.transactionDepth - 1 }

/-- The scope of a real transaction.  The statement that opens it is issued
before the `try`. -/
def runTopLevel (failures : ScopeFailures)
    (fn : TransactionWorld Effect → Bool × TransactionWorld Effect)
    (world : TransactionWorld Effect) : Bool × TransactionWorld Effect :=
  let opened := issue .begin failures.opening world.deeper
  if opened.1 = false then opened
  else
    let result := fn opened.2
    let finished :=
      if result.1 then issue .commit failures.closing result.2 else result
    let settled :=
      if finished.1 then finished
      else (false, (issue .rollback failures.rollback finished.2).2)
    (settled.1, settled.2.shallower)

def runSavepoint (failures : ScopeFailures)
    (fn : TransactionWorld Effect → Bool × TransactionWorld Effect)
    (world : TransactionWorld Effect) : Bool × TransactionWorld Effect :=
  let name := world.savepointSeq + 1
  let opened := issue (.savepoint name) failures.opening
    { world with savepointSeq := name }.deeper
  if opened.1 = false then opened
  else
    let result := fn opened.2
    let finished :=
      if result.1 then issue (.release name) failures.closing result.2
      else result
    let settled :=
      if finished.1 then finished
      else
        let undone := issue (.rollbackTo name) failures.rollback finished.2
        (false, if undone.1 then (issue (.release name) failures.discard
          undone.2).2 else undone.2)
    (settled.1, settled.2.shallower)

/-- `D1TransactionManager.runInTransaction`; `withTransaction` where the binding
has it. -/
def runInTransaction (mode : D1TransactionMode)
    (withTransaction : Option
      ((TransactionWorld Effect → Bool × TransactionWorld Effect) →
        TransactionWorld Effect → Bool × TransactionWorld Effect))
    (failures : ScopeFailures)
    (fn : TransactionWorld Effect → Bool × TransactionWorld Effect)
    (world : TransactionWorld Effect) : Bool × TransactionWorld Effect :=
  match mode with
  | .d1 => (false, world)
  | .d1Compensated => fn world
  | .localSqlite | .unknown =>
    match withTransaction with
    | some delegate =>
      if world.transactionDepth = 0 then
        let result := delegate fn world.deeper
        (result.1, result.2.shallower)
      else runSavepoint failures fn world
    | none =>
      if world.transactionDepth = 0 then runTopLevel failures fn world
      else runSavepoint failures fn world

end Manager

section Calls

variable {Effect : Type} (mode : D1TransactionMode)
  (withTransaction : Option
    ((TransactionWorld Effect → Bool × TransactionWorld Effect) →
      TransactionWorld Effect → Bool × TransactionWorld Effect))

/-- Runs a callback whose nested scopes go through the same manager. -/
def runCallback : Callback Effect → TransactionWorld Effect →
    Bool × TransactionWorld Effect
  | .returns, world => (true, world)
  | .throws, world => (false, world)
  | .write effect fails next, world =>
    let written := issue (.write fun effects => effects ++ [effect]) fails world
    runCallback (next written.1) written.2
  | .nested failures inner next, world =>
    let scope := runInTransaction mode withTransaction failures
      (runCallback inner) world
    runCallback (next scope.1) scope.2

/-- One call of the manager with the callback. -/
def runScope (failures : ScopeFailures) (callback : Callback Effect) :
    TransactionWorld Effect → Bool × TransactionWorld Effect :=
  runInTransaction mode withTransaction failures
    (runCallback mode withTransaction callback)

end Calls

end Takos.LocalPlatform
