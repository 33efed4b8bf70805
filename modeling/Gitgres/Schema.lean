import Gitgres.Bytes

/-!
# The tables

The rows of `objects`, `refs` and `reflog`, and a database `Db` holding the three tables in
storage order together with the next value of the `reflog` id sequence.  A ref row's target
is a `RefTarget`, so the table constraint `CHECK ((oid IS NOT NULL) != (symbolic IS NOT NULL))`
holds of every row by construction.  The primary keys `(repo_id, oid)` and `(repo_id, name)`
are the invariant `Db.Keyed`.

A `Change` is one row-level effect of a statement.  A session applies its changes to its own
view at once and to the shared tables when it commits (`Change.apply`).  Every change names
the repository whose rows it touches (`Change.repo`), and `Db.slice r` is the part of the
database that belongs to repository `r`.
-/

namespace Gitgres

/-- A repository id, the C `int repo_id` of a backend. -/
abbrev RepoId := Int

/-- A row of `objects (repo_id, oid, type, size, content)`. -/
structure ObjectRow where
  repo : RepoId
  oid : Bytes
  type : Int
  size : Int
  content : Bytes
  deriving DecidableEq

/-- The value of a ref row: exactly one of the columns `oid` and `symbolic` is not NULL. -/
inductive RefTarget where
  | oid (b : Bytes)
  | symbolic (target : String)
  deriving DecidableEq

/-- A row of `refs (repo_id, name, oid, symbolic)`. -/
structure RefRow where
  repo : RepoId
  name : String
  target : RefTarget
  deriving DecidableEq

/-- A row of `reflog`. -/
structure ReflogRow where
  id : Nat
  repo : RepoId
  refName : String
  oldOid : Option Bytes
  newOid : Option Bytes
  committer : Bytes
  timestampS : Int
  tzOffset : String
  message : Option String
  deriving DecidableEq

/-- The three tables of the backend, in storage order, and the next value of the sequence
that numbers the reflog rows. -/
structure Db where
  objects : List ObjectRow
  refs : List RefRow
  reflog : List ReflogRow
  reflogIdSeq : Nat
  deriving DecidableEq

/-- The empty database. -/
def Db.empty : Db := ⟨[], [], [], 1⟩

/-- Replace the ref row with the key of `row`, or append `row` when there is none. -/
def upsertRef (row : RefRow) : List RefRow → List RefRow
  | [] => [row]
  | x :: xs => if x.repo = row.repo ∧ x.name = row.name then row :: xs else x :: upsertRef row xs

/-- Give the ref row `(r, old)` the name `new`. -/
def renameRefRow (r : RepoId) (old new : String) (rows : List RefRow) : List RefRow :=
  rows.map fun x => if x.repo = r ∧ x.name = old then { x with name := new } else x

/-- One row-level effect of a statement. -/
inductive Change where
  /-- Insert an object row. -/
  | putObject (row : ObjectRow)
  /-- Insert or replace the ref row with the key of `row`. -/
  | putRef (row : RefRow)
  /-- Delete the ref row `(r, name)`. -/
  | delRef (r : RepoId) (name : String)
  /-- Rename the ref row `(r, old)` to `new`. -/
  | renameRef (r : RepoId) (old new : String)
  /-- Append a reflog row. -/
  | putReflog (row : ReflogRow)
  /-- Delete the reflog rows of repository `r` with these ids. -/
  | delReflog (r : RepoId) (ids : List Nat)
  /-- Set the ref name of the reflog rows of repository `r` with these ids. -/
  | renameReflog (r : RepoId) (ids : List Nat) (name : String)
  deriving DecidableEq

/-- The repository whose rows a change touches. -/
def Change.repo : Change → RepoId
  | .putObject row => row.repo
  | .putRef row => row.repo
  | .delRef r _ => r
  | .renameRef r _ _ => r
  | .putReflog row => row.repo
  | .delReflog r _ => r
  | .renameReflog r _ _ => r

/-- The tables after a change. -/
def Change.apply (db : Db) : Change → Db
  | .putObject row => { db with objects := db.objects ++ [row] }
  | .putRef row => { db with refs := upsertRef row db.refs }
  | .delRef r name => { db with refs := db.refs.filter fun x => !(x.repo = r ∧ x.name = name) }
  | .renameRef r old new => { db with refs := renameRefRow r old new db.refs }
  | .putReflog row => { db with reflog := db.reflog ++ [row] }
  | .delReflog r ids =>
    { db with reflog := db.reflog.filter fun x => !(x.repo = r ∧ x.id ∈ ids) }
  | .renameReflog r ids name =>
    { db with reflog := db.reflog.map fun x =>
        if x.repo = r ∧ x.id ∈ ids then { x with refName := name } else x }

/-- The tables after a list of changes, applied in order. -/
def Db.applyAll (db : Db) (cs : List Change) : Db := cs.foldl Change.apply db

@[simp]
theorem Db.applyAll_nil (db : Db) :
  db.applyAll [] = db
  := rfl

@[simp]
theorem Db.applyAll_append (db : Db) (cs cs' : List Change) :
  db.applyAll (cs ++ cs') = (db.applyAll cs).applyAll cs'
  := List.foldl_append _ _ _ _

@[simp]
theorem Db.applyAll_cons (db : Db) (c : Change) (cs : List Change) :
  db.applyAll (c :: cs) = (c.apply db).applyAll cs
  := rfl

@[simp]
theorem Change.apply_reflogIdSeq (db : Db) (c : Change) :
  (c.apply db).reflogIdSeq = db.reflogIdSeq
  := by
  cases c <;> rfl

@[simp]
theorem Db.applyAll_reflogIdSeq (db : Db) (cs : List Change) :
  (db.applyAll cs).reflogIdSeq = db.reflogIdSeq
  := by
  induction cs generalizing db <;> simp [*]

/-- The part of the database that belongs to repository `r`: its rows of each table, in
storage order. -/
def Db.slice (r : RepoId) (db : Db) : List ObjectRow × List RefRow × List ReflogRow :=
  (db.objects.filter (·.repo = r), db.refs.filter (·.repo = r), db.reflog.filter (·.repo = r))

end Gitgres
