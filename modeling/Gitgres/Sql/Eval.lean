import Gitgres.Sql.Statement
import Gitgres.Sql.Utf8
import Mathlib.Data.List.Sort

/-!
# What a statement does

`Query.eval v q` is what query `q` does against the tables `v` that the session sees:
its status, its rows, its row count, the row-level changes it makes, the locks it takes, and
the next value of the reflog id sequence.  The locks are the keys of the rows a locking
statement finds (`FOR UPDATE`, `UPDATE`, `DELETE`), the keys a statement inserts (the unique
index entry that makes a concurrent insert of the same key wait), and the key of
`pg_advisory_xact_lock`.  Rows come back in storage order, and in name order under
`ORDER BY name`; the database collation is taken to be `C`, the order of `String`.  The server
refuses a `text` parameter that is not valid UTF-8 when it binds the statement
(`pg_verify_mbstr`); of the parameters the backends send, only the committer text of a reflog
row, which `snprintf` may cut inside a character, can be such a parameter.
-/

namespace Gitgres

/-- A lock: on a ref row's key, on an object row's key, on a reflog row, or an advisory key. -/
inductive LockKey where
  | ref (r : RepoId) (name : String)
  | object (r : RepoId) (oid : Bytes)
  | reflogRow (id : Nat)
  | advisory (key : Int)
  deriving DecidableEq

/-- What a statement does against the tables a session sees. -/
structure Outcome where
  status : ExecStatus
  rows : List (List Cell)
  cmdTuples : Nat
  changes : List Change
  locks : List LockKey
  nextId : Nat

/-- A query's outcome: its rows, and no change. -/
def Outcome.select (v : Db) (rows : List (List Cell)) : Outcome :=
  ⟨.tuplesOk, rows, rows.length, [], [], v.reflogIdSeq⟩

/-- A command's outcome: its row count, its changes and its locks. -/
def Outcome.command (v : Db) (n : Nat) (cs : List Change) (ls : List LockKey) : Outcome :=
  ⟨.commandOk, [], n, cs, ls, v.reflogIdSeq⟩

/-- A statement that raises an error. -/
def Outcome.error (v : Db) : Outcome := ⟨.fatalError, [], 0, [], [], v.reflogIdSeq⟩

/-- The reply the client receives, in the format it asked for. -/
def Outcome.result (o : Outcome) (fmt : Format) : PGresult := ⟨o.status, o.rows, o.cmdTuples, fmt⟩

/-- The reply to a statement that failed. -/
def PGresult.error (fmt : Format) : PGresult := ⟨.fatalError, [], 0, fmt⟩

/-- The object rows `(r, oid)`. -/
def Db.objectsOf (v : Db) (r : RepoId) (oid : Bytes) : List ObjectRow :=
  v.objects.filter fun o => o.repo = r ∧ o.oid = oid

/-- The object rows of `r` whose OID starts with the `n` bytes `pre`. -/
def Db.objectsPrefixed (v : Db) (r : RepoId) (n : Nat) (pre : Bytes) : List ObjectRow :=
  v.objects.filter fun o => o.repo = r ∧ o.oid.take n = pre

/-- The ref rows `(r, name)`. -/
def Db.refsOf (v : Db) (r : RepoId) (name : String) : List RefRow :=
  v.refs.filter fun x => x.repo = r ∧ x.name = name

/-- The ids of the reflog rows `(r, name)`. -/
def Db.reflogIds (v : Db) (r : RepoId) (name : String) : List Nat :=
  (v.reflog.filter fun x => x.repo = r ∧ x.refName = name).map (·.id)

/-- The `oid` column of a ref row. -/
def RefTarget.oidCell : RefTarget → Cell
  | .oid b => .bytea b
  | .symbolic _ => .null

/-- The `symbolic` column of a ref row. -/
def RefTarget.symbolicCell : RefTarget → Cell
  | .oid _ => .null
  | .symbolic t => .text t

/-- The `encode(oid, 'hex')` column of a ref row. -/
def RefTarget.hexCell : RefTarget → Cell
  | .oid b => .text (hexEncode b)
  | .symbolic _ => .null

/-- The columns `name, oid, symbolic` of a ref row. -/
def RefRow.cells (x : RefRow) : List Cell := [.text x.name, x.target.oidCell, x.target.symbolicCell]

/-- Ref rows `ORDER BY name`. -/
def byName (rows : List RefRow) : List RefRow := rows.insertionSort fun a b => a.name ≤ b.name

/-- The columns `oid, type, size, content` of an object row. -/
def ObjectRow.cells (o : ObjectRow) : List Cell :=
  [.bytea o.oid, .int 2 o.type, .int 4 o.size, .bytea o.content]

/-- What a query does against the tables `v` a session sees. -/
def Query.eval (v : Db) : Query → Outcome
  | .selectObject r oid => .select v ((v.objectsOf r oid).map fun o => o.cells.drop 1)
  | .selectObjectHeader r oid => .select v ((v.objectsOf r oid).map fun o => (o.cells.drop 1).take 2)
  | .selectObjectPrefix r n pre =>
    if n < 0 then .error v else .select v ((v.objectsPrefixed r n.toNat pre).map ObjectRow.cells)
  | .selectOidPrefix r n pre =>
    if n < 0 then .error v else .select v ((v.objectsPrefixed r n.toNat pre).map fun o => [.bytea o.oid])
  | .insertObject r oid type size content => match oid with
    | none => .error v
    | some b =>
      if (v.objectsOf r b).isEmpty then .command v 1 [.putObject ⟨r, b, type, size, content⟩] [.object r b]
      else .command v 0 [] []
  | .selectObjectExists r oid => .select v ((v.objectsOf r oid).map fun _ => [.int 4 1])
  | .selectOids r => .select v ((v.objects.filter (·.repo = r)).map fun o => [.bytea o.oid])
  | .selectRefExists r name => .select v ((v.refsOf r name).map fun _ => [.int 4 1])
  | .selectRef r name => .select v ((v.refsOf r name).map RefRow.cells)
  | .selectRefs r none => .select v ((byName (v.refs.filter (·.repo = r))).map RefRow.cells)
  | .selectRefs r (some p) => match likeTokens p.toList with
    | none => .error v
    | some ts =>
      .select v ((byName (v.refs.filter fun x => x.repo = r ∧ matchTokens ts x.name.toList)).map
        RefRow.cells)
  | .selectRefForUpdate r name =>
    let xs := v.refsOf r name
    { Outcome.select v (xs.map fun x => [x.target.oidCell, x.target.symbolicCell]) with
      locks := if xs.isEmpty then [] else [.ref r name] }
  | .upsertRef r name t => .command v 1 [.putRef ⟨r, name, t⟩] [.ref r name]
  | .insertRef r name oid => match oid with
    | none => .error v
    | some b =>
      if (v.refsOf r name).isEmpty then .command v 1 [.putRef ⟨r, name, .oid b⟩] [.ref r name]
      else .error v
  | .updateRefOid r name oid =>
    if (v.refsOf r name).isEmpty then .command v 0 [] []
    else match oid with
      | none => .error v
      | some b => .command v 1 [.putRef ⟨r, name, .oid b⟩] [.ref r name]
  | .deleteRef r name =>
    if (v.refsOf r name).isEmpty then .command v 0 [] []
    else .command v (v.refsOf r name).length [.delRef r name] [.ref r name]
  | .renameRef r old new =>
    if (v.refsOf r old).isEmpty then .command v 0 [] []
    else if old ≠ new ∧ !(v.refsOf r new).isEmpty then .error v
    else .command v 1 [.renameRef r old new] [.ref r old, .ref r new]
  | .insertReflog r name old new committer ts tz msg =>
    if pgUtf8Verify committer then
      ⟨.commandOk, [], 1, [.putReflog ⟨v.reflogIdSeq, r, name, old, new, committer, ts, tz, msg⟩],
        [], v.reflogIdSeq + 1⟩
    else .error v
  | .renameReflog r old new =>
    let ids := v.reflogIds r old
    .command v ids.length [.renameReflog r ids new] (ids.map .reflogRow)
  | .deleteReflog r name =>
    let ids := v.reflogIds r name
    .command v ids.length [.delReflog r ids] (ids.map .reflogRow)
  | .selectReflogExists r name => .select v (((v.reflogIds r name).take 1).map fun _ => [.int 4 1])
  | .advisoryXactLock key => { Outcome.select v [[.text ""]] with locks := [.advisory key] }
  | .selectRefsHex r =>
    .select v ((byName (v.refs.filter (·.repo = r))).map fun x =>
      [.text x.name, x.target.hexCell, x.target.symbolicCell])
  | .upsertRefHex r name hex => match hexDecode hex with
    | none => .error v
    | some b => .command v 1 [.putRef ⟨r, name, .oid b⟩] [.ref r name]
  | .insertRefSymbolic r name t =>
    if (v.refsOf r name).isEmpty then .command v 1 [.putRef ⟨r, name, .symbolic t⟩] [.ref r name]
    else .command v 0 [] []

end Gitgres
