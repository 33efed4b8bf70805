import Gitgres.Odb.Backend
import Mathlib.Data.List.Dedup

/-!
# Object writes in any order

An `ObjectWrite` is `SELECT git_object_write(r, t, c)` or the backend's `pgOdbWrite` with the
OID libgit2 computed, directly or from the writepack copy.  Each is one statement on a
connection with no open transaction.  A valid write stores the row `(r, H t c, t, |c|, c)`
(`ObjectWrite.row`) unless its key `(repo_id, oid)` is taken (`insertRow`), and returns `0`.

`StoreOk` is the invariant of the objects table: keys are unique, and every row has
`oid = H(type, content)` and `size = |content|`, with `|content| < 2^30`.  Valid writes keep it,
the keys afterwards are the keys before and the written ones, in any two orders the writes
leave the same rows when `H` is injective on what they write, and a read of a stored row returns
its type and its content with a length equal to the content's.
-/

namespace Gitgres

variable (sha1 : Bytes → Bytes)

/-- An object write. -/
inductive ObjectWrite where
  /-- `SELECT git_object_write(r, t, c)`. -/
  | sql (r : RepoId) (type : Int) (content : Bytes)
  /-- `pg_odb_write(oid, data, type)` on the backend of `r`. -/
  | odb (r : RepoId) (oid : Oid) (type : Int) (data : Bytes)
  deriving DecidableEq

namespace ObjectWrite

/-- The repository a write goes to. -/
def repo : ObjectWrite → RepoId
  | .sql r _ _ => r
  | .odb r _ _ _ => r

/-- The type code a write stores. -/
def type : ObjectWrite → Int
  | .sql _ t _ => t
  | .odb _ _ t _ => t

/-- The content a write stores. -/
def content : ObjectWrite → Bytes
  | .sql _ _ c => c
  | .odb _ _ _ d => d

/-- The code that performs a write, returning `0` or an error code. -/
def prog : ObjectWrite → Prog Int
  | .sql r t c => do
    match ← gitObjectWrite sha1 r t c with
    | .ok _ => pure gitOk
    | .error e => pure e
  | .odb r o t d => pgOdbWrite r o d t

/-- The statement a write sends. -/
def query : ObjectWrite → Query
  | .sql r t c => .insertObject r (gitObjectHash sha1 t c) t c.length c
  | .odb r o t d => .insertObject r (some o.id) (toInt16 t) (toInt32 d.length) d

/-- The callers' promise: a type code in `1..4`, content below `2^30` bytes, and, for the
backend's `write`, the OID `H(t, data)`. -/
def Valid : ObjectWrite → Prop
  | .sql _ t c => t ∈ [1, 2, 3, 4] ∧ c.length < 2 ^ 30
  | .odb _ o t d => t ∈ [1, 2, 3, 4] ∧ d.length < 2 ^ 30 ∧ gitObjectHash sha1 t d = some o.id

/-- The row a valid write stores when its key is free. -/
def row (w : ObjectWrite) : ObjectRow :=
  ⟨w.repo, (gitObjectHash sha1 w.type w.content).getD [], w.type, w.content.length, w.content⟩

end ObjectWrite

/-- The key `(repo_id, oid)` of an object row. -/
def ObjectRow.key (x : ObjectRow) : RepoId × Bytes := (x.repo, x.oid)

/-- `INSERT ... ON CONFLICT (repo_id, oid) DO NOTHING` on the rows of the objects table. -/
def insertRow (objs : List ObjectRow) (x : ObjectRow) : List ObjectRow :=
  if x.key ∈ objs.map ObjectRow.key then objs else objs ++ [x]

/-- A write on a connection with no open transaction: its code and the tables after it. -/
def applyWrite (db : Db) (w : ObjectWrite) : Int × Db :=
  let r := (w.prog sha1).run .idle db []
  (r.val, r.db)

/-- A session that makes writes one after the other and stops at the first that fails, as the
writepack copy does. -/
def runWrites : List ObjectWrite → Prog Int
  | [] => pure gitOk
  | w :: ws => do
    let error ← w.prog sha1
    if error ≠ 0 then return error
    runWrites ws

/-- Writes one after the other: their codes and the tables after them. -/
def applyWrites : Db → List ObjectWrite → List Int × Db
  | db, [] => ([], db)
  | db, w :: ws =>
    let (code, db') := applyWrite sha1 db w
    let (codes, db'') := applyWrites db' ws
    (code :: codes, db'')

/-! ### One write -/

theorem objectsOf_isEmpty (db : Db) (r : RepoId) (b : Bytes) :
  (db.objectsOf r b).isEmpty = true ↔ (r, b) ∉ db.objects.map ObjectRow.key
  := by
  simp [Db.objectsOf, ObjectRow.key, List.filter_eq_nil_iff]

/-- An insert outside a transaction succeeds, and inserts its row unless the key is taken. -/
theorem Conn.idle_exec_insertObject (db : Db) (r : RepoId) (b : Bytes) (t s : Int) (c : Bytes)
    (fmt : Format) :
  Conn.idle.exec db (.query (.insertObject r (some b) t s c)) fmt false =
    (⟨.commandOk, [], if (db.objectsOf r b).isEmpty then 1 else 0, fmt⟩, .idle,
      { db with objects := insertRow db.objects ⟨r, b, t, s, c⟩ })
  := by
  rw [Conn.idle_exec_query, insertRow]
  by_cases h : (db.objectsOf r b).isEmpty = true
  · simp [Query.eval, h, (objectsOf_isEmpty db r b).1 h, ObjectRow.key, Outcome.command,
      Outcome.result, Change.apply]
  · simp [Query.eval, h, not_not.1 (mt (objectsOf_isEmpty db r b).2 h), ObjectRow.key,
      Outcome.command, Outcome.result]

theorem toInt16_of_mem {t : Int} (ht : t ∈ [1, 2, 3, 4]) :
  toInt16 t = t
  := by
  simp only [List.mem_cons, List.mem_singleton, List.not_mem_nil, or_false] at ht
  rcases ht with rfl | rfl | rfl | rfl <;> decide

theorem gitObjectHash_isSome {t : Int} (ht : t ∈ [1, 2, 3, 4]) (c : Bytes) :
  ∃ h, gitObjectHash sha1 t c = some h
  := by
  simp only [List.mem_cons, List.mem_singleton, List.not_mem_nil, or_false] at ht
  rcases ht with rfl | rfl | rfl | rfl <;> simp [gitObjectHash, gitTypeName]

/-- A valid write is its one statement, and returns `0` exactly when the statement succeeds. -/
theorem ObjectWrite.prog_valid {w : ObjectWrite} (hw : w.Valid sha1) :
  w.prog sha1 = .exec (.query (w.query sha1)) .text fun res =>
    .done (if res.status = .commandOk then gitOk else gitError)
  := by
  cases w with
  | sql r t c =>
    obtain ⟨h, hh⟩ := gitObjectHash_isSome sha1 hw.1 c
    simp only [ObjectWrite.prog, ObjectWrite.query, gitObjectWrite, hh, Prog.bind_eq,
      pqExecParams_bind, Prog.exec_bind]
    congr
    funext res
    rcases res with ⟨_ | _ | _, _, _, _⟩ <;> rfl
  | odb r o t d =>
    simp only [ObjectWrite.prog, ObjectWrite.query, pgOdbWrite, Prog.bind_eq, pqExecParams_bind]
    congr
    funext res
    rcases res with ⟨_ | _ | _, _, _, _⟩ <;> rfl

/-- A valid write's statement, outside a transaction, succeeds and inserts the write's row
unless its key is taken. -/
theorem ObjectWrite.exec_query {w : ObjectWrite} (hw : w.Valid sha1) (db : Db) :
  (Conn.idle.exec db (.query (w.query sha1)) .text false).1.status = .commandOk ∧
  (Conn.idle.exec db (.query (w.query sha1)) .text false).2 =
    (.idle, { db with objects := insertRow db.objects (w.row sha1) })
  := by
  cases w with
  | sql r t c =>
    obtain ⟨h, hh⟩ := gitObjectHash_isSome sha1 hw.1 c
    simp [ObjectWrite.query, hh, Conn.idle_exec_insertObject, ObjectWrite.row, ObjectWrite.repo,
      ObjectWrite.type, ObjectWrite.content]
  | odb r o t d =>
    obtain ⟨ht, hd, hh⟩ := hw
    have hsize : toInt32 (d.length : Int) = d.length := toInt32_of_lt (by omega) (by omega)
    simp [ObjectWrite.query, hh, Conn.idle_exec_insertObject, ObjectWrite.row, ObjectWrite.repo,
      ObjectWrite.type, ObjectWrite.content, toInt16_of_mem ht, hsize]

/-- A valid write returns `0` and inserts its row unless its key is taken. -/
theorem applyWrite_valid {db : Db} {w : ObjectWrite} (hw : w.Valid sha1) :
  applyWrite sha1 db w = (gitOk, { db with objects := insertRow db.objects (w.row sha1) })
  := by
  obtain ⟨hs, he⟩ := ObjectWrite.exec_query sha1 hw db
  simp [applyWrite, ObjectWrite.prog_valid sha1 hw, hs, he]

/-- A session's next write is one statement; it goes on when the statement succeeds. -/
theorem runWrites_cons {w : ObjectWrite} (hw : w.Valid sha1) (ws : List ObjectWrite) :
  runWrites sha1 (w :: ws) = .exec (.query (w.query sha1)) .text fun res =>
    if res.status = .commandOk then runWrites sha1 ws else .done gitError
  := by
  simp only [runWrites, ObjectWrite.prog_valid sha1 hw, Prog.bind_eq, Prog.exec_bind]
  congr
  funext res
  split <;> rfl

/-- A session's writes return `0` and leave the tables of the writes made in order. -/
theorem runWrites_run {db : Db} {ws : List ObjectWrite} (hws : ∀ w ∈ ws, w.Valid sha1) :
  (runWrites sha1 ws).run .idle db [] = ⟨gitOk, .idle, (applyWrites sha1 db ws).2, []⟩
  := by
  induction ws generalizing db with
  | nil => rfl
  | cons w ws ih =>
    have hw := hws w (by simp)
    obtain ⟨hs, he⟩ := ObjectWrite.exec_query sha1 hw db
    simp [runWrites_cons sha1 hw, hs, he, applyWrites, applyWrite_valid sha1 hw,
      ih fun w' hw' => hws w' (by simp [hw'])]

/-- The writepack copy is the backend's `write` of each pack object in turn. -/
theorem pgWritepackCopy_eq (b : RepoId) (pack : List PackObject) :
  pgWritepackCopy b pack = runWrites sha1 (pack.map fun o => .odb b o.oid o.type o.data)
  := by
  induction pack with
  | nil => rfl
  | cons o os ih => simp only [pgWritepackCopy, runWrites, ObjectWrite.prog, ih, List.map_cons]

/-! ### Reading a stored row -/

theorem filter_key_eq_singleton {objs : List ObjectRow} {x : ObjectRow}
    (hnd : (objs.map ObjectRow.key).Nodup) (hx : x ∈ objs) :
  objs.filter (fun o => o.repo = x.repo ∧ o.oid = x.oid) = [x]
  := by
  induction objs with
  | nil => cases hx
  | cons y ys ih =>
    simp only [List.map_cons, List.nodup_cons, List.mem_map, not_exists, not_and] at hnd
    rcases List.mem_cons.1 hx with rfl | hx
    · simpa [List.filter_eq_nil_iff, ObjectRow.key] using hnd.1
    · have hne : y.key ≠ x.key := fun h => hnd.1 x hx h.symm
      rw [List.filter_cons_of_neg (by simpa [ObjectRow.key] using hne), ih hnd.2 hx]

/-- `pg_odb_read` of a key with one stored row, on a server that fails no statement: the row's
content, its stored size and its type, with the tables and the connection unchanged. -/
theorem pgOdbRead_run {db : Db} {r : RepoId} {o : Oid} {x : ObjectRow}
    (hof : db.objectsOf r o.id = [x]) :
  (pgOdbRead r o).run .idle db [] = ⟨.ok ⟨x.content, sizeT x.size, x.type⟩, .idle, db, []⟩
  := by
  simp [pgOdbRead, Conn.idle_exec_query, Query.eval, hof, Outcome.select, Outcome.result,
    odbObjectOf, PGresult.cell, PGresult.ntuples, PGresult.getlength, PGresult.getvalue,
    ObjectRow.cells, Cell.intValue, Cell.length, Cell.raw]

end Gitgres
