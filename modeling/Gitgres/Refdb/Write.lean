import Gitgres.Refdb.Read

/-!
# The refdb backend: changing refs

`pgRefdbWrite`, `pgRefdbRename` and `pgRefdbDel` each open a transaction with `BEGIN`, check
what they must check, change the rows, and `COMMIT`; on an error path they send `ROLLBACK`.
`pgRefdbLock` opens a transaction and takes the advisory lock `hashRefname repo name`, which
lasts until that transaction ends; `pgRefdbUnlock` writes, deletes or discards, and ends the
transaction.  Reflog rows are appended by `writeReflogEntry` when there is a signature; the
server refuses the row when `snprintf` cut its committer text inside a character
(`committerAccepted`).
-/

namespace Gitgres

/-- The `refs` columns `oid, symbolic` of a reference. -/
def GitReference.refTarget (ref : GitReference) : RefTarget :=
  match ref.value with
  | .direct o => .oid o.id
  | .symbolic t => .symbolic t

/-- An OID parameter of the reflog insert: NULL when absent or all zero. -/
def reflogOid (o : Option Oid) : Option Bytes :=
  match o with
  | some o => if o.isZero then none else some o.id
  | none => none

/-- `write_reflog_entry`: nothing without a signature, else one reflog row. -/
def writeReflogEntry (b : RepoId) (refName : String) (old new : Option Oid)
    (who : Option Signature) (message : Option String) : Prog Int :=
  match who with
  | none => pure gitOk
  | some w => do
    let res ← pqExecParams (.insertReflog b refName (reflogOid old) (reflogOid new) (committerText w)
      w.time (tzText w) message) .text
    if res.status != .commandOk then return gitError
    return gitOk

/-- A reflog insert the server did not refuse had a committer text that is valid UTF-8. -/
theorem pgUtf8Verify_of_insertReflog {v : Db} {r : RepoId} {name : String}
    {old new : Option Bytes} {c : Bytes} {ts : Int} {tz : String} {msg : Option String}
    (h : (Query.eval v (.insertReflog r name old new c ts tz msg)).status ≠ .fatalError) :
  pgUtf8Verify c = true
  := by
  by_contra hv
  exact h (by simp [Query.eval, hv, Outcome.error])

/-- `pg_refdb_write`: the compare-and-swap check when not forced, the upsert, the reflog row,
and `COMMIT`. -/
def pgRefdbWrite (b : RepoId) (ref : GitReference) (force : Bool) (who : Option Signature)
    (message : Option String) (old : Option Oid) (oldTarget : Option String) : Prog Int := do
  let res ← pqExec .begin
  if res.status != .commandOk then return gitError
  if !force then
    let sel ← pqExecParams (.selectRefForUpdate b ref.name) .binary
    if sel.status != .tuplesOk then return ← rollbackWith gitError
    if old.isSome || oldTarget.isSome then
      if sel.ntuples = 0 then return ← rollbackWith gitEnotfound
      if let some o := old then
        if sel.getisnull 0 0 then return ← rollbackWith gitError
        if sel.getlength 0 0 != 20 || sel.getvalue 0 0 != o.id then
          return ← rollbackWith gitEexists
      if let some t := oldTarget then
        if sel.getisnull 0 1 then return ← rollbackWith gitError
        if sel.getstr 0 1 != t then return ← rollbackWith gitEexists
    else
      if sel.ntuples > 0 then return ← rollbackWith gitEexists
  let res ← pqExecParams (.upsertRef b ref.name ref.refTarget) .text
  if res.status != .commandOk then return ← rollbackWith gitError
  if who.isSome then
    let error ← writeReflogEntry b ref.name old ref.target who message
    if error < 0 then return ← rollbackWith error
  let res ← pqExec .commit
  if res.status != .commandOk then return ← rollbackWith gitError
  return gitOk

/-- `pg_refdb_rename`: refuses an existing new name unless forced, when it deletes it; renames
the ref row and its reflog rows, and returns the renamed reference read back as text. -/
def pgRefdbRename (b : RepoId) (oldName newName : String) (force : Bool) :
    Prog (Except Int GitReference) := do
  let res ← pqExec .begin
  if res.status != .commandOk then return .error gitError
  if !force then
    let chk ← pqExecParams (.selectRefExists b newName) .text
    if chk.status != .tuplesOk then return ← rollbackWith (.error gitError)
    if chk.ntuples > 0 then return ← rollbackWith (.error gitEexists)
  else
    let _ ← pqExecParams (.deleteRef b newName) .text
  let res ← pqExecParams (.renameRef b oldName newName) .text
  if res.status != .commandOk then return ← rollbackWith (.error gitError)
  if res.cmdTuples = 0 then return ← rollbackWith (.error gitEnotfound)
  let _ ← pqExecParams (.renameReflog b oldName newName) .text
  let sel ← pqExecParams (.selectRef b newName) .text
  if sel.status != .tuplesOk || sel.ntuples = 0 then return ← rollbackWith (.error gitError)
  match refFromResult sel 0 none with
  | .error _ => rollbackWith (.error gitError)
  | .ok ref =>
    let res ← pqExec .commit
    if res.status != .commandOk then return ← rollbackWith (.error gitError)
    return .ok ref

/-- `pg_refdb_del`: the compare-and-swap check when an old value is given, then the ref row
and its reflog rows are deleted. -/
def pgRefdbDel (b : RepoId) (refName : String) (oldId : Option Oid) (oldTarget : Option String) :
    Prog Int := do
  let res ← pqExec .begin
  if res.status != .commandOk then return gitError
  if oldId.isSome || oldTarget.isSome then
    let sel ← pqExecParams (.selectRefForUpdate b refName) .binary
    if sel.status != .tuplesOk then return ← rollbackWith gitError
    if sel.ntuples = 0 then return ← rollbackWith gitEnotfound
    if let some o := oldId then
      if sel.getisnull 0 0 || sel.getlength 0 0 != 20 || sel.getvalue 0 0 != o.id then
        return ← rollbackWith gitEexists
    if let some t := oldTarget then
      if sel.getisnull 0 1 || sel.getstr 0 1 != t then return ← rollbackWith gitEexists
  let res ← pqExecParams (.deleteRef b refName) .text
  if res.status != .commandOk then return ← rollbackWith gitError
  let _ ← pqExecParams (.deleteReflog b refName) .text
  let res ← pqExec .commit
  if res.status != .commandOk then return ← rollbackWith gitError
  return gitOk

/-- `pg_refdb_reflog_rename`. -/
def pgRefdbReflogRename (b : RepoId) (oldName newName : String) : Prog Int := do
  let res ← pqExecParams (.renameReflog b oldName newName) .text
  if res.status != .commandOk then return gitError
  return gitOk

/-- `pg_refdb_reflog_delete`. -/
def pgRefdbReflogDelete (b : RepoId) (name : String) : Prog Int := do
  let res ← pqExecParams (.deleteReflog b name) .text
  if res.status != .commandOk then return gitError
  return gitOk

/-! ### Locks -/

/-- One round of FNV-1a over 64 bits. -/
def fnv1a (h : UInt64) (byte : UInt8) : UInt64 := (h ^^^ byte.toUInt64) * 1099511628211

/-- `hash_refname`: FNV-1a over the four big-endian bytes of the repository id and the bytes
of the name, read as a signed 64-bit key. -/
def hashRefname (repoId : RepoId) (refname : String) : Int :=
  let buf : Bytes := [repoId / 2 ^ 24, repoId / 2 ^ 16, repoId / 2 ^ 8, repoId].map
    fun x => (x % 256).toNat.toUInt8
  let h := ((buf ++ utf8 refname).foldl fnv1a 14695981039346656037).toNat
  if h < 2 ^ 63 then h else h - 2 ^ 64

/-- The payload of `pg_refdb_lock`: the advisory lock key and the ref name. -/
structure RefLock where
  lockKey : Int
  refname : String
  deriving DecidableEq

/-- `pg_refdb_lock`: `BEGIN`, then the transaction-scoped advisory lock on the name's key. -/
def pgRefdbLock (b : RepoId) (refname : String) : Prog (Except Int RefLock) := do
  let lock : RefLock := ⟨hashRefname b refname, refname⟩
  let res ← pqExec .begin
  if res.status != .commandOk then return .error gitError
  let res ← pqExecParams (.advisoryXactLock lock.lockKey) .text
  if res.status != .tuplesOk then return ← rollbackWith (.error gitError)
  return .ok lock

/-- The part of `pg_refdb_unlock` before it ends the transaction: `success = 1` upserts `ref`
and, when asked, appends a reflog row; `success = 2` deletes `ref` and then, unchecked, its
reflog rows; any other value changes nothing.  The value is the error the transaction ends
with. -/
def unlockChanges (b : RepoId) (success : Int) (updateReflog : Bool) (ref : GitReference)
    (sig : Option Signature) (message : Option String) : Prog Int := do
  if success = 1 then
    let res ← pqExecParams (.upsertRef b ref.name ref.refTarget) .text
    if res.status != .commandOk then return gitError
    if updateReflog && sig.isSome then
      return ← writeReflogEntry b ref.name none ref.target sig message
    return gitOk
  else if success = 2 then
    let res ← pqExecParams (.deleteRef b ref.name) .text
    if res.status != .commandOk then return gitError
    let _ ← pqExecParams (.deleteReflog b ref.name) .text
    return gitOk
  return gitOk

/-- `pg_refdb_unlock`: the changes `success` asks for, then `COMMIT` when nothing failed and
`ROLLBACK` otherwise, whatever the disposition. -/
def pgRefdbUnlock (b : RepoId) (_lock : RefLock) (success : Int) (updateReflog : Bool)
    (ref : GitReference) (sig : Option Signature) (message : Option String) : Prog Int := do
  let error ← unlockChanges b success updateReflog ref sig message
  let _ ← pqExec (if error = gitOk then .commit else .rollback)
  return error

end Gitgres
