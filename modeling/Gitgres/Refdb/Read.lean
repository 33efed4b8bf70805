import Gitgres.Sql.Session
import Gitgres.Git

/-!
# The refdb backend: reading refs

`refFromResult` builds a `git_reference` from a result row `(name, oid, symbolic)`, as
`ref_from_result` does: a non-NULL `oid` must be 20 bytes long, else the row is refused.
`pgRefdbLookup` asks for a binary result, while `pgRefdbIterator` asks for a text one; the
iterator's `pgRefdbIterNext` reads its result row by row.  The backend of a repository is
its `repo_id`, the first parameter of every statement.
-/

namespace Gitgres

/-- The `ROLLBACK` the backends send on an error path, whose result they discard, followed by
the return of `code`. -/
def rollbackWith {α : Type} (code : α) : Prog α := do
  let _ ← pqExec .rollback
  pure code

/-- `ref_from_result`: the reference of row `row` of `res`, named `nameOverride` when given,
else by column 0; `-1` when the `oid` column is not NULL and not 20 bytes long, or when both
`oid` and `symbolic` are NULL. -/
def refFromResult (res : PGresult) (row : Nat) (nameOverride : Option String) :
    Except Int GitReference :=
  let name := nameOverride.getD (res.getstr row 0)
  if !res.getisnull row 1 then
    if res.getlength row 1 != 20 then .error gitError
    else .ok ⟨name, .direct (Oid.fromraw (res.getvalue row 1))⟩
  else if !res.getisnull row 2 then .ok ⟨name, .symbolic (res.getstr row 2)⟩
  else .error gitError

/-- `pg_refdb_exists`. -/
def pgRefdbExists (b : RepoId) (refName : String) : Prog (Except Int Bool) := do
  let res ← pqExecParams (.selectRefExists b refName) .text
  if res.status != .tuplesOk then return .error gitError
  return .ok (res.ntuples > 0)

/-- `pg_refdb_lookup`: a binary result, and the name the caller gave. -/
def pgRefdbLookup (b : RepoId) (refName : String) : Prog (Except Int GitReference) := do
  let res ← pqExecParams (.selectRef b refName) .binary
  if res.status != .tuplesOk then return .error gitError
  if res.ntuples = 0 then return .error gitEnotfound
  return refFromResult res 0 (some refName)

/-- A reference iterator: the result it walks, its position, and the number of rows. -/
structure RefIterator where
  result : PGresult
  current : Nat
  total : Nat

/-- The `LIKE` pattern of a glob: every `*` becomes `%`. -/
def globToLike (glob : String) : String := ⟨glob.toList.map fun c => if c = '*' then '%' else c⟩

/-- `pg_refdb_iterator`: a text result, ordered by name, filtered by the glob when it is given
and not empty. -/
def pgRefdbIterator (b : RepoId) (glob : Option String) : Prog (Except Int RefIterator) := do
  let like := match glob with
    | some g => if g = "" then none else some (globToLike g)
    | none => none
  let res ← pqExecParams (.selectRefs b like) .text
  if res.status != .tuplesOk then return .error gitError
  return .ok ⟨res, 0, res.ntuples⟩

/-- `pg_refdb_iter_next`: the reference of the current row, and the iterator moved past it;
`GIT_ITEROVER` at the end, and `-1` without moving when the row is refused. -/
def pgRefdbIterNext (it : RefIterator) : Except Int GitReference × RefIterator :=
  if it.current ≥ it.total then (.error gitIterover, it)
  else match refFromResult it.result it.current none with
    | .error _ => (.error gitError, it)
    | .ok ref => (.ok ref, { it with current := it.current + 1 })

/-- `pg_refdb_iter_next_name`: the name in the current row. -/
def pgRefdbIterNextName (it : RefIterator) : Except Int String × RefIterator :=
  if it.current ≥ it.total then (.error gitIterover, it)
  else (.ok (it.result.getstr it.current 0), { it with current := it.current + 1 })

/-- `pg_refdb_has_log`: `1` when the ref has a reflog row, `0` when not, `-1` on error. -/
def pgRefdbHasLog (b : RepoId) (refname : String) : Prog Int := do
  let res ← pqExecParams (.selectReflogExists b refname) .text
  if res.status != .tuplesOk then return gitError
  return if res.ntuples > 0 then 1 else 0

end Gitgres
