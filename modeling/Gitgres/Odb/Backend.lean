import Gitgres.Sql.Session
import Gitgres.Git

/-!
# The object database backend

The ODB callbacks of the backend of repository `b`, and the SQL function `git_object_write`.
Reads ask for binary results: the type comes back as a `smallint`, the size as an `integer`,
and `*len_p` is the stored size cast to `size_t`, while the buffer holds the content's bytes.
`pgOdbReadPrefix` and `pgOdbExistsPrefix` compare the first `(prefix_len + 1) / 2` bytes of the
stored OIDs with those of the short OID; for `prefix_len = 40` they take the exact-match path.
`pgOdbForeach` calls an effectful callback on each stored OID, threading the callback's payload.

SHA-1 is the parameter `sha1`; `objectHash sha1 t c` is `SHA1("<type> <size>\0<content>")`.
-/

namespace Gitgres

/-- What `read` hands back: the buffer, `*len_p` and `*type_p`. -/
structure OdbObject where
  data : Bytes
  len : Nat
  type : Int
  deriving DecidableEq

/-- The object of row 0 of a binary result whose columns `type, size, content` start at
column `col`. -/
def odbObjectOf (res : PGresult) (col : Nat) : OdbObject :=
  let typeVal := (res.cell 0 col).intValue
  let sizeVal := (res.cell 0 (col + 1)).intValue
  let contentLen := res.getlength 0 (col + 2)
  ⟨(res.getvalue 0 (col + 2)).take contentLen, sizeT sizeVal, typeVal⟩

/-- `pg_odb_read`. -/
def pgOdbRead (b : RepoId) (oid : Oid) : Prog (Except Int OdbObject) := do
  let res ← pqExecParams (.selectObject b oid.id) .binary
  if res.status != .tuplesOk then return .error gitError
  if res.ntuples = 0 then return .error gitEnotfound
  return .ok (odbObjectOf res 0)

/-- `pg_odb_read_header`: `*len_p` and `*type_p`. -/
def pgOdbReadHeader (b : RepoId) (oid : Oid) : Prog (Except Int (Nat × Int)) := do
  let res ← pqExecParams (.selectObjectHeader b oid.id) .binary
  if res.status != .tuplesOk then return .error gitError
  if res.ntuples = 0 then return .error gitEnotfound
  return .ok (sizeT (res.cell 0 1).intValue, (res.cell 0 0).intValue)

/-- What `read_prefix` hands back: the object, and what it stored in `*out_oid`, if anything. -/
structure PrefixRead where
  outOid : Option Oid
  object : OdbObject
  deriving DecidableEq

/-- `pg_odb_read_prefix`; `prefixLen` is in hex digits, at most 40. -/
def pgOdbReadPrefix (b : RepoId) (short : Oid) (prefixLen : Nat) : Prog (Except Int PrefixRead) := do
  if prefixLen = 40 then
    return (← pgOdbRead b short).map fun obj => ⟨none, obj⟩
  let byteLen := (prefixLen + 1) / 2
  let res ← pqExecParams (.selectObjectPrefix b byteLen (short.id.take byteLen)) .binary
  if res.status != .tuplesOk then return .error gitError
  if res.ntuples = 0 then return .error gitEnotfound
  if res.ntuples > 1 then return .error gitEambiguous
  return .ok ⟨some (Oid.fromraw (res.getvalue 0 0)), odbObjectOf res 1⟩

/-- `pg_odb_write`: insert, or nothing when the OID is stored; the type and the length are
sent as `int16_t` and as the bits of a `uint32_t`. -/
def pgOdbWrite (b : RepoId) (oid : Oid) (data : Bytes) (type : Int) : Prog Int := do
  let res ← pqExecParams (.insertObject b (some oid.id) (toInt16 type) (toInt32 data.length) data) .text
  if res.status != .commandOk then return gitError
  return gitOk

/-- `pg_odb_exists`: `false` also when the query fails. -/
def pgOdbExists (b : RepoId) (oid : Oid) : Prog Bool := do
  let res ← pqExecParams (.selectObjectExists b oid.id) .binary
  if res.status != .tuplesOk then return false
  return res.ntuples > 0

/-- `pg_odb_exists_prefix`: the full OID it stores in `*out_oid`. -/
def pgOdbExistsPrefix (b : RepoId) (short : Oid) (prefixLen : Nat) : Prog (Except Int Oid) := do
  if prefixLen = 40 then
    if !(← pgOdbExists b short) then return .error gitEnotfound
    return .ok short
  let byteLen := (prefixLen + 1) / 2
  let res ← pqExecParams (.selectOidPrefix b byteLen (short.id.take byteLen)) .binary
  if res.status != .tuplesOk then return .error gitError
  if res.ntuples = 0 then return .error gitEnotfound
  if res.ntuples > 1 then return .error gitEambiguous
  return .ok (Oid.fromraw (res.getvalue 0 0))

/-- Call `cb` on each OID in turn, threading its payload, until it returns non-zero. -/
def forEachOid {σ : Type} (cb : σ → Oid → Prog (Int × σ)) : σ → List Oid → Prog (Int × σ)
  | p, [] => pure (gitOk, p)
  | p, o :: os => do
    let (error, p') ← cb p o
    if error ≠ 0 then return (error, p')
    forEachOid cb p' os

/-- `pg_odb_foreach`: the stored OIDs of the repository, in storage order. -/
def pgOdbForeach {σ : Type} (b : RepoId) (cb : σ → Oid → Prog (Int × σ)) (payload : σ) :
    Prog (Int × σ) := do
  let res ← pqExecParams (.selectOids b) .binary
  if res.status != .tuplesOk then return (gitError, payload)
  forEachOid cb payload ((List.range res.ntuples).map fun i => Oid.fromraw (res.getvalue i 0))

/-! ### The SQL object functions -/

/-- `git_type_name`. -/
def gitTypeName (t : Int) : Option String :=
  if t = 1 then some "commit" else if t = 2 then some "tree"
  else if t = 3 then some "blob" else if t = 4 then some "tag" else none

/-- `SHA1("<type> <size>\0<content>")` with the type's name. -/
def objectHash (sha1 : Bytes → Bytes) (name : String) (content : Bytes) : Bytes :=
  sha1 (utf8 (name ++ " " ++ toString content.length) ++ [0] ++ content)

/-- `git_object_hash`: NULL for a type code outside `1..4`. -/
def gitObjectHash (sha1 : Bytes → Bytes) (t : Int) (content : Bytes) : Option Bytes :=
  (gitTypeName t).map fun name => objectHash sha1 name content

/-- `SELECT git_object_write($1, $2, $3)`: hash, insert unless stored, and return the OID. -/
def gitObjectWrite (sha1 : Bytes → Bytes) (r : RepoId) (t : Int) (content : Bytes) :
    Prog (Except Int Bytes) := do
  let oid := gitObjectHash sha1 t content
  let res ← pqExecParams (.insertObject r oid t content.length content) .text
  match res.status, oid with
  | .commandOk, some o => return .ok o
  | _, _ => return .error gitError

/-! ### Pack ingestion -/

/-- An object of an indexed pack, as the pack ODB reads it back. -/
structure PackObject where
  oid : Oid
  type : Int
  data : Bytes
  deriving DecidableEq

/-- `copy_object_cb` followed over the pack's objects by `git_odb_foreach` in
`pg_writepack_commit`: each object goes to the backend's `write`, and an error stops the copy. -/
def pgWritepackCopy (b : RepoId) (pack : List PackObject) : Prog Int :=
  match pack with
  | [] => pure gitOk
  | o :: os => do
    let error ← pgOdbWrite b o.oid o.data o.type
    if error ≠ 0 then return error
    pgWritepackCopy b os

end Gitgres
