import Gitgres.Schema

/-!
# Statements and results

`Control` and `Query` list the SQL statements the backends and the remote helper send, one constructor a
statement text, with the parameters the C code binds.  A reply is a `PGresult`: a status, the
rows of typed cells, the row count of `PQcmdTuples`, and the format the client asked for.  The
libpq accessors `PQgetisnull`, `PQgetlength` and `PQgetvalue` read a cell in that format:
a `bytea` cell has its raw bytes in a binary result and the text `\x...` in a text result.

`likeMatch` is the `LIKE` operator with `\` as its escape character, and `hexDecode` is
`decode(t, 'hex')`.
-/

namespace Gitgres

/-- The result format a client asks for: `0` is text, `1` is binary. -/
inductive Format where
  | text
  | binary
  deriving DecidableEq

/-- A column value of a result row, as the server holds it. -/
inductive Cell where
  | null
  | bytea (b : Bytes)
  | text (s : String)
  | int (width : Nat) (v : Int)
  deriving DecidableEq

/-- The big-endian bytes of the `width`-byte integer `v`. -/
def beBytes (width : Nat) (v : Int) : Bytes :=
  (List.range width).reverse.map fun i => (v / 2 ^ (8 * i) % 256).toNat.toUInt8

/-- `PQgetlength`: the length of a cell in the result format. -/
def Cell.length (fmt : Format) : Cell → Nat
  | .null => 0
  | .bytea b => match fmt with
    | .binary => b.length
    | .text => (byteaTextOut b).utf8ByteSize
  | .text s => s.utf8ByteSize
  | .int w v => match fmt with
    | .binary => w
    | .text => (toString v).utf8ByteSize

/-- The bytes `PQgetvalue` points to. -/
def Cell.raw (fmt : Format) : Cell → Bytes
  | .null => []
  | .bytea b => match fmt with
    | .binary => b
    | .text => utf8 (byteaTextOut b)
  | .text s => utf8 s
  | .int w v => match fmt with
    | .binary => beBytes w v
    | .text => utf8 (toString v)

/-- `PQgetvalue` read as a C string, for the columns the code reads so: text columns, and
`bytea` columns of a text result. -/
def Cell.str (fmt : Format) : Cell → String
  | .text s => s
  | .bytea b => match fmt with
    | .binary => ""
    | .text => byteaTextOut b
  | .int _ v => toString v
  | .null => ""

/-- The value `ntohs` or `ntohl` gives for a binary integer cell. -/
def Cell.intValue : Cell → Int
  | .int _ v => v
  | _ => 0

/-- `PQresultStatus`. -/
inductive ExecStatus where
  | commandOk
  | tuplesOk
  | fatalError
  deriving DecidableEq

/-- A `PGresult`. -/
structure PGresult where
  status : ExecStatus
  rows : List (List Cell)
  cmdTuples : Nat
  format : Format
  deriving DecidableEq

namespace PGresult

/-- `PQntuples`. -/
def ntuples (res : PGresult) : Nat := res.rows.length

/-- The cell at a row and a column, NULL outside the result. -/
def cell (res : PGresult) (row col : Nat) : Cell := (res.rows.getD row []).getD col .null

/-- `PQgetisnull`. -/
def getisnull (res : PGresult) (row col : Nat) : Bool := res.cell row col = .null

/-- `PQgetlength`. -/
def getlength (res : PGresult) (row col : Nat) : Nat := (res.cell row col).length res.format

/-- `PQgetvalue`, as bytes. -/
def getvalue (res : PGresult) (row col : Nat) : Bytes := (res.cell row col).raw res.format

/-- `PQgetvalue`, as a C string. -/
def getstr (res : PGresult) (row col : Nat) : String := (res.cell row col).str res.format

end PGresult

/-! ### The statements -/

/-- The transaction statements the code sends with `PQexec`. -/
inductive Control where
  /-- `BEGIN` -/
  | begin
  /-- `COMMIT` -/
  | commit
  /-- `ROLLBACK` -/
  | rollback
  deriving DecidableEq

/-- The statements the code sends with `PQexecParams`, with the parameters it binds.  The
statement text is in each constructor's comment; `$1` is the backend's `repo_id`, except where
noted. -/
inductive Query where
  /-- `SELECT type, size, content FROM objects WHERE repo_id=$1 AND oid=$2` -/
  | selectObject (r : RepoId) (oid : Bytes)
  /-- `SELECT type, size FROM objects WHERE repo_id=$1 AND oid=$2` -/
  | selectObjectHeader (r : RepoId) (oid : Bytes)
  /-- `SELECT oid, type, size, content FROM objects
  WHERE repo_id=$1 AND substring(oid from 1 for $2) = $3` -/
  | selectObjectPrefix (r : RepoId) (n : Int) (pre : Bytes)
  /-- `SELECT oid FROM objects WHERE repo_id=$1 AND substring(oid from 1 for $2) = $3` -/
  | selectOidPrefix (r : RepoId) (n : Int) (pre : Bytes)
  /-- `INSERT INTO objects (repo_id, oid, type, size, content) VALUES ($1, $2, $3, $4, $5)
  ON CONFLICT (repo_id, oid) DO NOTHING`; the OID is NULL when the SQL hash gives NULL. -/
  | insertObject (r : RepoId) (oid : Option Bytes) (type size : Int) (content : Bytes)
  /-- `SELECT 1 FROM objects WHERE repo_id=$1 AND oid=$2` -/
  | selectObjectExists (r : RepoId) (oid : Bytes)
  /-- `SELECT oid FROM objects WHERE repo_id=$1` -/
  | selectOids (r : RepoId)
  /-- `SELECT 1 FROM refs WHERE repo_id = $1 AND name = $2` -/
  | selectRefExists (r : RepoId) (name : String)
  /-- `SELECT name, oid, symbolic FROM refs WHERE repo_id = $1 AND name = $2` -/
  | selectRef (r : RepoId) (name : String)
  /-- `SELECT name, oid, symbolic FROM refs WHERE repo_id = $1 ORDER BY name`, and with
  `AND name LIKE $2` when there is a pattern. -/
  | selectRefs (r : RepoId) (like : Option String)
  /-- `SELECT oid, symbolic FROM refs WHERE repo_id = $1 AND name = $2 FOR UPDATE` -/
  | selectRefForUpdate (r : RepoId) (name : String)
  /-- `INSERT INTO refs (repo_id, name, oid, symbolic) VALUES ($1, $2, $3, NULL)
  ON CONFLICT (repo_id, name) DO UPDATE SET oid = EXCLUDED.oid, symbolic = NULL`, and its
  twin for a symbolic target that sets `oid = NULL`. -/
  | upsertRef (r : RepoId) (name : String) (target : RefTarget)
  /-- `INSERT INTO refs (repo_id, name, oid) VALUES ($1, $2, $3)` -/
  | insertRef (r : RepoId) (name : String) (oid : Option Bytes)
  /-- `UPDATE refs SET oid = $3, symbolic = NULL WHERE repo_id = $1 AND name = $2` -/
  | updateRefOid (r : RepoId) (name : String) (oid : Option Bytes)
  /-- `DELETE FROM refs WHERE repo_id = $1 AND name = $2` -/
  | deleteRef (r : RepoId) (name : String)
  /-- `UPDATE refs SET name = $1 WHERE repo_id = $2 AND name = $3` -/
  | renameRef (r : RepoId) (old new : String)
  /-- `INSERT INTO reflog (repo_id, ref_name, old_oid, new_oid, committer, timestamp_s,
  tz_offset[, message]) VALUES ($1, $2, $3, $4, $5, $6, $7[, $8])`, with the committer as the
  bytes of the C string sent as a `text` parameter. -/
  | insertReflog (r : RepoId) (name : String) (old new : Option Bytes) (committer : Bytes)
      (ts : Int) (tz : String) (message : Option String)
  /-- `UPDATE reflog SET ref_name = $1 WHERE repo_id = $2 AND ref_name = $3` -/
  | renameReflog (r : RepoId) (old new : String)
  /-- `DELETE FROM reflog WHERE repo_id = $1 AND ref_name = $2` -/
  | deleteReflog (r : RepoId) (name : String)
  /-- `SELECT 1 FROM reflog WHERE repo_id = $1 AND ref_name = $2 LIMIT 1` -/
  | selectReflogExists (r : RepoId) (name : String)
  /-- `SELECT pg_advisory_xact_lock($1::bigint)`, whose `$1` is the lock key. -/
  | advisoryXactLock (key : Int)
  /-- `SELECT name, encode(oid, 'hex'), symbolic FROM refs WHERE repo_id = $1 ORDER BY name` -/
  | selectRefsHex (r : RepoId)
  /-- `INSERT INTO refs (repo_id, name, oid) VALUES ($1, $2, decode($3, 'hex'))
  ON CONFLICT (repo_id, name) DO UPDATE SET oid = decode($3, 'hex'), symbolic = NULL` -/
  | upsertRefHex (r : RepoId) (name hex : String)
  /-- `INSERT INTO refs (repo_id, name, symbolic) VALUES ($1, $2, $3)
  ON CONFLICT (repo_id, name) DO NOTHING` -/
  | insertRefSymbolic (r : RepoId) (name target : String)

/-- A statement: a transaction statement or a query. -/
inductive Stmt where
  | control (c : Control)
  | query (q : Query)

/-! ### `LIKE` and `decode` -/

/-- A token of a `LIKE` pattern. -/
inductive LikeToken where
  | anySeq
  | anyChar
  | lit (c : Char)
  deriving DecidableEq

/-- The tokens of a `LIKE` pattern: `%`, `_`, and a character, escaped by `\` or not; `none`
when the pattern ends with the escape character. -/
def likeTokens : List Char → Option (List LikeToken)
  | [] => some []
  | '\\' :: [] => none
  | '\\' :: c :: cs => (likeTokens cs).map (.lit c :: ·)
  | '%' :: cs => (likeTokens cs).map (.anySeq :: ·)
  | '_' :: cs => (likeTokens cs).map (.anyChar :: ·)
  | c :: cs => (likeTokens cs).map (.lit c :: ·)

/-- Whether a string, as its characters, matches a list of `LIKE` tokens. -/
def matchTokens : List LikeToken → List Char → Bool
  | [], s => s.isEmpty
  | .anySeq :: ts, s => (List.range (s.length + 1)).any fun i => matchTokens ts (s.drop i)
  | .anyChar :: ts, s => match s with
    | [] => false
    | _ :: s => matchTokens ts s
  | .lit c :: ts, s => match s with
    | [] => false
    | d :: s => c == d && matchTokens ts s

/-- `s LIKE p`; `none` when the pattern is malformed and the statement fails. -/
def likeMatch (p s : String) : Option Bool :=
  (likeTokens p.toList).map fun ts => matchTokens ts s.toList

/-- The value of a hex digit, either case. -/
def hexValue (c : Char) : Option Nat :=
  if '0' ≤ c ∧ c ≤ '9' then some (c.toNat - '0'.toNat)
  else if 'a' ≤ c ∧ c ≤ 'f' then some (c.toNat - 'a'.toNat + 10)
  else if 'A' ≤ c ∧ c ≤ 'F' then some (c.toNat - 'A'.toNat + 10)
  else none

/-- `decode(t, 'hex')` over the characters of `t`: pairs of hex digits, with white space
skipped before a pair; `none` on a bad digit or an odd number of digits. -/
def hexDecodeChars : List Char → Option Bytes
  | [] => some []
  | c :: cs =>
    if c = ' ' ∨ c = '\n' ∨ c = '\t' ∨ c = '\r' then hexDecodeChars cs
    else match cs with
      | [] => none
      | d :: ds => do
        let hi ← hexValue c
        let lo ← hexValue d
        let rest ← hexDecodeChars ds
        pure ((hi * 16 + lo).toUInt8 :: rest)

/-- `decode(t, 'hex')`. -/
def hexDecode (t : String) : Option Bytes := hexDecodeChars t.toList

theorem hexValue_nibbleToHex (n : Nat) :
  hexValue (nibbleToHex n) = some (n % 16)
  := by
  have key : ∀ m, m < 16 → hexValue (nibbleToHex m) = some m := by decide
  have hn : nibbleToHex n = nibbleToHex (n % 16) := by simp [nibbleToHex]
  rw [hn, key _ (Nat.mod_lt _ (by omega))]

theorem nibbleToHex_not_space (n : Nat) :
  ¬(nibbleToHex n = ' ' ∨ nibbleToHex n = '\n' ∨ nibbleToHex n = '\t' ∨ nibbleToHex n = '\r')
  := by
  have key : ∀ m, m < 16 → ¬(nibbleToHex m = ' ' ∨ nibbleToHex m = '\n' ∨
      nibbleToHex m = '\t' ∨ nibbleToHex m = '\r') := by decide
  have hn : nibbleToHex n = nibbleToHex (n % 16) := by simp [nibbleToHex]
  rw [hn]
  exact key _ (Nat.mod_lt _ (by omega))

/-- `decode(encode(b, 'hex'), 'hex') = b`. -/
theorem hexDecode_hexEncode (b : Bytes) :
  hexDecode (hexEncode b) = some b
  := by
  simp only [hexDecode, hexEncode]
  induction b with
  | nil => rfl
  | cons x xs ih =>
    have hx := x.toNat_lt
    simp only [List.flatMap_cons, List.cons_append, List.nil_append, String.toList] at ih ⊢
    rw [hexDecodeChars, if_neg (nibbleToHex_not_space _)]
    simp only [hexValue_nibbleToHex, ih, Option.bind_eq_bind, Option.some_bind, Option.pure_def]
    have hsplit : x.toNat / 16 % 16 * 16 + x.toNat % 16 = x.toNat := by omega
    rw [hsplit, toUInt8_toNat]

end Gitgres
