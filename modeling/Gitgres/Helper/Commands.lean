import Gitgres.Helper.Lines
import Gitgres.Odb.Backend

/-!
# The commands of the remote helper

The helper works on the database through the backends of repository `env.repoId` and on the
local repository at `GIT_DIR`.  libgit2's `git_odb_write` hashes the object, returns at once when
the object database already has it (`exists`), and else calls the backend's `write`;
`git_odb_read` and `git_odb_exists` on the database call `pgOdbRead` and `pgOdbExists`.  On the
local repository a read or a write fails where the environment says so (`HelperEnv`).

`cmdList`, `cmdFetch` and `cmdPush` return the helper's state with what they printed appended
to its output; `die` stops the helper with exit status 1.
-/

namespace Gitgres

/-- An object of the local repository. -/
structure LocalObject where
  oid : Oid
  type : Int
  data : Bytes
  deriving DecidableEq

/-- The local repository: its objects, in the order `git_odb_foreach` visits them, and its refs. -/
structure LocalRepo where
  objects : List LocalObject
  refs : List (String × RefValue)
  deriving DecidableEq

/-- What the helper cannot see from its input: SHA-1, the repository id it got at start-up,
whether `git_repository_open(GIT_DIR)` fails, and which local object reads and writes fail. -/
structure HelperEnv where
  sha1 : Bytes → Bytes
  repoId : RepoId
  openFails : Bool
  readFails : Oid → Bool
  writeFails : Oid → Bool

/-- The helper: the rest of its input, its output so far, the local repository, and its exit
status once it has stopped. -/
structure Helper where
  input : List Char
  output : List Char
  repo : LocalRepo
  exitCode : Option Nat
  deriving DecidableEq

/-- `printf("%s\n", s)`. -/
def Helper.printLn (h : Helper) (s : String) : Helper := { h with output := h.output ++ s.toList ++ ['\n'] }

/-- `die`: exit with status 1. -/
def Helper.die (h : Helper) : Helper := { h with exitCode := some 1 }

/-- `PQerrorMessage` after a failed statement: the server's message, which libpq ends with a
newline.  Only that shape matters here. -/
def pqErrorMessage : String := "ERROR:  statement failed\n"

/-- The OID libgit2 computes for an object: `none` for a type that is not a loose object type. -/
def gitOdbHash (sha1 : Bytes → Bytes) (type : Int) (data : Bytes) : Option Oid :=
  (gitTypeName type).map fun name => Oid.fromraw (objectHash sha1 name data)

/-- `git_odb_exists` on the local repository. -/
def LocalRepo.exists (repo : LocalRepo) (oid : Oid) : Bool := repo.objects.any (·.oid = oid)

/-- `git_odb_read` on the local repository. -/
def LocalRepo.read (env : HelperEnv) (repo : LocalRepo) (oid : Oid) : Option LocalObject :=
  if env.readFails oid then none else repo.objects.find? (·.oid = oid)

/-- `git_odb_write` on the local repository. -/
def LocalRepo.write (env : HelperEnv) (repo : LocalRepo) (type : Int) (data : Bytes) :
    Except Int LocalRepo :=
  match gitOdbHash env.sha1 type data with
  | none => .error gitError
  | some oid =>
    if oid.isZero || env.writeFails oid then .error gitError
    else if repo.exists oid then .ok repo
    else .ok { repo with objects := repo.objects ++ [⟨oid, type, data⟩] }

/-- `git_odb_write` on the database's object store. -/
def gitOdbWritePg (env : HelperEnv) (type : Int) (data : Bytes) : Prog Int :=
  match gitOdbHash env.sha1 type data with
  | none => pure gitError
  | some oid =>
    if oid.isZero then pure gitError
    else do
      if ← pgOdbExists env.repoId oid then return gitOk
      pgOdbWrite env.repoId oid data type

/-! ### `capabilities` and `list` -/

/-- `cmd_capabilities`. -/
def cmdCapabilities (h : Helper) : Helper := ((h.printLn "fetch").printLn "push").printLn ""

/-- The first loop of `cmd_list` over the rows: the lines of the direct refs other than `HEAD`,
and what `HEAD`'s row holds (its symbolic target, else its OID's hex). -/
def listRows (res : PGresult) : List Nat → List String × Option String × Option String
  | [] => ([], none, none)
  | i :: is =>
    let (lines, headOid, headSym) := listRows res is
    let name := res.getstr i 0
    let oidHex := res.getstr i 1
    let symbolic := res.getstr i 2
    if name = "HEAD" then
      if !res.getisnull i 2 && symbolic.length > 0 then (lines, headOid, some symbolic)
      else if !res.getisnull i 1 && oidHex.length > 0 then (lines, some oidHex, headSym)
      else (lines, headOid, headSym)
    else if !res.getisnull i 1 && oidHex.length > 0 then
      ((oidHex ++ " " ++ name) :: lines, headOid, headSym)
    else (lines, headOid, headSym)

/-- `cmd_list`: one line per direct ref, then the `HEAD` line, then a blank line. -/
def cmdList (env : HelperEnv) (h : Helper) : Prog Helper := do
  let res ← pqExecParams (.selectRefsHex env.repoId) .text
  if res.status != .tuplesOk then return h.die
  let (lines, headOid, headSym) := listRows res (List.range res.ntuples)
  let h := lines.foldl Helper.printLn h
  let headLine := match headSym with
    | some sym =>
      match (List.range res.ntuples).find? fun i => res.getstr i 0 = sym && !res.getisnull i 1 with
      | some _ => some ("@" ++ sym ++ " HEAD")
      | none => none
    | none => headOid.map (· ++ " HEAD")
  let h := match headLine with
    | some l => h.printLn l
    | none => h
  return h.printLn ""

/-! ### `fetch` -/

/-- The lines of a command block up to and including its blank line, or to the end of the input,
read as `fgets` reads them; at most `fuel` of them. -/
def skipBlock : Nat → List Char → List Char
  | 0, s => s
  | k + 1, s => match fgets 1024 s with
    | none => s
    | some (line, rest) => if chomp line = [] then rest else skipBlock k rest

/-- `fetch_copy_cb`, with the local repository as payload; it always returns 0. -/
def fetchCopyCb (env : HelperEnv) (repo : LocalRepo) (oid : Oid) : Prog (Int × LocalRepo) := do
  if repo.exists oid then return (gitOk, repo)
  match ← pgOdbRead env.repoId oid with
  | .error _ => return (gitOk, repo)
  | .ok obj =>
    match repo.write env obj.type (obj.data.take obj.len) with
    | .ok repo' => return (gitOk, repo')
    | .error _ => return (gitOk, repo)

/-- What `cmd_fetch` does after reading its block: copy every stored object the local
repository lacks, and print a blank line. -/
def fetchAnswer (env : HelperEnv) (h : Helper) : Prog Helper := do
  if env.openFails then return h.die
  let (_, repo) ← pgOdbForeach env.repoId (fetchCopyCb env) h.repo
  return { h with repo := repo }.printLn ""

/-- `cmd_fetch`: read the rest of the block, then answer it. -/
def cmdFetch (env : HelperEnv) (h : Helper) : Prog Helper :=
  fetchAnswer env { h with input := skipBlock h.input.length h.input }

/-! ### `push` -/

/-- The push specs of the rest of a push block: the lines starting with `push `, while there
are fewer than 128, up to the blank line or the end of the input; at most `fuel` lines. -/
def readPushSpecs : Nat → List Char → List PushSpec → List PushSpec × List Char
  | 0, s, specs => (specs, s)
  | k + 1, s, specs => match fgets 1024 s with
    | none => (specs, s)
    | some (buf, rest) =>
      let line := chomp buf
      if line = [] then (specs, rest)
      else if "push ".toList.isPrefixOf line && specs.length < 128 then
        readPushSpecs k rest (specs ++ [parsePushSpec (line.drop 5)])
      else readPushSpecs k rest specs

/-- `push_copy_cb`: copy one local object the database lacks; it always returns 0. -/
def pushCopyCb (env : HelperEnv) (repo : LocalRepo) (oid : Oid) : Prog Int := do
  if ← pgOdbExists env.repoId oid then return gitOk
  match repo.read env oid with
  | none => return gitOk
  | some obj =>
    let _ ← gitOdbWritePg env obj.type obj.data
    return gitOk

/-- `git_odb_foreach(local_odb, push_copy_cb)`: the callback over every local object. -/
def pushCopyAll (env : HelperEnv) (repo : LocalRepo) : List LocalObject → Prog Unit
  | [] => pure ()
  | o :: os => do
    let _ ← pushCopyCb env repo o.oid
    pushCopyAll env repo os

/-- The reference `name` of the local repository. -/
def LocalRepo.lookup (repo : LocalRepo) (name : String) : Option RefValue :=
  (repo.refs.find? (·.1 = name)).map (·.2)

/-- `git_reference_resolve`: follow symbolic targets, at most `depth` of them. -/
def LocalRepo.resolve (repo : LocalRepo) : Nat → RefValue → Option Oid
  | _, .direct o => some o
  | 0, .symbolic _ => none
  | k + 1, .symbolic t => (repo.lookup t).bind (repo.resolve k)

/-- The bytes of a run of hex digit pairs. -/
def hexPairs : List Char → Option Bytes
  | [] => some []
  | [_] => none
  | c :: d :: cs => do
    let hi ← hexValue c
    let lo ← hexValue d
    let rest ← hexPairs cs
    pure ((hi * 16 + lo).toUInt8 :: rest)

/-- `git_oid_fromstr`: the OID of the first 40 characters, when they are hex digits. -/
def oidFromStr (s : List Char) : Option Oid :=
  if (s.take 40).length = 40 then (hexPairs (s.take 40)).map Oid.fromraw else none

/-- The OID a push source names: the local ref, resolved, else the source read as an OID. -/
def resolveSrc (repo : LocalRepo) (src : List Char) : Option Oid :=
  match (repo.lookup ⟨src⟩).bind (repo.resolve 5) with
  | some o => some o
  | none => oidFromStr src

/-- The ref update of one push spec in `cmd_push`, and its status line. -/
def pushRef (env : HelperEnv) (repo : LocalRepo) (spec : PushSpec) : Prog String := do
  let dst : String := ⟨spec.dst⟩
  if spec.src.length = 0 then
    let _ ← pqExecParams (.deleteRef env.repoId dst) .text
    return "ok " ++ dst
  match resolveSrc repo spec.src with
  | none => return "error " ++ dst ++ " cannot resolve '" ++ ⟨spec.src⟩ ++ "'"
  | some oid =>
    let res ← pqExecParams (.upsertRefHex env.repoId dst (hexEncode oid.id)) .text
    if res.status = .commandOk then return "ok " ++ dst
    return "error " ++ dst ++ " " ++ pqErrorMessage

/-- The ref updates of `cmd_push`, in the order of the specs, each printing its status line. -/
def pushRefs (env : HelperEnv) : List PushSpec → Helper → Prog Helper
  | [], h => pure h
  | spec :: specs, h => do
    let line ← pushRef env h.repo spec
    pushRefs env specs (h.printLn line)

/-- What `cmd_push` does after reading its block: the object copy, the ref updates, `HEAD`
made symbolic to the first destination when it is missing, and a blank line. -/
def pushAnswer (env : HelperEnv) (specs : List PushSpec) (h : Helper) : Prog Helper := do
  if env.openFails then return h.die
  pushCopyAll env h.repo h.repo.objects
  let h ← pushRefs env specs h
  let res ← pqExecParams (.selectRefExists env.repoId "HEAD") .text
  if res.status = .tuplesOk && res.ntuples = 0 && specs.length > 0 then
    let _ ← pqExecParams (.insertRefSymbolic env.repoId "HEAD" ⟨(specs.headD ⟨[], [], false⟩).dst⟩) .text
  return h.printLn ""

/-- `cmd_push`, after the main loop read `firstLine`: read the rest of the block, then answer
it. -/
def cmdPush (env : HelperEnv) (h : Helper) (firstLine : List Char) : Prog Helper :=
  let first := if "push ".toList.isPrefixOf firstLine then [parsePushSpec (firstLine.drop 5)] else []
  let (specs, rest) := readPushSpecs h.input.length h.input first
  pushAnswer env specs { h with input := rest }

end Gitgres
