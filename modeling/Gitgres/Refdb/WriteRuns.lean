import Gitgres.Refdb.Write
import Gitgres.Refdb.RefUpdate
import Gitgres.Sql.Runs

/-!
# Every run of `pg_refdb_write`

`pg_refdb_write` opens a transaction, checks the expected value when it is not forced, upserts
the ref, appends a reflog row when there is a signature, and commits; every error path rolls
back.  `pgRefdbWrite_eq` cuts it at the end of the check, so that the tail after the check,
`writeTail`, is one program.  From an idle connection, whichever statements the server fails, a
run ends as `WriteOutcome` says: the connection idle; on success the expectation held (without
force), the ref row is `ref`, and the reflog has the rows `writeReflogRows`; on failure the refs,
the reflog and the objects are as they were.  When the server fails no statement the write
succeeds exactly when it is forced or the expectation holds, and the server accepts the reflog
row's committer text (`committerAccepted`): `snprintf` cuts that text at byte 511, inside a
character if that is where the byte falls, and the server refuses a text parameter that is not
UTF-8.

The check without force and without an expected value, that the ref is absent, is a
`SELECT ... FOR UPDATE`, which locks only a row that exists; the upsert is
`INSERT ... ON CONFLICT DO UPDATE`.  Two sessions that both find the ref absent both get past
the check, and the second upsert waits for the first insert to commit and then overwrites it:
both calls return `0`, while in either sequential order the second creation fails with
`GIT_EEXISTS`.
-/

namespace Gitgres

/-- The part of `pg_refdb_write` after the compare-and-swap check: the upsert, the reflog row and
`COMMIT`. -/
def writeTail (b : RepoId) (ref : GitReference) (who : Option Signature) (message : Option String)
    (old : Option Oid) : Prog Int := do
  let res ← pqExecParams (.upsertRef b ref.name ref.refTarget) .text
  if res.status != .commandOk then return ← rollbackWith gitError
  if who.isSome then
    let error ← writeReflogEntry b ref.name old ref.target who message
    if error < 0 then return ← rollbackWith error
  let res ← pqExec .commit
  if res.status != .commandOk then return ← rollbackWith gitError
  return gitOk

theorem pgRefdbWrite_eq (b : RepoId) (ref : GitReference) (force : Bool) (who : Option Signature)
    (message : Option String) (old : Option Oid) (oldTarget : Option String) :
  pgRefdbWrite b ref force who message old oldTarget = (do
    let res ← pqExec .begin
    if res.status != .commandOk then return gitError
    if !force then
      let sel ← pqExecParams (.selectRefForUpdate b ref.name) .binary
      if sel.status != .tuplesOk then return ← rollbackWith gitError
      if old.isSome || oldTarget.isSome then
        if sel.ntuples = 0 then return ← rollbackWith gitEnotfound
        if let some o := old then
          if sel.getisnull 0 0 then return ← rollbackWith gitError
          if sel.getlength 0 0 != 20 || sel.getvalue 0 0 != o.id then
            return ← rollbackWith gitEexists
        if let some t := oldTarget then
          if sel.getisnull 0 1 then return ← rollbackWith gitError
          if sel.getstr 0 1 != t then return ← rollbackWith gitEexists
      else
        if sel.ntuples > 0 then return ← rollbackWith gitEexists
    writeTail b ref who message old)
  := rfl

/-- The reflog rows a write of `ref` with expected value `old` appends: one row numbered `id`
when there is a signature, none otherwise. -/
def writeReflogRows (id : Nat) (b : RepoId) (ref : GitReference) (old : Option Oid)
    (who : Option Signature) (message : Option String) : List ReflogRow :=
  match who with
  | some w => [⟨id, b, ref.name, reflogOid old, reflogOid ref.target, committerText w, w.time,
      tzText w, message⟩]
  | none => []

/-- The compare-and-swap condition of `pg_refdb_write` without force, on the rows under the
name: an expected OID is the ref's OID, an expected target the ref's target, and with neither
the name is free. -/
def WriteExpected (rows : List RefRow) (old : Option Oid) (oldTarget : Option String) : Prop :=
  (∀ o, old = some o → ∃ x ∈ rows, x.target = .oid o.id) ∧
    (∀ t, oldTarget = some t → ∃ x ∈ rows, x.target = .symbolic t) ∧
    (old = none → oldTarget = none → rows = [])

/-- Where a run of `pg_refdb_write` from an idle connection and the tables `db` ends, with value
`v`, connection `c` and committed tables `db'`; the reflog id sequence never moves back. -/
def WriteOutcome (db : Db) (b : RepoId) (ref : GitReference) (force : Bool)
    (who : Option Signature) (message : Option String) (old : Option Oid)
    (oldTarget : Option String) (v : Int) (c : Conn) (db' : Db) : Prop :=
  c = .idle ∧ db.reflogIdSeq ≤ db'.reflogIdSeq ∧
    (v = gitOk → (force = false → WriteExpected (db.refsOf b ref.name) old oldTarget) ∧
      db'.refs = upsertRef ⟨b, ref.name, ref.refTarget⟩ db.refs ∧
      db'.reflog = db.reflog ++ writeReflogRows db.reflogIdSeq b ref old who message ∧
      db'.objects = db.objects ∧
      db.reflogIdSeq + (writeReflogRows db.reflogIdSeq b ref old who message).length ≤
        db'.reflogIdSeq) ∧
    (v ≠ gitOk → db'.refs = db.refs ∧ db'.reflog = db.reflog ∧ db'.objects = db.objects)

section Write

variable {db : Db} {b : RepoId} {ref : GitReference} {force : Bool} {who : Option Signature}
  {message : Option String} {old : Option Oid} {oldTarget : Option String}

/-- A rollback with an error leaves the tables as the run found them. -/
theorem rollbackWith_writeOutcome {e : Int} (he : e ≠ gitOk) {c : Conn} {db₁ : Db}
    (h : db₁.refs = db.refs ∧ db₁.reflog = db.reflog ∧ db₁.objects = db.objects)
    (hseq : db.reflogIdSeq ≤ db₁.reflogIdSeq) :
  (rollbackWith e).AllRuns c db₁ (WriteOutcome db b ref force who message old oldTarget)
  := by
  simp only [rollbackWith, Prog.bind_eq, pqExec_bind]
  exact allRuns_rollback fun _ => Prog.allRuns_done ⟨rfl, hseq, fun h' => absurd h' he, fun _ => h⟩

/-- The tail ends as `WriteOutcome` says, from the transaction the check left open. -/
theorem writeTail_allRuns {hs : List LockKey}
    (hexp : force = false → WriteExpected (db.refsOf b ref.name) old oldTarget) :
  (writeTail b ref who message old).AllRuns ⟨.active, [], hs⟩ db
    (WriteOutcome db b ref force who message old oldTarget)
  := by
  simp only [writeTail, Prog.bind_eq, pqExecParams_bind, pqExec_bind, Prog.exec_bind,
    Prog.done_bind, Prog.pure_eq, Prog.bind_done]
  apply allRuns_query_active
  · exact rollbackWith_writeOutcome (by decide) ⟨rfl, rfl, rfl⟩ le_rfl
  · intro _
    simp only [Query.eval, Outcome.command, Outcome.result, Db.applyAll_nil, bne_self_eq_false,
      Bool.false_eq_true, if_false]
    cases who with
    | none =>
      simp only [Option.isSome_none, Bool.false_eq_true, if_false]
      apply allRuns_commit_active
      · exact rollbackWith_writeOutcome (by decide) ⟨rfl, rfl, rfl⟩ le_rfl
      · simp only [PGresult.control, if_true, bne_self_eq_false, Bool.false_eq_true, if_false]
        exact Prog.allRuns_done ⟨rfl, le_rfl, fun _ =>
          ⟨hexp, rfl, by simp [writeReflogRows, Change.apply], rfl, by simp [writeReflogRows]⟩,
          fun h => absurd rfl h⟩
    | some w =>
      simp only [writeReflogEntry, Option.isSome_some, if_true, Prog.bind_eq, pqExecParams_bind,
        Prog.exec_bind, Prog.pure_eq, Prog.done_bind]
      apply allRuns_query_active
      · exact rollbackWith_writeOutcome (by decide) ⟨rfl, rfl, rfl⟩ le_rfl
      · intro hst
        simp only [Query.eval, pgUtf8Verify_of_insertReflog hst, if_true, bne_self_eq_false,
          Bool.false_eq_true, if_false]
        apply allRuns_commit_active
        · exact rollbackWith_writeOutcome (by decide) ⟨rfl, rfl, rfl⟩ (by simp)
        · simp only [PGresult.control, if_true, bne_self_eq_false, Bool.false_eq_true, if_false]
          exact Prog.allRuns_done ⟨rfl, by simp, fun _ =>
            ⟨hexp, rfl, by simp [writeReflogRows, Change.apply], rfl, by simp [writeReflogRows]⟩,
            fun h => absurd rfl h⟩

/-- Every run of `pg_refdb_write` from an idle connection ends as `WriteOutcome` says. -/
theorem pgRefdbWrite_allRuns (hk : db.RefsKeyed) :
  (pgRefdbWrite b ref force who message old oldTarget).AllRuns .idle db
    (WriteOutcome db b ref force who message old oldTarget)
  := by
  rw [pgRefdbWrite_eq]
  simp only [Prog.bind_eq, pqExecParams_bind, pqExec_bind, Prog.exec_bind, Prog.done_bind,
    Prog.pure_eq, Prog.bind_done]
  apply allRuns_begin_idle
  · exact Prog.allRuns_done ⟨rfl, le_rfl, fun h => absurd h (by decide), fun _ => ⟨rfl, rfl, rfl⟩⟩
  · simp only [PGresult.control, if_true, bne_self_eq_false, Bool.false_eq_true, if_false]
    cases force with
    | true => exact writeTail_allRuns nofun
    | false =>
      simp only [Bool.not_false, if_true]
      apply allRuns_query_active
      · exact rollbackWith_writeOutcome (by decide) ⟨rfl, rfl, rfl⟩ le_rfl
      · intro _
        simp only [Query.eval, Outcome.select, Outcome.result, Db.applyAll_nil, List.nil_append,
          bne_self_eq_false, Bool.false_eq_true, if_false, Db.with_reflogIdSeq_self]
        rcases hk.refsOf_cases b ref.name with hrows | ⟨x, hrows⟩ <;> simp only [hrows]
        · cases old <;> cases oldTarget <;>
            simp [PGresult.ntuples] <;>
            first
            | exact rollbackWith_writeOutcome (by decide) ⟨rfl, rfl, rfl⟩ le_rfl
            | exact writeTail_allRuns fun _ => ⟨nofun, nofun, fun _ _ => hrows⟩
        · have hx : x ∈ db.refsOf b ref.name := by simp [hrows]
          rcases htarget : x.target with c | t <;>
            cases old <;> cases oldTarget <;>
            simp [PGresult.ntuples, PGresult.getisnull, PGresult.cell, PGresult.getlength,
              PGresult.getvalue, PGresult.getstr, htarget, RefTarget.oidCell,
              RefTarget.symbolicCell, Cell.length, Cell.raw, Cell.str]
          all_goals first
            | exact rollbackWith_writeOutcome (by decide) ⟨rfl, rfl, rfl⟩ le_rfl
            | split_ifs <;> first
              | exact rollbackWith_writeOutcome (by decide) ⟨rfl, rfl, rfl⟩ le_rfl
              | exact writeTail_allRuns fun _ => by refine ⟨?_, ?_, ?_⟩ <;> intros <;> simp_all

end Write

/-- A non-forced creation of `refs/heads/x` pointing at the OID `b b .. b`. -/
def createX (b : UInt8) : Prog Int :=
  pgRefdbWrite 1 ⟨"refs/heads/x", .direct (Oid.ofByte b)⟩ false none none none none

/-- Two sessions creating `refs/heads/x` in an empty repository. -/
def creationRace : System Int := ⟨Db.empty, [⟨.idle, createX 0xaa⟩, ⟨.idle, createX 0xbb⟩]⟩

/-- Both sessions begin and find the ref absent; the first inserts and commits; the second
upserts and commits. -/
def creationSchedule : List (Nat × Bool) :=
  [(0, false), (1, false), (0, false), (1, false), (0, false), (0, false), (1, false), (1, false)]

/-- Under `creationSchedule` both creations return `0` and the ref ends at the second value;
run one after the other, in either order, the second creation returns `GIT_EEXISTS`. -/
theorem concurrent_creations_both_succeed :
  (creationRace.run creationSchedule).map (fun s => (s.results, s.db.refs)) =
      some ([some gitOk, some gitOk], [⟨1, "refs/heads/x", .oid (Oid.ofByte 0xbb).id⟩]) ∧
    (creationRace.run [(0, false), (0, false), (0, false), (0, false),
      (1, false), (1, false), (1, false)]).map System.results = some [some gitOk, some gitEexists] ∧
    (creationRace.run [(1, false), (1, false), (1, false), (1, false),
      (0, false), (0, false), (0, false)]).map System.results = some [some gitEexists, some gitOk]
  := by
  decide

end Gitgres
