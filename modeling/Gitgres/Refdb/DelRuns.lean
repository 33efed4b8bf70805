import Gitgres.Refdb.Reflog

/-!
# Every run of a ref deletion

`pg_refdb_del` checks the expected value when one is given, deletes the ref row, deletes the
name's reflog rows without looking at the result, and commits.  The reflog delete's failure aborts
the transaction, and the `COMMIT` after it rolls back: the call then returns `0` with nothing
deleted, as the last section shows, but it never deletes the ref and keeps its reflog or the other
way round.  The delete disposition of `pg_refdb_unlock` does the same.  From an idle connection, whichever statements the server fails, a run
ends as `DelOutcome` says: the connection idle, and the tables either as they were or, with the
value `0` and the expectation met, without the ref row and without the reflog rows of the name,
`Db.withoutRef`.  The reflog rows go by id, so this needs the reflog's primary key, `id`
(`Db.ReflogKeyed`).  When the server fails nothing and the expectation holds, the deletion
happens.
-/

namespace Gitgres

/-- The primary key `id` of the reflog. -/
def Db.ReflogKeyed (db : Db) : Prop := (db.reflog.map ReflogRow.id).Nodup

instance : DecidablePred Db.ReflogKeyed := fun db =>
  inferInstanceAs (Decidable (db.reflog.map ReflogRow.id).Nodup)

/-- The tables once the ref `(b, name)` and its reflog are gone. -/
def Db.withoutRef (db : Db) (b : RepoId) (name : String) : Db :=
  { db with
    refs := db.refs.filter fun x => !(x.repo = b ∧ x.name = name)
    reflog := db.reflog.filter fun x => !(x.repo = b ∧ x.refName = name) }

/-- The compare-and-swap condition of `pg_refdb_del` on the rows under the name: an expected OID
is the ref's OID, and an expected target the ref's target. -/
def DelExpected (rows : List RefRow) (oldId : Option Oid) (oldTarget : Option String) : Prop :=
  (∀ o, oldId = some o → ∃ x ∈ rows, x.target = .oid o.id) ∧
    (∀ t, oldTarget = some t → ∃ x ∈ rows, x.target = .symbolic t)

/-- Where a run of `pg_refdb_del` from an idle connection and the tables `db` ends, with value
`v`, connection `c` and committed tables `db'`. -/
def DelOutcome (db : Db) (b : RepoId) (name : String) (oldId : Option Oid)
    (oldTarget : Option String) (v : Int) (c : Conn) (db' : Db) : Prop :=
  c = .idle ∧
    (db' = db ∨ v = gitOk ∧ DelExpected (db.refsOf b name) oldId oldTarget ∧
      db' = db.withoutRef b name)

/-- The part of `pg_refdb_del` after the compare-and-swap check: the two deletes and `COMMIT`. -/
def delTail (b : RepoId) (refName : String) : Prog Int := do
  let res ← pqExecParams (.deleteRef b refName) .text
  if res.status != .commandOk then return ← rollbackWith gitError
  let _ ← pqExecParams (.deleteReflog b refName) .text
  let res ← pqExec .commit
  if res.status != .commandOk then return ← rollbackWith gitError
  return gitOk

theorem pgRefdbDel_eq (b : RepoId) (refName : String) (oldId : Option Oid)
    (oldTarget : Option String) :
  pgRefdbDel b refName oldId oldTarget = (do
    let res ← pqExec .begin
    if res.status != .commandOk then return gitError
    if oldId.isSome || oldTarget.isSome then
      let sel ← pqExecParams (.selectRefForUpdate b refName) .binary
      if sel.status != .tuplesOk then return ← rollbackWith gitError
      if sel.ntuples = 0 then return ← rollbackWith gitEnotfound
      if let some o := oldId then
        if sel.getisnull 0 0 || sel.getlength 0 0 != 20 || sel.getvalue 0 0 != o.id then
          return ← rollbackWith gitEexists
      if let some t := oldTarget then
        if sel.getisnull 0 1 || sel.getstr 0 1 != t then return ← rollbackWith gitEexists
    delTail b refName)
  := rfl

/-! ### The effect of the two deletes -/

section Effect

variable {db : Db} {b : RepoId} {name : String}

/-- On a keyed reflog, the rows whose ids the name's rows have are the name's rows. -/
theorem Db.ReflogKeyed.mem_reflogIds (hl : db.ReflogKeyed) {x : ReflogRow} (hx : x ∈ db.reflog) :
  x.id ∈ db.reflogIds b name ↔ x.repo = b ∧ x.refName = name
  := by
  constructor
  · intro h
    obtain ⟨y, hy, hid⟩ := List.mem_map.1 h
    obtain ⟨hy, hyb⟩ := List.mem_filter.1 hy
    rw [List.inj_on_of_nodup_map hl hy hx hid] at hyb
    simpa using hyb
  · intro h
    exact List.mem_map_of_mem _ (List.mem_filter.2 ⟨hx, by simpa using h⟩)

/-- On a keyed reflog, deleting the rows with the ids of a name's rows deletes the name's rows. -/
theorem filter_reflogIds (hl : db.ReflogKeyed) :
  db.reflog.filter (fun x => !(x.repo = b ∧ x.id ∈ db.reflogIds b name)) =
    db.reflog.filter fun x => !(x.repo = b ∧ x.refName = name)
  := List.filter_congr fun x hx => by
  simp only [hl.mem_reflogIds hx, and_self_left]

/-- Deleting a name that holds no ref leaves the refs as they are. -/
theorem filter_not_refsOf (h : db.refsOf b name = []) :
  db.refs.filter (fun x => !(x.repo = b ∧ x.name = name)) = db.refs
  := List.filter_eq_self.2 fun x hx => by
  simp only [Db.refsOf, List.filter_eq_nil_iff, decide_eq_true_eq] at h
  simpa only [decide_not, Bool.not_not, Bool.not_eq_true', decide_eq_false_iff_not] using h x hx

/-- The ref delete reports success, leaves the sequence, and deletes the ref row. -/
theorem eval_deleteRef (v : Db) (b : RepoId) (name : String) :
  (Query.eval v (.deleteRef b name)).status = .commandOk ∧
    (Query.eval v (.deleteRef b name)).nextId = v.reflogIdSeq ∧
    v.applyAll (Query.eval v (.deleteRef b name)).changes =
      { v with refs := v.refs.filter fun x => !(x.repo = b ∧ x.name = name) }
  := by
  by_cases he : (v.refsOf b name).isEmpty
  · refine ⟨by simp [Query.eval, he, Outcome.command], by simp [Query.eval, he, Outcome.command], ?_⟩
    simp only [Query.eval, he, if_true, Outcome.command, Db.applyAll_nil]
    rw [filter_not_refsOf (List.isEmpty_iff.1 he)]
  · simp [Query.eval, he, Outcome.command, Change.apply]

theorem eval_deleteReflog (v : Db) :
  Query.eval v (.deleteReflog b name) = .command v (v.reflogIds b name).length
    [.delReflog b (v.reflogIds b name)] ((v.reflogIds b name).map .reflogRow)
  := rfl

end Effect

/-! ### Every run -/

section Del

variable {db : Db} {b : RepoId} {name : String} {oldId : Option Oid} {oldTarget : Option String}

/-- A rollback leaves the tables as the run found them. -/
theorem rollbackWith_delOutcome {e : Int} {c : Conn} :
  (rollbackWith e).AllRuns c db (DelOutcome db b name oldId oldTarget)
  := by
  simp only [rollbackWith, Prog.bind_eq, pqExec_bind]
  exact allRuns_rollback fun _ => Prog.allRuns_done ⟨rfl, .inl rfl⟩

/-- The tail ends as `DelOutcome` says, from the transaction the check left open. -/
theorem delTail_allRuns {hs : List LockKey} (hl : db.ReflogKeyed)
    (hexp : DelExpected (db.refsOf b name) oldId oldTarget) :
  (delTail b name).AllRuns ⟨.active, [], hs⟩ db (DelOutcome db b name oldId oldTarget)
  := by
  simp only [delTail, Prog.bind_eq, pqExecParams_bind, pqExec_bind, Prog.exec_bind,
    Prog.done_bind, Prog.pure_eq, Prog.bind_done]
  apply allRuns_query_active
  · exact rollbackWith_delOutcome
  · intro _
    obtain ⟨hst, hseq, hdel⟩ := eval_deleteRef db b name
    simp only [Db.applyAll_nil, Outcome.result]
    simp only [hst, hseq, bne_self_eq_false, Bool.false_eq_true,
      if_false, Db.with_reflogIdSeq_self]
    apply allRuns_query_active
    · exact allRuns_commit_failed (Prog.allRuns_done ⟨rfl, .inl rfl⟩)
    · intro _
      simp only [List.nil_append, hdel, eval_deleteReflog, Outcome.command, Db.applyAll_append]
      apply allRuns_commit_active
      · simp only [PGresult.control, if_false, bne_iff_ne, ne_eq, reduceCtorEq, not_false_eq_true,
          decide_True, if_true]
        exact rollbackWith_delOutcome
      · simp only [PGresult.control, if_true, bne_self_eq_false, Bool.false_eq_true, if_false,
          Db.with_reflogIdSeq_self, Db.applyAll_append, hdel, Db.applyAll_cons, Db.applyAll_nil,
          Change.apply]
        refine Prog.allRuns_done ⟨rfl, .inr ⟨rfl, hexp, ?_⟩⟩
        rw [Db.withoutRef, ← filter_reflogIds hl]
        rfl

/-- The OID check of `pg_refdb_del` passes on the ref's row only when the ref holds the expected
OID. -/
theorem oidCheck_passed {res : PGresult} {x : RefRow} {o : Oid}
    (hrows : res.rows = [[x.target.oidCell, x.target.symbolicCell]]) (hfmt : res.format = .binary)
    (h : ¬(res.getisnull 0 0 || res.getlength 0 0 != 20 || res.getvalue 0 0 != o.id) = true) :
  x.target = .oid o.id
  := by
  rcases ht : x.target with c | t <;>
    simp_all [PGresult.getisnull, PGresult.getlength, PGresult.getvalue, PGresult.cell,
      RefTarget.oidCell, Cell.raw]

/-- The target check passes on the ref's row only when the ref holds the expected target. -/
theorem targetCheck_passed {res : PGresult} {x : RefRow} {t : String}
    (hrows : res.rows = [[x.target.oidCell, x.target.symbolicCell]])
    (h : ¬(res.getisnull 0 1 || res.getstr 0 1 != t) = true) :
  x.target = .symbolic t
  := by
  rcases ht : x.target with c | t' <;>
    simp_all [PGresult.getisnull, PGresult.getstr, PGresult.cell, RefTarget.symbolicCell, Cell.str]

/-- A check that rolls back when it fails ends as `DelOutcome` says when what it guards does. -/
theorem rollbackWith_or_delOutcome {p : Prop} [Decidable p] {e : Int} {k : Prog Int} {c : Conn}
    (hk : ¬p → k.AllRuns c db (DelOutcome db b name oldId oldTarget)) :
  (if p then rollbackWith e else k).AllRuns c db (DelOutcome db b name oldId oldTarget)
  := by
  split_ifs with h
  exacts [rollbackWith_delOutcome, hk h]

/-- Every run of `pg_refdb_del` from an idle connection ends as `DelOutcome` says. -/
theorem pgRefdbDel_allRuns (hk : db.RefsKeyed) (hl : db.ReflogKeyed) :
  (pgRefdbDel b name oldId oldTarget).AllRuns .idle db (DelOutcome db b name oldId oldTarget)
  := by
  rw [pgRefdbDel_eq]
  simp only [Prog.bind_eq, pqExecParams_bind, pqExec_bind, Prog.exec_bind, Prog.done_bind,
    Prog.pure_eq, Prog.bind_done]
  apply allRuns_begin_idle
  · exact Prog.allRuns_done ⟨rfl, .inl rfl⟩
  · simp only [PGresult.control, if_true, bne_self_eq_false, Bool.false_eq_true, if_false]
    by_cases hnone : oldId = none ∧ oldTarget = none
    · obtain ⟨rfl, rfl⟩ := hnone
      exact delTail_allRuns hl ⟨nofun, nofun⟩
    · have hsome : (oldId.isSome || oldTarget.isSome) = true := by
        cases oldId <;> cases oldTarget <;> simp_all
      rw [if_pos hsome]
      apply allRuns_query_active
      · exact rollbackWith_delOutcome
      · intro _
        simp only [Query.eval, Outcome.select, Outcome.result, Db.applyAll_nil, List.nil_append,
          bne_self_eq_false, Bool.false_eq_true, if_false, Db.with_reflogIdSeq_self]
        rcases hk.refsOf_cases b name with hrows | ⟨x, hrows⟩ <;> simp only [hrows]
        · simp only [PGresult.ntuples, List.map_nil, List.length_nil, if_true]
          exact rollbackWith_delOutcome
        · have hx : x ∈ db.refsOf b name := by simp [hrows]
          simp only [PGresult.ntuples, List.map_cons, List.map_nil, List.length_cons,
            List.length_nil, Nat.add_one_ne_zero, if_false, decide_False]
          rcases oldId with _ | o <;> rcases oldTarget with _ | t <;> dsimp only
          · exact absurd ⟨rfl, rfl⟩ hnone
          · exact rollbackWith_or_delOutcome fun h => delTail_allRuns hl
              ⟨nofun, fun _ ht => ⟨x, hx, Option.some_inj.1 ht ▸ targetCheck_passed rfl h⟩⟩
          · exact rollbackWith_or_delOutcome fun h => delTail_allRuns hl
              ⟨fun _ ho => ⟨x, hx, Option.some_inj.1 ho ▸ oidCheck_passed rfl rfl h⟩, nofun⟩
          · exact rollbackWith_or_delOutcome fun h => rollbackWith_or_delOutcome fun h' =>
              delTail_allRuns hl ⟨fun _ ho => ⟨x, hx, Option.some_inj.1 ho ▸ oidCheck_passed rfl rfl h⟩,
                fun _ ht => ⟨x, hx, Option.some_inj.1 ht ▸ targetCheck_passed rfl h'⟩⟩

/-- When the server fails no statement, the tail deletes the ref and its reflog. -/
theorem delTail_run_ok {hs : List LockKey} (hl : db.ReflogKeyed) :
  (delTail b name).run ⟨.active, [], hs⟩ db [] = ⟨gitOk, .idle, db.withoutRef b name, []⟩
  := by
  obtain ⟨hst, hseq, hdel⟩ := eval_deleteRef db b name
  simp only [delTail, Prog.bind_eq, pqExecParams_bind, pqExec_bind, Prog.exec_bind,
    Prog.done_bind, Prog.pure_eq, Prog.bind_done, Prog.run_exec, Conn.exec, Conn.view,
    Db.applyAll_nil, List.headD_nil, Bool.false_eq_true, false_or, hst, reduceCtorEq, if_false,
    Outcome.result, bne_self_eq_false, List.tail_nil, List.nil_append, hdel, eval_deleteReflog,
    Outcome.command, PGresult.control, if_true, Db.applyAll_append, Db.applyAll_cons, Change.apply,
    hseq, Db.with_reflogIdSeq_self]
  rw [Db.withoutRef, ← filter_reflogIds hl]
  rfl

/-- When the server fails no statement and the expectation holds, `pg_refdb_del` deletes the ref
and its reflog and returns `0`. -/
theorem pgRefdbDel_run_ok (hk : db.RefsKeyed) (hl : db.ReflogKeyed)
    (hexp : DelExpected (db.refsOf b name) oldId oldTarget) :
  (pgRefdbDel b name oldId oldTarget).run .idle db [] = ⟨gitOk, .idle, db.withoutRef b name, []⟩
  := by
  rw [pgRefdbDel_eq]
  obtain ⟨hold, htarget⟩ := hexp
  rcases hk.refsOf_cases b name with hrows | ⟨x, hrows⟩ <;>
    simp only [hrows, List.not_mem_nil, false_and, exists_false, List.mem_singleton,
      exists_eq_left] at hold htarget
  · cases oldId <;> cases oldTarget <;> simp at hold htarget
    simpa [Conn.exec, Conn.idle, PGresult.control] using delTail_run_ok hl
  · cases oldId <;> cases oldTarget <;>
      simp [Oid.length_id, Conn.exec, Conn.idle, Conn.view, PGresult.control, Query.eval, hrows,
        Outcome.select, Outcome.result, PGresult.ntuples, PGresult.getisnull, PGresult.cell,
        PGresult.getlength, PGresult.getvalue, PGresult.getstr, RefTarget.oidCell,
        RefTarget.symbolicCell, Cell.length, Cell.raw, Cell.str, hold, htarget] at hold htarget ⊢
    all_goals exact delTail_run_ok hl

end Del

/-! ### The lock and the unlock -/

/-- The lock and the unlock with disposition `success`, on one connection. -/
def lockThenUnlock (b : RepoId) (ref : GitReference) (success : Int) (updateReflog : Bool)
    (sig : Option Signature) (message : Option String) : Prog Int := do
  match ← pgRefdbLock b ref.name with
  | .ok lock => pgRefdbUnlock b lock success updateReflog ref sig message
  | .error e => pure e

/-- The reflog rows the write disposition of `pg_refdb_unlock` appends: one row with no old value
when it is asked to and there is a signature. -/
def unlockReflogRows (id : Nat) (b : RepoId) (ref : GitReference) (updateReflog : Bool)
    (sig : Option Signature) (message : Option String) : List ReflogRow :=
  if updateReflog then writeReflogRows id b ref none sig message else []

/-- Where a run of the lock and the unlock from an idle connection and the tables `db` ends:
the connection idle, the objects as they were, and the refs and the reflog either as they were
or, with the value `0`, changed as the disposition says: `1` writes `ref` and its reflog row, `2`
deletes the ref and its reflog. -/
def UnlockOutcome (db : Db) (b : RepoId) (ref : GitReference) (success : Int)
    (updateReflog : Bool) (sig : Option Signature) (message : Option String) (v : Int) (c : Conn)
    (db' : Db) : Prop :=
  c = .idle ∧ db'.objects = db.objects ∧ db.reflogIdSeq ≤ db'.reflogIdSeq ∧
    (db'.refs = db.refs ∧ db'.reflog = db.reflog ∨
      v = gitOk ∧
        (success = 1 ∧ db'.refs = upsertRef ⟨b, ref.name, ref.refTarget⟩ db.refs ∧
            db'.reflog = db.reflog ++ unlockReflogRows db.reflogIdSeq b ref updateReflog sig message ∨
          success = 2 ∧ db'.refs = (db.withoutRef b ref.name).refs ∧
            db'.reflog = (db.withoutRef b ref.name).reflog))

section Unlock

variable {db : Db} {b : RepoId} {ref : GitReference} {success : Int} {updateReflog : Bool}
  {sig : Option Signature} {message : Option String}

theorem lockThenUnlock_allRuns (hl : db.ReflogKeyed) :
  (lockThenUnlock b ref success updateReflog sig message).AllRuns .idle db
    (UnlockOutcome db b ref success updateReflog sig message)
  := by
  simp only [lockThenUnlock, pgRefdbLock, pgRefdbUnlock, unlockChanges, rollbackWith, Prog.bind_eq,
    pqExecParams_bind, pqExec_bind, Prog.exec_bind, Prog.done_bind, Prog.pure_eq, Prog.bind_done]
  apply allRuns_begin_idle
  · exact Prog.allRuns_done ⟨rfl, rfl, le_rfl, .inl ⟨rfl, rfl⟩⟩
  · simp only [PGresult.control, if_true, bne_self_eq_false, Bool.false_eq_true, if_false,
      Prog.exec_bind]
    apply allRuns_query_active
    · exact allRuns_rollback fun _ => Prog.allRuns_done ⟨rfl, rfl, le_rfl, .inl ⟨rfl, rfl⟩⟩
    · intro _
      simp only [Query.eval, Outcome.select, Outcome.result, Db.applyAll_nil, List.nil_append,
        Db.with_reflogIdSeq_self, bne_self_eq_false, Bool.false_eq_true, if_false]
      simp only [Prog.done_bind]
      have hnot : ∀ {c : Conn} {db₁ : Db}, db₁.objects = db.objects → db₁.refs = db.refs →
          db₁.reflog = db.reflog → db.reflogIdSeq ≤ db₁.reflogIdSeq →
          (Prog.exec (.control (if gitError = gitOk then .commit else .rollback)) .text
            fun _ => Prog.done gitError).AllRuns c db₁
            (UnlockOutcome db b ref success updateReflog sig message) := fun ho hr hg hs => by
        rw [if_neg gitError_ne_gitOk]
        exact allRuns_rollback fun _ => Prog.allRuns_done ⟨rfl, ho, hs, .inl ⟨hr, hg⟩⟩
      by_cases h1 : success = 1
      · subst h1
        simp only [if_true, Prog.exec_bind]
        apply allRuns_query_active
        · simp only [PGresult.error, bne_iff_ne, ne_eq, reduceCtorEq, not_false_eq_true,
            decide_True, if_true, Prog.done_bind]
          exact hnot rfl rfl rfl le_rfl
        · intro _
          simp only [Query.eval, Outcome.command, Outcome.result, bne_self_eq_false,
            Bool.false_eq_true, if_false, Db.applyAll_nil, List.nil_append, Db.with_reflogIdSeq_self]
          have hput : (db.applyAll [.putRef ⟨b, ref.name, ref.refTarget⟩]).refs =
              upsertRef ⟨b, ref.name, ref.refTarget⟩ db.refs := rfl
          cases updateReflog <;> cases sig <;>
            simp only [Bool.and_true, Bool.and_false, Bool.false_and, Option.isSome_none,
              Option.isSome_some, Bool.false_eq_true, if_false, if_true, Prog.done_bind]
          all_goals first
            | apply allRuns_commit_active
              · exact Prog.allRuns_done ⟨rfl, rfl, le_rfl, .inl ⟨rfl, rfl⟩⟩
              · exact Prog.allRuns_done ⟨rfl, rfl, le_rfl, .inr ⟨rfl, .inl ⟨rfl, hput,
                  by simp [Change.apply, unlockReflogRows, writeReflogRows]⟩⟩⟩
            | simp only [writeReflogEntry, Prog.bind_eq, pqExecParams_bind, Prog.exec_bind,
                Prog.done_bind, Prog.pure_eq]
              apply allRuns_query_active
              · simp only [PGresult.error, bne_iff_ne, ne_eq, reduceCtorEq, not_false_eq_true,
                  decide_True, if_true, Prog.done_bind]
                exact hnot rfl rfl rfl le_rfl
              · intro hst
                simp only [Query.eval, pgUtf8Verify_of_insertReflog hst, bne_self_eq_false,
                  Bool.false_eq_true, if_false, Prog.done_bind, if_true]
                apply allRuns_commit_active
                · exact Prog.allRuns_done ⟨rfl, rfl, by simp, .inl ⟨rfl, rfl⟩⟩
                · exact Prog.allRuns_done ⟨rfl, rfl, by simp, .inr ⟨rfl, .inl ⟨rfl, hput,
                    by simp [Change.apply, unlockReflogRows, writeReflogRows]⟩⟩⟩
      · simp only [h1, if_false]
        by_cases h2 : success = 2
        · subst h2
          simp only [if_true, Prog.exec_bind]
          apply allRuns_query_active
          · simp only [PGresult.error, bne_iff_ne, ne_eq, reduceCtorEq, not_false_eq_true,
              decide_True, if_true, Prog.done_bind]
            exact hnot rfl rfl rfl le_rfl
          · intro _
            obtain ⟨hst, hseq, hdel⟩ := eval_deleteRef db b ref.name
            simp only [Db.applyAll_nil, Outcome.result, hst, hseq, bne_self_eq_false,
              Bool.false_eq_true, if_false, Db.with_reflogIdSeq_self, Prog.exec_bind, Prog.done_bind,
              if_true]
            apply allRuns_query_active
            · exact allRuns_commit_failed (Prog.allRuns_done ⟨rfl, rfl, le_rfl, .inl ⟨rfl, rfl⟩⟩)
            · intro _
              simp only [List.nil_append, hdel, eval_deleteReflog, Outcome.command]
              apply allRuns_commit_active
              · exact Prog.allRuns_done ⟨rfl, rfl, le_rfl, .inl ⟨rfl, rfl⟩⟩
              · simp only [Db.applyAll_append, hdel, Db.applyAll_cons, Db.applyAll_nil,
                  Change.apply]
                exact Prog.allRuns_done ⟨rfl, rfl, le_rfl, .inr ⟨rfl, .inr ⟨rfl, rfl,
                  by rw [Db.withoutRef, ← filter_reflogIds hl]; rfl⟩⟩⟩
        · simp only [h2, if_false, Prog.done_bind, if_true]
          apply allRuns_commit_active <;>
            exact Prog.allRuns_done ⟨rfl, rfl, le_rfl, .inl ⟨rfl, rfl⟩⟩

end Unlock

/-! ### All or nothing -/

/-- `pg_refdb_del` on an idle connection, whichever statements the server fails, on tables whose
refs and reflog keep their primary keys.  The connection ends idle.  The tables are either as they
were, or the call returned `0`, the ref held the expected OID and target, and the ref row and every
reflog row of the name are gone, with nothing else changed.  When the server fails no statement
and the expectation holds, the call deletes the ref and its reflog and returns `0`. -/
theorem del_all_or_nothing (db : Db) (hk : db.RefsKeyed) (hl : db.ReflogKeyed) (b : RepoId)
    (name : String) (oldId : Option Oid) (oldTarget : Option String) (fails : List Bool) :
  let R := (pgRefdbDel b name oldId oldTarget).run .idle db fails
  R.conn = .idle ∧
    (R.db = db ∨
      R.val = gitOk ∧ DelExpected (db.refsOf b name) oldId oldTarget ∧ R.db = db.withoutRef b name) ∧
    (fails = [] → DelExpected (db.refsOf b name) oldId oldTarget →
      R.val = gitOk ∧ R.db = db.withoutRef b name)
  := by
  refine ⟨(pgRefdbDel_allRuns hk hl fails).1, (pgRefdbDel_allRuns hk hl fails).2, ?_⟩
  rintro rfl hexp
  rw [pgRefdbDel_run_ok hk hl hexp]
  exact ⟨rfl, rfl⟩

/-- `refs/heads/x` at `aa..aa` in repository 1, with the reflog row of its creation. -/
def loggedXDb : Db :=
  { objects := []
    refs := [⟨1, "refs/heads/x", .oid (Oid.ofByte 0xaa).id⟩]
    reflog := [⟨1, 1, "refs/heads/x", none, some (Oid.ofByte 0xaa).id, committerText testUser,
      1234567890, tzText testUser, none⟩]
    reflogIdSeq := 2 }

theorem del_all_or_nothing_of_x :
  loggedXDb.RefsKeyed ∧ loggedXDb.ReflogKeyed ∧
    let R := (pgRefdbDel 1 "refs/heads/x" (some (Oid.ofByte 0xaa)) none).run .idle loggedXDb []
    R.conn = .idle ∧
      (R.db = loggedXDb ∨
        R.val = gitOk ∧ DelExpected (loggedXDb.refsOf 1 "refs/heads/x") (some (Oid.ofByte 0xaa)) none ∧
          R.db = loggedXDb.withoutRef 1 "refs/heads/x") ∧
      ([] = ([] : List Bool) →
        DelExpected (loggedXDb.refsOf 1 "refs/heads/x") (some (Oid.ofByte 0xaa)) none →
        R.val = gitOk ∧ R.db = loggedXDb.withoutRef 1 "refs/heads/x")
  := ⟨by decide, by decide,
    del_all_or_nothing loggedXDb (by decide) (by decide) 1 "refs/heads/x" _ none []⟩

/-- A repository with the direct ref `refs/heads/x`. -/
def xRefDb : Db := { Db.empty with refs := [⟨1, "refs/heads/x", .oid (Oid.ofByte 0xaa).id⟩] }

/-- The lock and the unlock that deletes `ref`, on one connection. -/
def lockThenDelete (b : RepoId) (ref : GitReference) : Prog Int :=
  lockThenUnlock b ref 2 false none none

/-- When the reflog delete fails, `pg_refdb_del` of `refs/heads/x` and the lock/unlock pair
that deletes it both return `0`, and the ref is still there. -/
theorem del_reports_success_after_rollback :
  (pgRefdbDel 1 "refs/heads/x" none none).run .idle xRefDb [false, false, true] =
      ⟨gitOk, .idle, xRefDb, []⟩ ∧
    (lockThenDelete 1 ⟨"refs/heads/x", .direct (Oid.ofByte 0xaa)⟩).run .idle xRefDb
        [false, false, false, true] = ⟨gitOk, .idle, xRefDb, []⟩
  := by
  decide

end Gitgres
