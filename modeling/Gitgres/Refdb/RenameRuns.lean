import Gitgres.Refdb.DelRuns
import Gitgres.Refdb.ReadPaths

/-!
# Every run of a ref rename

`pg_refdb_rename` refuses a new name that is taken unless it is forced, when it deletes the ref
under the new name without looking at the result.  It then renames the ref row, moves the old
name's reflog rows to the new name without looking at the result, reads the renamed ref back in a
text result, and commits.  From an idle connection, whichever statements the server fails, a run
ends as `RenameOutcome` says: the connection idle; on an error the tables as they were; on
success the old ref was symbolic, the names differ, the new name was free unless forced, the
result is the symbolic ref under the new name, and the tables are `Db.renamedRef`: the ref under
the new name replaced by the renamed one, and the old name's reflog rows under the new name.  The
read-back is why a direct ref is never renamed: in a text result its 20-byte OID is 42 characters
long, and `refFromResult` refuses it (`refFromResult_text_oid`).  When the server fails nothing, a
symbolic ref is renamed to any other name that is free or forced.
-/

namespace Gitgres

/-- Every direct ref's `oid` has 20 bytes, as every writer of the backend stores it. -/
def Db.OidsSized (db : Db) : Prop := ∀ x ∈ db.refs, ∀ c ∈ x.target.oidValue, c.length = 20

instance : DecidablePred Db.OidsSized := fun db =>
  inferInstanceAs (Decidable (∀ x ∈ db.refs, ∀ c ∈ x.target.oidValue, c.length = 20))

/-- The tables once the ref `(b, old)` is renamed `new`: the ref under the new name is gone, the
old ref has the new name, and the old name's reflog rows are under the new name. -/
def Db.renamedRef (db : Db) (b : RepoId) (old new : String) : Db :=
  { db with
    refs := renameRefRow b old new (db.refs.filter fun x => !(x.repo = b ∧ x.name = new))
    reflog := db.reflog.map fun x =>
      if x.repo = b ∧ x.refName = old then { x with refName := new } else x }

/-- Where a run of `pg_refdb_rename` from an idle connection and the tables `db` ends, with value
`v`, connection `c` and committed tables `db'`. -/
def RenameOutcome (db : Db) (b : RepoId) (old new : String) (force : Bool)
    (v : Except Int GitReference) (c : Conn) (db' : Db) : Prop :=
  c = .idle ∧ (∀ e, v = .error e → db' = db) ∧
    ∀ ref, v = .ok ref → ∃ t, ref = ⟨new, .symbolic t⟩ ∧ db.refsOf b old = [⟨b, old, .symbolic t⟩] ∧
      old ≠ new ∧ (force = false → db.refsOf b new = []) ∧ db' = db.renamedRef b old new

/-- The part of `pg_refdb_rename` after the check of the new name: the renames, the read-back
and `COMMIT`. -/
def renameTail (b : RepoId) (oldName newName : String) : Prog (Except Int GitReference) := do
  let res ← pqExecParams (.renameRef b oldName newName) .text
  if res.status != .commandOk then return ← rollbackWith (.error gitError)
  if res.cmdTuples = 0 then return ← rollbackWith (.error gitEnotfound)
  let _ ← pqExecParams (.renameReflog b oldName newName) .text
  let sel ← pqExecParams (.selectRef b newName) .text
  if sel.status != .tuplesOk || sel.ntuples = 0 then return ← rollbackWith (.error gitError)
  match refFromResult sel 0 none with
  | .error _ => rollbackWith (.error gitError)
  | .ok ref =>
    let res ← pqExec .commit
    if res.status != .commandOk then return ← rollbackWith (.error gitError)
    return .ok ref

theorem pgRefdbRename_eq (b : RepoId) (oldName newName : String) (force : Bool) :
  pgRefdbRename b oldName newName force = (do
    let res ← pqExec .begin
    if res.status != .commandOk then return .error gitError
    if !force then
      let chk ← pqExecParams (.selectRefExists b newName) .text
      if chk.status != .tuplesOk then return ← rollbackWith (.error gitError)
      if chk.ntuples > 0 then return ← rollbackWith (.error gitEexists)
    else
      let _ ← pqExecParams (.deleteRef b newName) .text
    renameTail b oldName newName)
  := rfl

/-! ### The view after the new name is cleared -/

section View

variable {db : Db} {b : RepoId} {old new : String}

/-- The refs with the ref `(b, new)` deleted. -/
theorem refsOf_without_new (n : String) :
  ({ db with refs := db.refs.filter fun x => !(x.repo = b ∧ x.name = new) } : Db).refsOf b n =
    if n = new then [] else db.refsOf b n
  := by
  simp only [Db.refsOf, List.filter_filter]
  split
  · subst n
    simp
  · rename_i hn
    congr 1
    funext x
    by_cases h : x.repo = b ∧ x.name = n
    · simp [h, hn]
    · simp [h]

/-- Renaming the ref `(b, old)` after deleting `(b, new)` puts the old ref, and only it, under the
new name. -/
theorem refsOf_renameRefRow (hne : old ≠ new) (rows : List RefRow) :
  (renameRefRow b old new (rows.filter fun x => !(x.repo = b ∧ x.name = new))).filter
      (fun x => x.repo = b ∧ x.name = new) =
    (rows.filter fun x => x.repo = b ∧ x.name = old).map fun x => { x with name := new }
  := by
  rw [renameRefRow, List.filter_map, List.filter_filter]
  have hsel : ∀ x : RefRow, (((fun x : RefRow => decide (x.repo = b ∧ x.name = new)) ∘
      (fun x => if x.repo = b ∧ x.name = old then { x with name := new } else x)) x &&
        !decide (x.repo = b ∧ x.name = new)) = decide (x.repo = b ∧ x.name = old) := fun x => by
    by_cases h : x.repo = b ∧ x.name = old
    · simp [h, hne]
    · simp only [Function.comp, h, if_false]
      cases decide (x.repo = b ∧ x.name = new) <;> simp [h]
  rw [List.filter_congr fun x _ => hsel x, List.map_congr_left fun x hx => ?_]
  rw [if_pos (by simpa using (List.mem_filter.1 hx).2)]

/-- On a keyed reflog, renaming the rows with the ids of a name's rows renames the name's rows. -/
theorem map_reflogIds (hl : db.ReflogKeyed) :
  db.reflog.map (fun x => if x.repo = b ∧ x.id ∈ db.reflogIds b old then { x with refName := new }
      else x) =
    db.reflog.map fun x => if x.repo = b ∧ x.refName = old then { x with refName := new } else x
  := List.map_congr_left fun x hx => by
  simp only [hl.mem_reflogIds hx, and_self_left]

/-- Without a ref under the old name, the rename updates nothing. -/
theorem eval_renameRef_none (v : Db) (h : v.refsOf b old = []) :
  Query.eval v (.renameRef b old new) = .command v 0 [] []
  := by
  simp [Query.eval, h]

/-- With a ref under the old name and none under the new one, the rename updates one row. -/
theorem eval_renameRef_one (v : Db) (h : v.refsOf b old ≠ []) (hnew : v.refsOf b new = []) :
  Query.eval v (.renameRef b old new) = .command v 1 [.renameRef b old new] [.ref b old, .ref b new]
  := by
  simp [Query.eval, h, hnew]

theorem eval_renameReflog (v : Db) :
  Query.eval v (.renameReflog b old new) = .command v (v.reflogIds b old).length
    [.renameReflog b (v.reflogIds b old) new] ((v.reflogIds b old).map .reflogRow)
  := rfl

theorem eval_selectRef (v : Db) :
  Query.eval v (.selectRef b new) = .select v ((v.refsOf b new).map RefRow.cells)
  := rfl

/-- A symbolic row of a result is read back as the symbolic ref, in either format. -/
theorem refFromResult_symbolic (st : ExecStatus) (k : Nat) (fmt : Format) (r : RepoId)
    (n t : String) :
  refFromResult ⟨st, [(⟨r, n, .symbolic t⟩ : RefRow).cells], k, fmt⟩ 0 none = .ok ⟨n, .symbolic t⟩
  := by
  simp [refFromResult, PGresult.getisnull, PGresult.cell, RefRow.cells, RefTarget.oidCell,
    RefTarget.symbolicCell, PGresult.getstr, Cell.str]

end View

/-! ### Every run -/

section Rename

variable {db : Db} {b : RepoId} {old new : String} {force : Bool}

/-- A rollback with an error leaves the tables as the run found them. -/
theorem rollbackWith_renameOutcome {e : Int} {c : Conn} :
  (rollbackWith (.error e)).AllRuns c db (RenameOutcome db b old new force)
  := by
  simp only [rollbackWith, Prog.bind_eq, pqExec_bind]
  exact allRuns_rollback fun _ => Prog.allRuns_done ⟨rfl, fun _ _ => rfl, nofun⟩

/-- The tail ends as `RenameOutcome` says, from the transaction the check left open, in which the
ref under the new name is deleted. -/
theorem renameTail_allRuns {ps : List Change} {hs : List LockKey} (hk : db.RefsKeyed)
    (hl : db.ReflogKeyed) (hsz : db.OidsSized)
    (hview : db.applyAll ps = { db with refs := db.refs.filter fun x => !(x.repo = b ∧ x.name = new) })
    (hforce : force = false → db.refsOf b new = []) :
  (renameTail b old new).AllRuns ⟨.active, ps, hs⟩ db (RenameOutcome db b old new force)
  := by
  simp only [renameTail, Prog.bind_eq, pqExecParams_bind, pqExec_bind, Prog.exec_bind,
    Prog.done_bind, Prog.pure_eq, Prog.bind_done]
  apply allRuns_query_active
  · exact rollbackWith_renameOutcome
  · intro _
    have hnew : (db.applyAll ps).refsOf b new = [] := by
      rw [hview, refsOf_without_new, if_pos rfl]
    by_cases hnone : db.refsOf b old = [] ∨ old = new
    · have h0 : (db.applyAll ps).refsOf b old = [] := by
        rw [hview, refsOf_without_new]
        split <;> simp_all
      simp only [eval_renameRef_none _ h0, Outcome.command, Outcome.result, bne_self_eq_false,
        Bool.false_eq_true, if_false, if_true, Db.applyAll_reflogIdSeq, Db.with_reflogIdSeq_self]
      exact rollbackWith_renameOutcome
    · obtain ⟨hsome, hne⟩ := not_or.1 hnone
      obtain ⟨x, hx⟩ := (hk.refsOf_cases b old).resolve_left hsome
      have h1 : (db.applyAll ps).refsOf b old = [x] := by
        rw [hview, refsOf_without_new, if_neg hne, hx]
      have h1' : (db.applyAll ps).refsOf b old ≠ [] := by simp [h1]
      simp only [eval_renameRef_one _ h1' hnew, Outcome.command, Outcome.result,
        bne_self_eq_false, Bool.false_eq_true, if_false, one_ne_zero, Db.applyAll_reflogIdSeq,
        Db.with_reflogIdSeq_self]
      have hv2 : db.applyAll (ps ++ [.renameRef b old new]) =
          { db with
            refs := renameRefRow b old new (db.refs.filter fun x => !(x.repo = b ∧ x.name = new)) } := by
        rw [Db.applyAll_append, hview]
        rfl
      apply allRuns_query_active
      · refine allRuns_query_failed ?_
        simp only [PGresult.error, bne_iff_ne, ne_eq, reduceCtorEq, not_false_eq_true, decide_True,
          Bool.true_or, if_true]
        exact rollbackWith_renameOutcome
      · intro _
        have hids : (db.applyAll (ps ++ [.renameRef b old new])).reflogIds b old =
            db.reflogIds b old := by
          rw [hv2]
          rfl
        have hv3 : db.applyAll (ps ++ [.renameRef b old new] ++
            [.renameReflog b (db.reflogIds b old) new]) = db.renamedRef b old new := by
          rw [Db.applyAll_append, hv2, Db.renamedRef, ← map_reflogIds hl]
          rfl
        have hsel : (db.renamedRef b old new).refsOf b new = [{ x with name := new }] := by
          rw [Db.renamedRef, Db.refsOf, refsOf_renameRefRow hne, ← Db.refsOf, hx]
          rfl
        simp only [eval_renameReflog, hids, Outcome.command, Outcome.result,
          Db.with_reflogIdSeq_self, Db.applyAll_reflogIdSeq]
        apply allRuns_query_active
        · exact rollbackWith_renameOutcome
        · intro _
          simp only [hv3, eval_selectRef, hsel, Outcome.select, Outcome.result,
            Db.with_reflogIdSeq_self, bne_self_eq_false, PGresult.ntuples, List.map_cons,
            List.map_nil, List.length_singleton, one_ne_zero, decide_False, Bool.or_false,
            Bool.false_eq_true, if_false, List.append_nil]
          have hxm := List.mem_filter.1 (hx ▸ List.mem_singleton_self x : x ∈ db.refsOf b old)
          simp only [decide_eq_true_eq] at hxm
          have hseq : (db.renamedRef b old new).reflogIdSeq = db.reflogIdSeq := rfl
          rw [hseq, Db.with_reflogIdSeq_self]
          rcases htarget : x.target with c | t
          · rw [refFromResult_text_oid none rfl (by simp [PGresult.cell, RefRow.cells, htarget,
              RefTarget.oidCell]) (hsz x hxm.1 c (by simp [htarget, RefTarget.oidValue]))]
            exact rollbackWith_renameOutcome
          · rw [refFromResult_symbolic]
            apply allRuns_commit_active
            · exact rollbackWith_renameOutcome
            · refine Prog.allRuns_done ⟨rfl, nofun, fun ref h => ⟨t, (Except.ok.inj h).symm, ?_, hne,
                hforce, hv3⟩⟩
              obtain ⟨x, name, target⟩ := x
              simp only at hxm htarget
              rw [hx, hxm.2.1, hxm.2.2, htarget]

/-- In an aborted transaction the tail rolls back. -/
theorem renameTail_failed {ps : List Change} {hs : List LockKey} :
  (renameTail b old new).AllRuns ⟨.failed, ps, hs⟩ db (RenameOutcome db b old new force)
  := by
  simp only [renameTail, Prog.bind_eq, pqExecParams_bind, Prog.exec_bind, Prog.done_bind]
  refine allRuns_query_failed ?_
  simp only [PGresult.error, bne_iff_ne, ne_eq, reduceCtorEq, not_false_eq_true, decide_True,
    if_true]
  exact rollbackWith_renameOutcome

/-- Every run of `pg_refdb_rename` from an idle connection ends as `RenameOutcome` says. -/
theorem pgRefdbRename_allRuns (hk : db.RefsKeyed) (hl : db.ReflogKeyed) (hsz : db.OidsSized) :
  (pgRefdbRename b old new force).AllRuns .idle db (RenameOutcome db b old new force)
  := by
  rw [pgRefdbRename_eq]
  simp only [Prog.bind_eq, pqExecParams_bind, pqExec_bind, Prog.exec_bind, Prog.done_bind,
    Prog.pure_eq, Prog.bind_done]
  apply allRuns_begin_idle
  · exact Prog.allRuns_done ⟨rfl, fun _ _ => rfl, nofun⟩
  · simp only [PGresult.control, if_true, bne_self_eq_false, Bool.false_eq_true, if_false]
    cases force with
    | true =>
      simp only [Bool.not_true, Bool.false_eq_true, if_false]
      apply allRuns_query_active
      · exact renameTail_failed
      · intro _
        obtain ⟨hst, hseq, hdel⟩ := eval_deleteRef db b new
        simp only [Db.applyAll_nil, List.nil_append, Db.with_reflogIdSeq_self, hseq]
        exact renameTail_allRuns hk hl hsz hdel nofun
    | false =>
      simp only [Bool.not_false, if_true]
      apply allRuns_query_active
      · exact rollbackWith_renameOutcome
      · intro _
        simp only [Query.eval, Outcome.select, Outcome.result, Db.applyAll_nil, List.nil_append,
          List.append_nil, bne_self_eq_false, Bool.false_eq_true, if_false, Db.with_reflogIdSeq_self,
          PGresult.ntuples, List.length_map]
        split_ifs with hpos
        · exact rollbackWith_renameOutcome
        · have hfree : db.refsOf b new = [] := List.eq_nil_of_length_eq_zero (by omega)
          exact renameTail_allRuns hk hl hsz (by rw [Db.applyAll_nil, filter_not_refsOf hfree])
            fun _ => hfree

/-- When the server fails no statement, the tail renames a symbolic ref. -/
theorem renameTail_run_ok {ps : List Change} {hs : List LockKey} {t : String}
    (hl : db.ReflogKeyed)
    (hview : db.applyAll ps = { db with refs := db.refs.filter fun x => !(x.repo = b ∧ x.name = new) })
    (hx : db.refsOf b old = [⟨b, old, .symbolic t⟩]) (hne : old ≠ new) :
  (renameTail b old new).run ⟨.active, ps, hs⟩ db [] =
    ⟨.ok ⟨new, .symbolic t⟩, .idle, db.renamedRef b old new, []⟩
  := by
  have hnew : (db.applyAll ps).refsOf b new = [] := by
    rw [hview, refsOf_without_new, if_pos rfl]
  have h1 : (db.applyAll ps).refsOf b old ≠ [] := by
    rw [hview, refsOf_without_new, if_neg hne, hx]
    exact List.cons_ne_nil _ _
  have hv2 : db.applyAll (ps ++ [.renameRef b old new]) =
      { db with
        refs := renameRefRow b old new (db.refs.filter fun x => !(x.repo = b ∧ x.name = new)) } := by
    rw [Db.applyAll_append, hview]
    rfl
  have hids : (db.applyAll (ps ++ [.renameRef b old new])).reflogIds b old = db.reflogIds b old := by
    rw [hv2]
    rfl
  have hv3 : db.applyAll (ps ++ [.renameRef b old new] ++
      [.renameReflog b (db.reflogIds b old) new]) = db.renamedRef b old new := by
    rw [Db.applyAll_append, hv2, Db.renamedRef, ← map_reflogIds hl]
    rfl
  have hsel : (db.renamedRef b old new).refsOf b new = [⟨b, new, .symbolic t⟩] := by
    rw [Db.renamedRef, Db.refsOf, refsOf_renameRefRow hne, ← Db.refsOf, hx]
    rfl
  simp only [renameTail, Prog.bind_eq, pqExecParams_bind, pqExec_bind, Prog.exec_bind,
    Prog.done_bind, Prog.pure_eq, Prog.bind_done, Prog.run_exec, Conn.exec, Conn.view,
    List.headD_nil, Bool.false_eq_true, false_or, eval_renameRef_one _ h1 hnew, Outcome.command,
    Outcome.result, reduceCtorEq, if_false, bne_self_eq_false, List.tail_nil, one_ne_zero,
    Db.applyAll_reflogIdSeq, Db.with_reflogIdSeq_self, eval_renameReflog, hids, eval_selectRef, hv3,
    hsel, Outcome.select, PGresult.ntuples, List.map_cons, List.map_nil, List.length_singleton,
    decide_False, Bool.or_false, List.append_nil, refFromResult_symbolic, PGresult.control,
    if_true]
  rw [show (db.renamedRef b old new).reflogIdSeq = db.reflogIdSeq from rfl,
    Db.with_reflogIdSeq_self, hv3]
  rfl

/-- When the server fails no statement, `pg_refdb_rename` renames a symbolic ref to any other name
that is free, or taken and forced. -/
theorem pgRefdbRename_run_ok {t : String} (hl : db.ReflogKeyed)
    (hx : db.refsOf b old = [⟨b, old, .symbolic t⟩]) (hne : old ≠ new)
    (hfree : force = true ∨ db.refsOf b new = []) :
  (pgRefdbRename b old new force).run .idle db [] =
    ⟨.ok ⟨new, .symbolic t⟩, .idle, db.renamedRef b old new, []⟩
  := by
  rw [pgRefdbRename_eq]
  cases force with
  | true =>
    obtain ⟨hst, hseq, hdel⟩ := eval_deleteRef db b new
    simp only [Prog.bind_eq, pqExecParams_bind, pqExec_bind, Prog.exec_bind, Prog.done_bind,
      Prog.pure_eq, Prog.bind_done, Prog.run_exec, Conn.exec, Conn.idle, List.headD_nil,
      Bool.false_eq_true, if_false, PGresult.control, if_true, bne_self_eq_false, Bool.not_true,
      List.tail_nil, Conn.view, Db.applyAll_nil, hst, reduceCtorEq, or_self, hseq,
      Db.with_reflogIdSeq_self, List.nil_append]
    exact renameTail_run_ok hl hdel hx hne
  | false =>
    have hfree := hfree.resolve_left nofun
    simp only [Prog.bind_eq, pqExecParams_bind, pqExec_bind, Prog.exec_bind, Prog.done_bind,
      Prog.pure_eq, Prog.bind_done, Prog.run_exec, Conn.exec, Conn.idle, List.headD_nil,
      Bool.false_eq_true, if_false, PGresult.control, if_true, bne_self_eq_false, Bool.not_false,
      List.tail_nil, Conn.view, Db.applyAll_nil, Query.eval, hfree, Outcome.select, Outcome.result,
      reduceCtorEq, or_self, List.map_nil, PGresult.ntuples, List.length_nil, lt_self_iff_false,
      Db.with_reflogIdSeq_self, List.append_nil]
    exact renameTail_run_ok hl (by rw [Db.applyAll_nil, filter_not_refsOf hfree]) hx hne

end Rename

/-! ### Renames -/

/-- `pg_refdb_rename` on an idle connection, whichever statements the server fails, on tables
whose refs and reflog keep their primary keys and whose direct refs hold 20-byte OIDs.  The
connection ends idle.  An error leaves the tables as they were.  A success renamed a symbolic
ref to another name, free unless forced, returns the symbolic ref under the new name, and leaves
the tables `Db.renamedRef`: the ref under the new name replaced, and the old name's reflog rows
under the new name.  So a direct ref is never renamed, nor is a ref renamed to its own name.
When the server fails no statement, a symbolic ref is renamed to any other name that is free, or
taken and forced. -/
theorem rename_all_or_nothing (db : Db) (hk : db.RefsKeyed) (hl : db.ReflogKeyed)
    (hsz : db.OidsSized) (b : RepoId) (old new : String) (force : Bool) (fails : List Bool) :
  let R := (pgRefdbRename b old new force).run .idle db fails
  R.conn = .idle ∧ (∀ e, R.val = .error e → R.db = db) ∧
    (∀ ref, R.val = .ok ref → ∃ t, ref = ⟨new, .symbolic t⟩ ∧
      db.refsOf b old = [⟨b, old, .symbolic t⟩] ∧ old ≠ new ∧
      (force = false → db.refsOf b new = []) ∧ R.db = db.renamedRef b old new) ∧
    (∀ t, fails = [] → db.refsOf b old = [⟨b, old, .symbolic t⟩] → old ≠ new →
      (force = true ∨ db.refsOf b new = []) →
      R.val = .ok ⟨new, .symbolic t⟩ ∧ R.db = db.renamedRef b old new)
  := by
  obtain ⟨hc, herr, hok⟩ := @pgRefdbRename_allRuns db b old new force hk hl hsz fails
  refine ⟨hc, herr, hok, fun t hf hx hne hfree => ?_⟩
  subst hf
  rw [pgRefdbRename_run_ok hl hx hne hfree]
  exact ⟨rfl, rfl⟩

/-- Repository 1 with the symbolic ref `refs/heads/s` to `refs/heads/main`. -/
def symbolicRefDb : Db := { Db.empty with refs := [⟨1, "refs/heads/s", .symbolic "refs/heads/main"⟩] }

theorem rename_all_or_nothing_of_s :
  symbolicRefDb.RefsKeyed ∧ symbolicRefDb.ReflogKeyed ∧ symbolicRefDb.OidsSized ∧
    let R := (pgRefdbRename 1 "refs/heads/s" "refs/heads/t" false).run .idle symbolicRefDb []
    R.conn = .idle ∧ (∀ e, R.val = .error e → R.db = symbolicRefDb) ∧
      (∀ ref, R.val = .ok ref → ∃ t, ref = ⟨"refs/heads/t", .symbolic t⟩ ∧
        symbolicRefDb.refsOf 1 "refs/heads/s" = [⟨1, "refs/heads/s", .symbolic t⟩] ∧
        "refs/heads/s" ≠ "refs/heads/t" ∧
        (false = false → symbolicRefDb.refsOf 1 "refs/heads/t" = []) ∧
        R.db = symbolicRefDb.renamedRef 1 "refs/heads/s" "refs/heads/t") ∧
      (∀ t, [] = ([] : List Bool) →
        symbolicRefDb.refsOf 1 "refs/heads/s" = [⟨1, "refs/heads/s", .symbolic t⟩] →
        "refs/heads/s" ≠ "refs/heads/t" →
        (false = true ∨ symbolicRefDb.refsOf 1 "refs/heads/t" = []) →
        R.val = .ok ⟨"refs/heads/t", .symbolic t⟩ ∧
          R.db = symbolicRefDb.renamedRef 1 "refs/heads/s" "refs/heads/t")
  := ⟨by decide, by decide, by decide,
    rename_all_or_nothing symbolicRefDb (by decide) (by decide) (by decide) 1 _ _ false []⟩

end Gitgres
