import Gitgres.Refdb.WriteRuns
import Mathlib.Data.List.Chain

/-!
# What the reflog records

`write_reflog_entry` records the value it is given: `pg_refdb_write` gives it the caller's
expected value `old` and the new target, and `pg_refdb_unlock` gives it no old value at all.  So
a row records the ref's value before the update only where a write checked that value: a write
without force.  Over any run of writes in which every write of a name is unforced and signed, the
rows of the name stay a chain (`ReflogChain`): their ids increase, each row's old value is the new
value of the row before it, and the last row's new value is what the ref holds now, as the reflog
records it (`RefTarget.loggedValue`).
-/

namespace Gitgres

/-- The reflog rows of `(r, name)`, in storage order. -/
def Db.reflogOf (db : Db) (r : RepoId) (name : String) : List ReflogRow :=
  db.reflog.filter fun x => x.repo = r ∧ x.refName = name

/-- The value a reflog row records for a ref target: the OID of a direct ref unless it is all
zero, and NULL for a symbolic ref. -/
def RefTarget.loggedValue : RefTarget → Option Bytes
  | .oid b => if b.all (· == 0) then none else some b
  | .symbolic _ => none

/-- The value a reflog row records for the ref `(r, name)` as it is now: NULL when it is absent. -/
def Db.loggedValue (db : Db) (r : RepoId) (name : String) : Option Bytes :=
  (db.refsOf r name).head?.bind (·.target.loggedValue)

/-- The reflog of `(r, name)` is a chain: in storage order the ids increase and each row's old
value is the new value of the row before it, and the last row's new value is the ref's value
now. -/
def ReflogChain (db : Db) (r : RepoId) (name : String) : Prop :=
  (db.reflogOf r name).Chain' (fun x y => x.id < y.id ∧ y.oldOid = x.newOid) ∧
    ∀ x ∈ (db.reflogOf r name).getLast?, x.newOid = db.loggedValue r name

/-- Every reflog row has an id below the next value of the sequence. -/
def Db.IdsBelowSeq (db : Db) : Prop := ∀ x ∈ db.reflog, x.id < db.reflogIdSeq

/-- One call of `pg_refdb_write` with its arguments, and the failures the server gives it. -/
structure WriteCall where
  repo : RepoId
  ref : GitReference
  force : Bool
  who : Option Signature
  message : Option String
  old : Option Oid
  oldTarget : Option String
  fails : List Bool

/-- The committed tables after the call, made on an idle connection. -/
def WriteCall.run (w : WriteCall) (db : Db) : Db :=
  ((pgRefdbWrite w.repo w.ref w.force w.who w.message w.old w.oldTarget).run .idle db w.fails).db

/-- The committed tables after the calls, one after another. -/
def runRefWrites (db : Db) (ws : List WriteCall) : Db := ws.foldl (fun db w => w.run db) db

/-- The lock and the unlock that writes `ref` and its reflog row, on one connection. -/
def lockThenWrite (b : RepoId) (ref : GitReference) (sig : Option Signature)
    (message : Option String) : Prog Int := do
  match ← pgRefdbLock b ref.name with
  | .ok lock => pgRefdbUnlock b lock 1 true ref sig message
  | .error e => pure e

/-! ### Recorded values -/

theorem reflogOid_some (o : Oid) :
  reflogOid (some o) = RefTarget.loggedValue (.oid o.id)
  := rfl

theorem reflogOid_target (ref : GitReference) :
  reflogOid ref.target = ref.refTarget.loggedValue
  := by
  rcases ref with ⟨_, _ | _⟩ <;> rfl

/-- A write that passed its check records the value the ref held before it. -/
theorem reflogOid_of_writeExpected {db : Db} (hk : db.RefsKeyed) {r : RepoId} {name : String}
    {old : Option Oid} {oldTarget : Option String}
    (hexp : WriteExpected (db.refsOf r name) old oldTarget) :
  reflogOid old = db.loggedValue r name
  := by
  obtain ⟨hold, htarget, hnone⟩ := hexp
  rcases hk.refsOf_cases r name with hrows | ⟨x, hrows⟩
  · cases old with
    | some o => simpa [hrows] using hold o rfl
    | none => simp [reflogOid, Db.loggedValue, hrows]
  · rw [Db.loggedValue, hrows]
    cases old with
    | some o =>
      obtain ⟨y, hy, hyo⟩ := hold o rfl
      rw [hrows, List.mem_singleton] at hy
      simp [← hy, hyo, reflogOid_some]
    | none =>
      cases oldTarget with
      | some t =>
        obtain ⟨y, hy, hyt⟩ := htarget t rfl
        rw [hrows, List.mem_singleton] at hy
        simp [← hy, hyt, reflogOid, RefTarget.loggedValue]
      | none => simp [hrows] at hnone

/-! ### One write -/

section Step

variable {db : Db} {r : RepoId} {name : String}

theorem reflogOf_append (rows : List ReflogRow) :
  ({ db with reflog := db.reflog ++ rows } : Db).reflogOf r name =
    db.reflogOf r name ++ rows.filter fun x => x.repo = r ∧ x.refName = name
  := List.filter_append _ _

/-- The rows a write appends belong to the name it writes. -/
theorem filter_writeReflogRows (id : Nat) (b : RepoId) (ref : GitReference) (old : Option Oid)
    (who : Option Signature) (message : Option String) :
  (writeReflogRows id b ref old who message).filter (fun x => x.repo = r ∧ x.refName = name) =
    if b = r ∧ ref.name = name then writeReflogRows id b ref old who message else []
  := by
  cases who <;> split <;> simp_all [writeReflogRows]

theorem mem_writeReflogRows {id : Nat} {b : RepoId} {ref : GitReference} {old : Option Oid}
    {who : Option Signature} {message : Option String} {x : ReflogRow}
    (h : x ∈ writeReflogRows id b ref old who message) :
  x.id = id ∧ (writeReflogRows id b ref old who message).length = 1
  := by
  cases who <;> simp_all [writeReflogRows]

/-- The chain of a name depends on the refs and the reflog alone. -/
theorem ReflogChain.of_tables {db' : Db} (hrefs : db'.refs = db.refs)
    (hlog : db'.reflog = db.reflog) (h : ReflogChain db r name) :
  ReflogChain db' r name
  := by
  simpa only [ReflogChain, Db.reflogOf, Db.loggedValue, Db.refsOf, hrefs, hlog] using h

/-- A row appended after the chain keeps it a chain when its id is above the others, its old
value is the value the last row recorded, and its new value is the ref's value afterwards. -/
theorem ReflogChain.append_row {db' : Db} {row : ReflogRow} (h : ReflogChain db r name)
    (hlog : db'.reflogOf r name = db.reflogOf r name ++ [row])
    (hid : ∀ x ∈ db.reflogOf r name, x.id < row.id) (hold : row.oldOid = db.loggedValue r name)
    (hnew : row.newOid = db'.loggedValue r name) :
  ReflogChain db' r name
  := by
  rw [ReflogChain, hlog]
  refine ⟨List.chain'_append.2 ⟨h.1, List.chain'_singleton _, fun x hx y hy => ?_⟩, fun x hx => ?_⟩
  · rw [List.head?_cons, Option.mem_some_iff] at hy
    subst hy
    exact ⟨hid x (List.mem_of_mem_getLast? hx), by rw [h.2 x hx, hold]⟩
  · simp only [List.getLast?_append, List.getLast?_singleton, Option.or_some, Option.mem_def,
      Option.some.injEq] at hx
    rw [← hx, hnew]

/-- A call of `pg_refdb_write` keeps the primary key of `refs`, the ids below the sequence, and
the chain of every name it may touch: one whose writes are unforced and signed. -/
theorem WriteCall.run_preserves (w : WriteCall) (hk : db.RefsKeyed) (hids : db.IdsBelowSeq)
    (hchain : ReflogChain db r name)
    (hw : w.repo = r → w.ref.name = name → w.force = false ∧ w.who.isSome) :
  (w.run db).RefsKeyed ∧ (w.run db).IdsBelowSeq ∧ ReflogChain (w.run db) r name
  := by
  obtain ⟨-, hseq, hok, hfail⟩ := @pgRefdbWrite_allRuns db w.repo w.ref w.force w.who w.message
    w.old w.oldTarget hk w.fails
  by_cases hv : ((pgRefdbWrite w.repo w.ref w.force w.who w.message w.old w.oldTarget).run .idle
      db w.fails).val = gitOk
  · obtain ⟨hexp, hrefs, hlog, -, hseq'⟩ := hok hv
    have hrefsOf : ∀ r' name', (w.run db).refsOf r' name' =
        ((Change.putRef ⟨w.repo, w.ref.name, w.ref.refTarget⟩).apply db).refsOf r' name' :=
      fun _ _ => by simp only [WriteCall.run, Db.refsOf, hrefs, Change.apply]
    have hlogOf : (w.run db).reflogOf r name = db.reflogOf r name ++
        if w.repo = r ∧ w.ref.name = name then
          writeReflogRows db.reflogIdSeq w.repo w.ref w.old w.who w.message
        else [] := by
      simp only [Db.reflogOf, WriteCall.run, hlog, List.filter_append, filter_writeReflogRows]
    refine ⟨?_, fun x hx => ?_, ?_⟩
    · simpa [Db.RefsKeyed, WriteCall.run, hrefs] using hk.putRef ⟨w.repo, w.ref.name, w.ref.refTarget⟩
    · rw [WriteCall.run, hlog] at hx
      rcases List.mem_append.1 hx with hx | hx
      · exact (hids x hx).trans_le (le_trans (Nat.le_add_right _ _) hseq')
      · obtain ⟨hid, hlen⟩ := mem_writeReflogRows hx
        rw [hlen] at hseq'
        rw [hid]
        exact hseq'
    · by_cases hsame : w.repo = r ∧ w.ref.name = name
      · obtain ⟨hforce, hsig⟩ := hw hsame.1 hsame.2
        obtain ⟨sig, hsig⟩ := Option.isSome_iff_exists.1 hsig
        obtain ⟨rfl, rfl⟩ := hsame
        rw [if_pos ⟨rfl, rfl⟩, hsig] at hlogOf
        refine hchain.append_row hlogOf (fun x hx => hids x (List.mem_filter.1 hx).1)
          (reflogOid_of_writeExpected hk (hexp hforce)) ?_
        rw [Db.loggedValue, hrefsOf, refsOf_putRef db hk, if_pos ⟨rfl, rfl⟩]
        simp [reflogOid_target]
      · rw [ReflogChain, hlogOf, if_neg hsame, List.append_nil]
        refine ⟨hchain.1, fun x hx => ?_⟩
        rw [hchain.2 x hx, Db.loggedValue, Db.loggedValue, hrefsOf, refsOf_putRef db hk,
          if_neg hsame]
  · obtain ⟨hrefs, hlog, -⟩ := hfail hv
    refine ⟨?_, fun x hx => ?_, hchain.of_tables hrefs hlog⟩
    · simpa [Db.RefsKeyed, WriteCall.run, hrefs] using hk
    · rw [WriteCall.run, hlog] at hx
      exact (hids x hx).trans_le hseq

/-- A run of writes keeps the primary key, the ids below the sequence, and the chain of a name
whose writes are all unforced and signed. -/
theorem runRefWrites_preserves (ws : List WriteCall) (hk : db.RefsKeyed) (hids : db.IdsBelowSeq)
    (hchain : ReflogChain db r name)
    (hws : ∀ w ∈ ws, w.repo = r → w.ref.name = name → w.force = false ∧ w.who.isSome) :
  (runRefWrites db ws).RefsKeyed ∧ (runRefWrites db ws).IdsBelowSeq ∧
    ReflogChain (runRefWrites db ws) r name
  := by
  induction ws generalizing db with
  | nil => exact ⟨hk, hids, hchain⟩
  | cons w ws ih =>
    obtain ⟨hk', hids', hchain'⟩ := w.run_preserves hk hids hchain (hws w (List.mem_cons_self _ _))
    exact ih hk' hids' hchain' fun w' hw' => hws w' (List.mem_cons_of_mem _ hw')

end Step

/-! ### The unlock -/

theorem gitError_ne_gitOk :
  gitError ≠ gitOk
  := by decide

theorem lockThenWrite_allRuns (db : Db) (b : RepoId) (ref : GitReference)
    (sig : Option Signature) (message : Option String) :
  (lockThenWrite b ref sig message).AllRuns .idle db fun _ _ db' =>
    db'.reflog = db.reflog ∨
      db'.reflog = db.reflog ++ writeReflogRows db.reflogIdSeq b ref none sig message
  := by
  simp only [lockThenWrite, pgRefdbLock, pgRefdbUnlock, unlockChanges, rollbackWith, Prog.bind_eq,
    pqExecParams_bind, pqExec_bind, Prog.exec_bind, Prog.done_bind, Prog.pure_eq, Prog.bind_done]
  apply allRuns_begin_idle
  · exact Prog.allRuns_done (.inl rfl)
  · simp only [PGresult.control, if_true, bne_self_eq_false, Bool.false_eq_true, if_false,
      Prog.exec_bind]
    apply allRuns_query_active
    · exact allRuns_rollback fun _ => Prog.allRuns_done (.inl rfl)
    · intro _
      simp [Query.eval, Outcome.select, Outcome.result, Prog.ite_bind]
      apply allRuns_query_active
      · simp only [PGresult.error, reduceCtorEq, if_false, gitError_ne_gitOk]
        exact allRuns_rollback fun _ => Prog.allRuns_done (.inl rfl)
      · intro _
        simp only [Query.eval, Outcome.command, Outcome.result, if_true]
        cases sig with
        | none =>
          apply allRuns_commit_active
          · exact Prog.allRuns_done (.inl rfl)
          · exact Prog.allRuns_done (.inl (by simp [Change.apply]))
        | some w =>
          simp only [writeReflogEntry, Option.isSome_some, if_true, Prog.bind_eq,
            pqExecParams_bind, Prog.exec_bind, Prog.pure_eq, Prog.done_bind]
          apply allRuns_query_active
          · simp only [PGresult.error, bne_iff_ne, ne_eq, reduceCtorEq, not_false_eq_true,
              decide_True, if_true, Prog.done_bind, gitError_ne_gitOk, if_false]
            exact allRuns_rollback fun _ => Prog.allRuns_done (.inl rfl)
          · intro hst
            simp only [Query.eval, pgUtf8Verify_of_insertReflog hst, bne_self_eq_false,
              Bool.false_eq_true, if_false, Prog.done_bind, if_true]
            apply allRuns_commit_active
            · exact Prog.allRuns_done (.inl rfl)
            · exact Prog.allRuns_done (.inr (by simp [Change.apply, writeReflogRows]))

/-! ### Over every run -/

/-- What the reflog records.  A call of `pg_refdb_write` on an idle connection leaves the reflog
as it was or appends the rows `writeReflogRows`, whose old value is the caller's expected value;
the lock and unlock pair that writes `ref` leaves it as it was or appends the same row with no
old value; and over any run of writes in which every write of `(r, name)` is unforced and
signed, the chain of `(r, name)` holds at the end when it held at the start. -/
theorem reflog_records_checked_values :
  (∀ (db : Db) (b : RepoId) (ref : GitReference) (force : Bool) (who : Option Signature)
      (message : Option String) (old : Option Oid) (oldTarget : Option String) (fails : List Bool),
      db.RefsKeyed →
      ((pgRefdbWrite b ref force who message old oldTarget).run .idle db fails).db.reflog =
          db.reflog ∨
        ((pgRefdbWrite b ref force who message old oldTarget).run .idle db fails).db.reflog =
          db.reflog ++ writeReflogRows db.reflogIdSeq b ref old who message) ∧
    (∀ (db : Db) (b : RepoId) (ref : GitReference) (sig : Option Signature)
      (message : Option String) (fails : List Bool),
      ((lockThenWrite b ref sig message).run .idle db fails).db.reflog = db.reflog ∨
        ((lockThenWrite b ref sig message).run .idle db fails).db.reflog =
          db.reflog ++ writeReflogRows db.reflogIdSeq b ref none sig message) ∧
    (∀ (db : Db) (r : RepoId) (name : String) (ws : List WriteCall),
      db.RefsKeyed → db.IdsBelowSeq → ReflogChain db r name →
      (∀ w ∈ ws, w.repo = r → w.ref.name = name → w.force = false ∧ w.who.isSome) →
      ReflogChain (runRefWrites db ws) r name)
  := by
  refine ⟨fun db b ref force who message old oldTarget fails hk => ?_,
    fun db b ref sig message fails => lockThenWrite_allRuns db b ref sig message fails,
    fun db r name ws hk hids hchain hws => (runRefWrites_preserves ws hk hids hchain hws).2.2⟩
  obtain ⟨-, -, hok, hfail⟩ :=
    @pgRefdbWrite_allRuns db b ref force who message old oldTarget hk fails
  by_cases hv : ((pgRefdbWrite b ref force who message old oldTarget).run .idle db fails).val = gitOk
  · exact .inr (hok hv).2.2.1
  · exact .inl (hfail hv).2.1

/-- The signature of the repository's tests. -/
def testUser : Signature := ⟨"Test User", "test@test.com", 1234567890, 0⟩

/-- A forced write of `refs/heads/x`, which holds `bb..bb`, logs no old value. -/
theorem forced_write_logs_no_old_value :
  let db : Db := { Db.empty with refs := [⟨1, "refs/heads/x", .oid (Oid.ofByte 0xbb).id⟩] }
  db.loggedValue 1 "refs/heads/x" = some (Oid.ofByte 0xbb).id ∧
    ((pgRefdbWrite 1 ⟨"refs/heads/x", .direct (Oid.ofByte 0xcc)⟩ true (some testUser) none none
        none).run .idle db []).db.reflog =
      [⟨1, 1, "refs/heads/x", none, some (Oid.ofByte 0xcc).id, committerText testUser,
        1234567890, tzText testUser, none⟩]
  := by decide

/-- `refs/heads/x` created with a signature and deleted by `git_ref_update` leaves its reflog row
under a name with no ref, and a later creation of `refs/heads/x` finds that row before its own. -/
theorem deleted_ref_keeps_reflog :
  ∃ created : Db,
    created = ((pgRefdbWrite 1 ⟨"refs/heads/x", .direct (Oid.ofByte 0xaa)⟩ false (some testUser)
      none none none).run .idle Db.empty []).db ∧
    gitRefUpdate created 1 "refs/heads/x" none none false =
      some (true, { created with refs := [] }) ∧
    (({ created with refs := [] } : Db).reflogOf 1 "refs/heads/x").map ReflogRow.newOid =
      [some (Oid.ofByte 0xaa).id] ∧
    (((pgRefdbWrite 1 ⟨"refs/heads/x", .direct (Oid.ofByte 0xbb)⟩ false (some testUser) none none
        none).run .idle { created with refs := [] } []).db.reflogOf 1 "refs/heads/x").map
        ReflogRow.newOid = [some (Oid.ofByte 0xaa).id, some (Oid.ofByte 0xbb).id]
  := ⟨_, rfl, by decide⟩

end Gitgres
