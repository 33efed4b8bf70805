import Gitgres.Refdb.Write
import Gitgres.Sql.Locks

/-!
# Ref locks

`pgRefdbLock` takes `pg_advisory_xact_lock(hash_refname(repo, name))` inside a transaction it
opens with `BEGIN`.  The lock is the transaction's: it lasts until the connection sends
`COMMIT` or `ROLLBACK`, whichever call sends it, and `BEGIN` inside an open transaction only
warns, so every token taken on one connection shares that one transaction and the first
`pgRefdbUnlock` ends all of them.  The lock keeps out only other lockers: `pgRefdbWrite` and
`pgRefdbDel` take no advisory lock and do not wait for one.
-/

namespace Gitgres

/-- A statement other than `pg_advisory_xact_lock`. -/
def NoAdvisory (s : Stmt) : Prop := ∀ k, s ≠ .query (.advisoryXactLock k)

theorem pgRefdbWrite_sends (b : RepoId) (ref : GitReference) (force : Bool)
    (who : Option Signature) (message : Option String) (old : Option Oid)
    (oldTarget : Option String) :
  (pgRefdbWrite b ref force who message old oldTarget).Sends NoAdvisory
  := by
  cases old <;> cases oldTarget <;> cases who <;>
    simp [pgRefdbWrite, rollbackWith, writeReflogEntry, NoAdvisory]

theorem pgRefdbDel_sends (b : RepoId) (refName : String) (oldId : Option Oid)
    (oldTarget : Option String) :
  (pgRefdbDel b refName oldId oldTarget).Sends NoAdvisory
  := by
  cases oldId <;> cases oldTarget <;> simp [pgRefdbDel, rollbackWith, NoAdvisory]

/-! ### Taking and ending a lock -/

theorem Conn.exec_begin_ok {c : Conn} {db : Db} {fmt : Format} {fail : Bool}
    (h : (c.exec db (.control .begin) fmt fail).1.status = .commandOk) :
  (c.exec db (.control .begin) fmt fail).2.1.tx = .active
  := by
  simp only [Conn.exec] at h ⊢
  split at h <;> (try split at h) <;> simp_all [PGresult.control]

theorem Conn.exec_advisory_ok {c : Conn} {db : Db} {key : Int} {fmt : Format} {fail : Bool}
    (hc : c.tx = .active)
    (h : (c.exec db (.query (.advisoryXactLock key)) fmt fail).1.status = .tuplesOk) :
  .advisory key ∈ (c.exec db (.query (.advisoryXactLock key)) fmt fail).2.1.held
  := by
  simp only [Conn.exec, hc] at h ⊢
  split at h <;> simp_all [PGresult.error, Query.eval]

/-- When `pgRefdbLock` returns a token, its connection holds the token's advisory lock. -/
theorem pgRefdbLock_holds (b : RepoId) (name : String) (c : Conn) (db : Db) (fails : List Bool)
    {lock : RefLock} (h : ((pgRefdbLock b name).run c db fails).val = .ok lock) :
  lock.lockKey = hashRefname b name ∧
    .advisory (hashRefname b name) ∈ ((pgRefdbLock b name).run c db fails).conn.held
  := by
  simp only [pgRefdbLock, Prog.bind_eq, Prog.pure_eq, Prog.done_bind, pqExec_bind,
    pqExecParams_bind, Prog.run_exec] at h ⊢
  split at h
  · simp at h
  · rename_i hb
    rw [if_neg hb]
    simp only [Prog.run_exec] at h ⊢
    split at h
    · simp [rollbackWith] at h
    · rename_i ha
      rw [if_neg ha]
      simp only [bne_iff_ne, ne_eq, Decidable.not_not] at hb ha
      simp only [Prog.run_done, Except.ok.injEq] at h
      exact ⟨h ▸ rfl, Conn.exec_advisory_ok (Conn.exec_begin_ok hb) ha⟩

theorem unlockChanges_queries (b : RepoId) (success : Int) (updateReflog : Bool)
    (ref : GitReference) (sig : Option Signature) (message : Option String) :
  (unlockChanges b success updateReflog ref sig message).Sends fun s => ∃ q, s = .query q
  := by
  cases sig <;> simp [unlockChanges, writeReflogEntry]

/-- `pgRefdbUnlock` ends its connection's transaction, and with it every lock the connection
holds, whichever token it is given. -/
theorem pgRefdbUnlock_ends (b : RepoId) (lock : RefLock) (success : Int) (updateReflog : Bool)
    (ref : GitReference) (sig : Option Signature) (message : Option String) {c : Conn}
    (hc : c.tx ≠ .idle) (db : Db) (fails : List Bool) :
  ((pgRefdbUnlock b lock success updateReflog ref sig message).run c db fails).conn = .idle
  := by
  have htx := Prog.run_tx_of_queries
    (unlockChanges_queries b success updateReflog ref sig message) hc db fails
  simp only [pgRefdbUnlock, Prog.bind_eq, Prog.run_bind, pqExec_bind, Prog.run_exec]
  exact Conn.exec_endsTx htx (by split <;> rfl)

/-- The advisory lock of `pgRefdbLock` excludes other lockers for the rest of its connection's
transaction, and nothing else.  In every state of every schedule from connections that hold
no lock, no lock is held by two connections; a session keeps a lock through every step but its
own `COMMIT` or `ROLLBACK`; a token returned by `pgRefdbLock` comes with its advisory lock
held; `pgRefdbUnlock` on an open transaction ends it, with the locks of every token on the
connection; and `pgRefdbWrite` and `pgRefdbDel` take no advisory lock. -/
theorem ref_locks_exclusive_per_transaction :
    (∀ {α : Type} (sys sys' : System α) (sched : List (Nat × Bool)),
      (∀ s ∈ sys.sessions, s.conn.held = []) → sys.run sched = some sys' → sys'.Exclusive) ∧
    (∀ {α : Type} (sys sys' : System α) (i j : Nat) (fail : Bool) (a : Session α) (l : LockKey),
      sys.step j fail = some sys' → sys.sessions[i]? = some a → l ∈ a.conn.held →
      (i = j → ∀ s ∈ a.next?, s.endsTx = false) →
      ∃ a', sys'.sessions[i]? = some a' ∧ l ∈ a'.conn.held) ∧
    (∀ (b : RepoId) (name : String) (c : Conn) (db : Db) (fails : List Bool) (lock : RefLock),
      ((pgRefdbLock b name).run c db fails).val = .ok lock →
      .advisory (hashRefname b name) ∈ ((pgRefdbLock b name).run c db fails).conn.held) ∧
    (∀ (b : RepoId) (lock : RefLock) (success : Int) (updateReflog : Bool) (ref : GitReference)
      (sig : Option Signature) (message : Option String) (c : Conn) (db : Db)
      (fails : List Bool), c.tx ≠ .idle →
      ((pgRefdbUnlock b lock success updateReflog ref sig message).run c db fails).conn = .idle) ∧
    (∀ (b : RepoId) (ref : GitReference) (force : Bool) (who : Option Signature)
      (message : Option String) (old : Option Oid) (oldTarget : Option String),
      (pgRefdbWrite b ref force who message old oldTarget).Sends NoAdvisory) ∧
    (∀ (b : RepoId) (refName : String) (oldId : Option Oid) (oldTarget : Option String),
      (pgRefdbDel b refName oldId oldTarget).Sends NoAdvisory)
  := ⟨fun _ _ _ hidle hrun => (System.exclusive_of_idle hidle).run hrun,
    fun _ _ _ _ _ _ _ h ha hl hend => System.step_keeps_lock h ha hl hend,
    fun b name c db fails _ h => (pgRefdbLock_holds b name c db fails h).2,
    fun b lock success updateReflog ref sig message _ db fails hc =>
      pgRefdbUnlock_ends b lock success updateReflog ref sig message hc db fails,
    pgRefdbWrite_sends, pgRefdbDel_sends⟩

/-! ### What the lock does not exclude -/

/-- `refs/heads/x` at `aa..aa` in repository 1. -/
def lockedRefDb : Db := { Db.empty with refs := [⟨1, "refs/heads/x", .oid (Oid.ofByte 0xaa).id⟩] }

/-- The reference `name` at `bb..bb`. -/
def refAtB (name : String) : GitReference := ⟨name, .direct (Oid.ofByte 0xbb)⟩

/-- Lock `name`, then unlock it with `success = 0`, discarding. -/
def lockThenDiscard (name : String) : Prog Int := do
  match ← pgRefdbLock 1 name with
  | .ok lock => pgRefdbUnlock 1 lock 0 false (refAtB name) none none
  | .error e => pure e

/-- Session 0 locks `refs/heads/x` and discards; session 1 force-writes it to `bb..bb`. -/
def lockAndWrite : System Int :=
  ⟨lockedRefDb, [⟨.idle, lockThenDiscard "refs/heads/x"⟩,
    ⟨.idle, pgRefdbWrite 1 (refAtB "refs/heads/x") true none none none none⟩]⟩

/-- One session takes tokens on `refs/heads/a` and `refs/heads/b`, then discards the first. -/
def twoTokens : Prog Unit := do
  let a ← pgRefdbLock 1 "refs/heads/a"
  let _ ← pgRefdbLock 1 "refs/heads/b"
  match a with
  | .ok lock => let _ ← pgRefdbUnlock 1 lock 0 false (refAtB "refs/heads/a") none none
  | .error _ => pure ()

/-- While session 0 holds the lock of `refs/heads/x` and has not begun its unlock, session 1
moves the ref to `bb..bb`, and the discard leaves it there.  On one connection, discarding the
first of two tokens releases the second token's lock. -/
theorem ref_lock_keeps_out_only_lockers :
    (lockAndWrite.run [(0, false), (0, false), (1, false), (1, false), (1, false)]).map
        (fun sys => (sys.sessions.map (·.conn.held), sys.db.refs)) =
      some ([[.advisory (hashRefname 1 "refs/heads/x")], []],
        [⟨1, "refs/heads/x", .oid (Oid.ofByte 0xbb).id⟩]) ∧
    (lockAndWrite.run [(0, false), (0, false), (1, false), (1, false), (1, false), (0, false)]).map
        (fun sys => (sys.results, sys.db.refs)) =
      some ([some gitOk, some gitOk], [⟨1, "refs/heads/x", .oid (Oid.ofByte 0xbb).id⟩]) ∧
    ((do let _ ← pgRefdbLock 1 "refs/heads/a"; pgRefdbLock 1 "refs/heads/b" : Prog _).run .idle
        Db.empty []).conn.held =
      [.advisory (hashRefname 1 "refs/heads/a"), .advisory (hashRefname 1 "refs/heads/b")] ∧
    (twoTokens.run .idle Db.empty []).conn = .idle
  := by decide

end Gitgres
