import Gitgres.Sql.Session

/-!
# Every run of a program

`p.AllRuns c db Q` says that whichever statements the server fails, the run of `p` from the
connection `c` and the committed tables `db` ends where `Q` holds of the value, the connection
and the committed tables.  It is the weakest precondition of `Prog.run` over every list of
failures, with one rule per way a program goes on: `done`, a bind, and a statement as
`Conn.exec` treats it (`BEGIN` on an idle connection, a query outside a transaction or in an open
or failed one, `COMMIT` of an open transaction, and `ROLLBACK`).  A proof about a program then
follows the program's own statements and branches, and never unfolds `Prog.run`.
-/

namespace Gitgres

section AllRuns

variable {α β : Type} {Q Q' : α → Conn → Db → Prop} {c : Conn} {db : Db}

/-- Whichever statements the server fails, the run of `p` from `c` and `db` ends where `Q`
holds. -/
def Prog.AllRuns (p : Prog α) (c : Conn) (db : Db) (Q : α → Conn → Db → Prop) : Prop :=
  ∀ fails, Q (p.run c db fails).val (p.run c db fails).conn (p.run c db fails).db

@[simp]
theorem Prog.bind_done (p : Prog α) :
  p.bind Prog.done = p
  := by
  induction p with
  | done => rfl
  | exec s fmt k ih => simp only [Prog.exec_bind, ih]

@[simp]
theorem Db.with_reflogIdSeq_self (db : Db) :
  { db with reflogIdSeq := db.reflogIdSeq } = db
  := rfl

theorem Prog.allRuns_done {a : α} (h : Q a c db) :
  (Prog.done a).AllRuns c db Q
  := fun _ => h

theorem Prog.allRuns_pure {a : α} (h : Q a c db) :
  (pure a : Prog α).AllRuns c db Q
  := fun _ => h

/-- A statement: every reply the server may give, failed or not, leads to a run where `Q`
holds. -/
theorem Prog.allRuns_exec {s : Stmt} {fmt : Format} {k : PGresult → Prog α}
    (h : ∀ fail, (k (c.exec db s fmt fail).1).AllRuns (c.exec db s fmt fail).2.1
      (c.exec db s fmt fail).2.2 Q) :
  (Prog.exec s fmt k).AllRuns c db Q
  := fun fails => h (fails.headD false) fails.tail

theorem Prog.AllRuns.bind {p : Prog α} {f : α → Prog β} {Q : β → Conn → Db → Prop}
    (h : p.AllRuns c db fun a c' db' => (f a).AllRuns c' db' Q) :
  (p >>= f).AllRuns c db Q
  := fun fails => by
  simp only [Prog.bind_eq, Prog.run_bind]
  exact h fails _

theorem Prog.AllRuns.mono {p : Prog α} (h : p.AllRuns c db Q)
    (hQ : ∀ a c' db', Q a c' db' → Q' a c' db') :
  p.AllRuns c db Q'
  := fun fails => hQ _ _ _ (h fails)

end AllRuns

/-! ### Statements -/

section Statements

variable {α : Type} {Q : α → Conn → Db → Prop} {db : Db}

/-- `BEGIN` on an idle connection opens a transaction, unless the server fails it. -/
theorem allRuns_begin_idle {k : PGresult → Prog α}
    (hfail : (k (.control false)).AllRuns .idle db Q)
    (hok : (k (.control true)).AllRuns ⟨.active, [], []⟩ db Q) :
  (Prog.exec (.control .begin) .text k).AllRuns .idle db Q
  := Prog.allRuns_exec fun fail => by cases fail <;> assumption

/-- A query outside a transaction commits at once, unless it raises or the server fails it. -/
theorem allRuns_query_idle {q : Query} {fmt : Format} {k : PGresult → Prog α}
    (hfail : (k (.error fmt)).AllRuns .idle db Q)
    (hok : (q.eval db).status ≠ .fatalError → (k ((q.eval db).result fmt)).AllRuns .idle
      { db.applyAll (q.eval db).changes with reflogIdSeq := (q.eval db).nextId } Q) :
  (Prog.exec (.query q) fmt k).AllRuns .idle db Q
  := Prog.allRuns_exec fun fail => by
  by_cases h : (q.eval db).status = .fatalError <;> cases fail <;>
    simp only [Conn.exec, Conn.idle, h, or_true, or_false, if_true, if_false] <;> first
    | exact hfail | exact hok h

/-- A query in an open transaction sees the transaction's own changes; it adds its changes and
locks to the transaction, and fails the transaction when it raises or the server fails it.  The
reflog id sequence moves at once, outside the transaction. -/
theorem allRuns_query_active {ps : List Change} {hs : List LockKey} {q : Query} {fmt : Format}
    {k : PGresult → Prog α}
    (hfail : (k (.error fmt)).AllRuns ⟨.failed, ps, hs⟩ db Q)
    (hok : (q.eval (db.applyAll ps)).status ≠ .fatalError →
      (k ((q.eval (db.applyAll ps)).result fmt)).AllRuns
        ⟨.active, ps ++ (q.eval (db.applyAll ps)).changes, hs ++ (q.eval (db.applyAll ps)).locks⟩
        { db with reflogIdSeq := (q.eval (db.applyAll ps)).nextId } Q) :
  (Prog.exec (.query q) fmt k).AllRuns ⟨.active, ps, hs⟩ db Q
  := Prog.allRuns_exec fun fail => by
  by_cases h : (q.eval (db.applyAll ps)).status = .fatalError <;> cases fail <;>
    simp only [Conn.exec, Conn.view, h, or_true, or_false, if_true, if_false] <;> first
    | exact hfail | exact hok h

/-- `COMMIT` of an open transaction applies its changes, unless the server fails it; either
way the connection is idle afterwards. -/
theorem allRuns_commit_active {ps : List Change} {hs : List LockKey} {k : PGresult → Prog α}
    (hfail : (k (.control false)).AllRuns .idle db Q)
    (hok : (k (.control true)).AllRuns .idle (db.applyAll ps) Q) :
  (Prog.exec (.control .commit) .text k).AllRuns ⟨.active, ps, hs⟩ db Q
  := Prog.allRuns_exec fun fail => by cases fail <;> assumption

/-- In an aborted transaction a query fails and changes nothing. -/
theorem allRuns_query_failed {ps : List Change} {hs : List LockKey} {q : Query} {fmt : Format}
    {k : PGresult → Prog α} (h : (k (.error fmt)).AllRuns ⟨.failed, ps, hs⟩ db Q) :
  (Prog.exec (.query q) fmt k).AllRuns ⟨.failed, ps, hs⟩ db Q
  := Prog.allRuns_exec fun _ => h

/-- `COMMIT` of an aborted transaction rolls it back and reports success. -/
theorem allRuns_commit_failed {ps : List Change} {hs : List LockKey} {k : PGresult → Prog α}
    (h : (k (.control true)).AllRuns .idle db Q) :
  (Prog.exec (.control .commit) .text k).AllRuns ⟨.failed, ps, hs⟩ db Q
  := Prog.allRuns_exec fun _ => h

/-- `ROLLBACK` leaves the connection idle and the committed tables as they are. -/
theorem allRuns_rollback {c : Conn} {k : PGresult → Prog α}
    (h : ∀ ok, (k (.control ok)).AllRuns .idle db Q) :
  (Prog.exec (.control .rollback) .text k).AllRuns c db Q
  := Prog.allRuns_exec fun _ => h _

end Statements

end Gitgres
