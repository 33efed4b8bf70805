import Gitgres.Sql.Eval

/-!
# Sessions, programs and interleavings

A client connection is a `Conn`: its transaction state, the changes of its open transaction
and the locks that transaction holds.  `Conn.exec` runs one statement on it against the shared
tables, under READ COMMITTED: a statement sees the committed tables with the session's own
changes applied, `BEGIN` inside an open transaction and `COMMIT` outside one only warn, a
failed statement aborts the transaction, every later statement but `COMMIT` and `ROLLBACK`
fails, and `COMMIT` of an aborted transaction rolls it back and still reports success.  The
argument `fail` says whether the server fails the statement (a lost connection, a serialization
or deadlock error, any error the statement's text does not itself raise).

A `Prog` is C code that talks to the server: it sends a statement and continues on the reply.
`Prog.run` runs a program alone on one connection, with a list of which statements fail.  A
`System` is the shared tables and several sessions, each with its connection and its remaining
program; `System.step` lets one session send its next statement, unless a lock that another
session holds makes the statement wait.
-/

namespace Gitgres

/-- The transaction state of a connection. -/
inductive TxState where
  | idle
  | active
  | failed
  deriving DecidableEq

/-- A client connection: its transaction state, the changes of its open transaction, and the
locks that transaction holds. -/
structure Conn where
  tx : TxState
  pending : List Change
  held : List LockKey
  deriving DecidableEq

/-- A connection with no open transaction. -/
def Conn.idle : Conn := ⟨.idle, [], []⟩

/-- The tables the session sees: the committed tables with its own changes applied. -/
def Conn.view (c : Conn) (db : Db) : Db := db.applyAll c.pending

/-- The reply to a transaction-control statement. -/
def PGresult.control (ok : Bool) : PGresult := ⟨if ok then .commandOk else .fatalError, [], 0, .text⟩

/-- One statement on a connection: the reply, the connection afterwards and the committed
tables afterwards. -/
def Conn.exec (c : Conn) (db : Db) (s : Stmt) (fmt : Format) (fail : Bool) :
    PGresult × Conn × Db :=
  match s with
  | .control .begin => match c.tx with
    | .idle => if fail then (.control false, c, db) else (.control true, { c with tx := .active }, db)
    | .active => (.control true, c, db)
    | .failed => (.control false, c, db)
  | .control .commit => match c.tx with
    | .idle => (.control true, c, db)
    | .active => if fail then (.control false, .idle, db) else (.control true, .idle, db.applyAll c.pending)
    | .failed => (.control true, .idle, db)
  | .control .rollback => (.control !fail, .idle, db)
  | .query q => match c.tx with
    | .failed => (.error fmt, c, db)
    | .idle =>
      let o := q.eval db
      if fail ∨ o.status = .fatalError then (.error fmt, c, db)
      else (o.result fmt, c, { db.applyAll o.changes with reflogIdSeq := o.nextId })
    | .active =>
      let o := q.eval (c.view db)
      if fail ∨ o.status = .fatalError then (.error fmt, { c with tx := .failed }, db)
      else (o.result fmt, { c with pending := c.pending ++ o.changes, held := c.held ++ o.locks },
        { db with reflogIdSeq := o.nextId })

/-- A query outside a transaction that the server does not fail commits at once, unless its
own text raises an error. -/
theorem Conn.idle_exec_query (db : Db) (q : Query) (fmt : Format) :
  Conn.idle.exec db (.query q) fmt false =
    if (q.eval db).status = .fatalError then (.error fmt, .idle, db)
    else ((q.eval db).result fmt, .idle,
      { db.applyAll (q.eval db).changes with reflogIdSeq := (q.eval db).nextId })
  := by
  by_cases h : (q.eval db).status = .fatalError <;> simp [Conn.exec, Conn.idle, h]

/-- Whether statement `s` of a session must wait for a lock that one of the connections
`others` holds. -/
def Conn.blocked (c : Conn) (db : Db) (others : List Conn) : Stmt → Bool
  | .control _ => false
  | .query q => c.tx != .failed && ((q.eval (c.view db)).locks.any fun k => others.any (k ∈ ·.held))

/-! ### Programs -/

/-- C code that talks to the server: it is done with a value, or it sends a statement with a
result format and continues on the reply. -/
inductive Prog (α : Type) where
  | done (a : α)
  | exec (s : Stmt) (fmt : Format) (k : PGresult → Prog α)

/-- Run one program, then the next on its value. -/
def Prog.bind {α β : Type} : Prog α → (α → Prog β) → Prog β
  | .done a, f => f a
  | .exec s fmt k, f => .exec s fmt fun res => (k res).bind f

instance : Monad Prog where
  pure := .done
  bind := Prog.bind

/-- `PQexec`: send a transaction statement and return its reply. -/
def pqExec (c : Control) : Prog PGresult := .exec (.control c) .text .done

/-- `PQexecParams`: send a query, asking for its result in format `fmt`, and return its reply. -/
def pqExecParams (q : Query) (fmt : Format) : Prog PGresult := .exec (.query q) fmt .done

/-- Where a program run alone ends: its value, its connection, the committed tables, and the
failures it did not use. -/
structure Ran (α : Type) where
  val : α
  conn : Conn
  db : Db
  fails : List Bool
  deriving DecidableEq

/-- Run a program alone on a connection; `fails` says, statement by statement, which fail. -/
def Prog.run {α : Type} : Prog α → Conn → Db → List Bool → Ran α
  | .done a, c, db, fails => ⟨a, c, db, fails⟩
  | .exec s fmt k, c, db, fails =>
    let (res, c', db') := c.exec db s fmt (fails.headD false)
    (k res).run c' db' fails.tail

@[simp]
theorem Prog.pure_eq {α : Type} (a : α) :
  (pure a : Prog α) = .done a
  := rfl

@[simp]
theorem Prog.bind_eq {α β : Type} (p : Prog α) (f : α → Prog β) :
  p >>= f = p.bind f
  := rfl

@[simp]
theorem Prog.done_bind {α β : Type} (a : α) (f : α → Prog β) :
  (Prog.done a).bind f = f a
  := rfl

@[simp]
theorem Prog.exec_bind {α β : Type} (s : Stmt) (fmt : Format) (k : PGresult → Prog α)
    (f : α → Prog β) :
  (Prog.exec s fmt k).bind f = .exec s fmt fun res => (k res).bind f
  := rfl

@[simp]
theorem pqExec_bind {β : Type} (c : Control) (f : PGresult → Prog β) :
  (pqExec c).bind f = .exec (.control c) .text f
  := rfl

@[simp]
theorem pqExecParams_bind {β : Type} (q : Query) (fmt : Format) (f : PGresult → Prog β) :
  (pqExecParams q fmt).bind f = .exec (.query q) fmt f
  := rfl

@[simp]
theorem Prog.run_done {α : Type} (a : α) (c : Conn) (db : Db) (fails : List Bool) :
  (Prog.done a).run c db fails = ⟨a, c, db, fails⟩
  := rfl

@[simp]
theorem Prog.run_exec {α : Type} (s : Stmt) (fmt : Format) (k : PGresult → Prog α) (c : Conn)
    (db : Db) (fails : List Bool) :
  (Prog.exec s fmt k).run c db fails =
    (k (c.exec db s fmt (fails.headD false)).1).run (c.exec db s fmt (fails.headD false)).2.1
      (c.exec db s fmt (fails.headD false)).2.2 fails.tail
  := rfl

/-- Running `p` and then `f` is running `p`, then `f` on its value from where `p` stopped. -/
theorem Prog.run_bind {α β : Type} (p : Prog α) (f : α → Prog β) (c : Conn) (db : Db)
    (fails : List Bool) :
  (p.bind f).run c db fails =
    let r := p.run c db fails
    (f r.val).run r.conn r.db r.fails
  := by
  induction p generalizing c db fails with
  | done a => rfl
  | exec s fmt k ih => exact ih _ _ _ _

/-- Every statement a program can send satisfies `P`, whatever the replies. -/
inductive Prog.Sends {α : Type} (P : Stmt → Prop) : Prog α → Prop
  | done (a : α) : Prog.Sends P (.done a)
  | exec {s : Stmt} {fmt : Format} {k : PGresult → Prog α} :
    P s → (∀ res, Prog.Sends P (k res)) → Prog.Sends P (.exec s fmt k)

@[simp]
theorem Prog.sends_done {α : Type} (P : Stmt → Prop) (a : α) :
  Prog.Sends P (.done a) ↔ True
  := iff_true_intro (.done a)

@[simp]
theorem Prog.sends_exec {α : Type} (P : Stmt → Prop) (s : Stmt) (fmt : Format)
    (k : PGresult → Prog α) :
  Prog.Sends P (.exec s fmt k) ↔ P s ∧ ∀ res, Prog.Sends P (k res)
  := ⟨fun | .exec hs hk => ⟨hs, hk⟩, fun ⟨hs, hk⟩ => .exec hs hk⟩

theorem Prog.Sends.bind {α β : Type} {P : Stmt → Prop} {p : Prog α} {f : α → Prog β}
    (hp : Prog.Sends P p) (hf : ∀ a, Prog.Sends P (f a)) :
  Prog.Sends P (p.bind f)
  := by
  induction hp with
  | done a => exact hf a
  | exec hs _ ih => exact .exec hs ih

@[simp]
theorem Prog.sends_ite {α : Type} (P : Stmt → Prop) (c : Prop) [Decidable c] (p q : Prog α) :
  Prog.Sends P (if c then p else q) ↔ (c → Prog.Sends P p) ∧ (¬c → Prog.Sends P q)
  := by
  split <;> simp [*]

theorem Prog.Sends.ite {α : Type} {P : Stmt → Prop} {c : Prop} [Decidable c] {p q : Prog α}
    (hp : Prog.Sends P p) (hq : Prog.Sends P q) :
  Prog.Sends P (if c then p else q)
  := by
  split
  exacts [hp, hq]

@[simp]
theorem Prog.ite_bind {α β : Type} (c : Prop) [Decidable c] (p q : Prog α) (f : α → Prog β) :
  (if c then p else q).bind f = if c then p.bind f else q.bind f
  := by
  split <;> rfl

/-- Every value a program can be done with satisfies `P`, whatever the replies. -/
inductive Prog.Returns {α : Type} (P : α → Prop) : Prog α → Prop
  | done {a : α} : P a → Prog.Returns P (.done a)
  | exec {s : Stmt} {fmt : Format} {k : PGresult → Prog α} :
    (∀ res, Prog.Returns P (k res)) → Prog.Returns P (.exec s fmt k)

@[simp]
theorem Prog.returns_done {α : Type} (P : α → Prop) (a : α) :
  Prog.Returns P (.done a) ↔ P a
  := ⟨fun | .done h => h, .done⟩

@[simp]
theorem Prog.returns_exec {α : Type} (P : α → Prop) (s : Stmt) (fmt : Format)
    (k : PGresult → Prog α) :
  Prog.Returns P (.exec s fmt k) ↔ ∀ res, Prog.Returns P (k res)
  := ⟨fun | .exec h => h, .exec⟩

theorem Prog.Returns.bind {α β : Type} {P : α → Prop} {Q : β → Prop} {p : Prog α}
    {f : α → Prog β} (hp : Prog.Returns P p) (hf : ∀ a, P a → Prog.Returns Q (f a)) :
  Prog.Returns Q (p.bind f)
  := by
  induction hp with
  | done ha => exact hf _ ha
  | exec _ ih => exact .exec ih

theorem Prog.Returns.mono {α : Type} {P Q : α → Prop} {p : Prog α} (hp : Prog.Returns P p)
    (h : ∀ a, P a → Q a) :
  Prog.Returns Q p
  := by
  induction hp with
  | done ha => exact .done (h _ ha)
  | exec _ ih => exact .exec ih

/-- A program followed by a continuation all of whose values satisfy `Q`. -/
theorem Prog.returns_bind_of {α β : Type} {Q : β → Prop} (p : Prog α) {f : α → Prog β}
    (hf : ∀ a, Prog.Returns Q (f a)) :
  Prog.Returns Q (p.bind f)
  := by
  induction p with
  | done a => exact hf a
  | exec _ _ _ ih => exact .exec ih

/-- Two continuations that agree on every value a program can be done with give the same
program. -/
theorem Prog.Returns.bind_congr {α β : Type} {P : α → Prop} {p : Prog α} {f g : α → Prog β}
    (hp : Prog.Returns P p) (h : ∀ a, P a → f a = g a) :
  p.bind f = p.bind g
  := by
  induction hp with
  | done ha => exact h _ ha
  | exec _ ih => simp only [Prog.bind, ih]

/-! ### Interleavings -/

/-- A session: its connection and what remains of its program. -/
structure Session (α : Type) where
  conn : Conn
  prog : Prog α

/-- The shared tables and the sessions. -/
structure System (α : Type) where
  db : Db
  sessions : List (Session α)

/-- The value a session's program is done with, if it is done. -/
def Session.result {α : Type} (s : Session α) : Option α :=
  match s.prog with
  | .done a => some a
  | .exec .. => none

/-- Session `i` sends its next statement, which fails when `fail` holds.  A statement that
does not fail has to wait while another session holds a lock it needs; the server may fail a
waiting statement (a deadlock or a timeout). -/
def System.step {α : Type} (sys : System α) (i : Nat) (fail : Bool) : Option (System α) :=
  match sys.sessions[i]? with
  | some ⟨c, .exec s fmt k⟩ =>
    if !fail && c.blocked sys.db ((sys.sessions.eraseIdx i).map (·.conn)) s then none
    else
      let (res, c', db') := c.exec sys.db s fmt fail
      some ⟨db', sys.sessions.set i ⟨c', k res⟩⟩
  | _ => none

/-- Run a schedule: each entry names the session that moves and whether its statement fails. -/
def System.run {α : Type} (sys : System α) : List (Nat × Bool) → Option (System α)
  | [] => some sys
  | (i, fail) :: rest => (sys.step i fail).bind fun sys' => sys'.run rest

/-- The values of the sessions' programs, for those that are done. -/
def System.results {α : Type} (sys : System α) : List (Option α) := sys.sessions.map (·.result)

end Gitgres
