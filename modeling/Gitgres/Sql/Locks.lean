import Gitgres.Sql.Session

/-!
# Locks across sessions

What the sessions of a `System` can do to each other's locks.  A connection gains locks only
by a query of its open transaction that the server does not fail, and it loses them only by
`COMMIT` or `ROLLBACK` (`Conn.mem_held_exec`, `Conn.held_subset_exec`).  A query that needs a
lock another connection holds waits, so in every state of every schedule no lock is held by
two connections (`System.run_exclusive`), and a session keeps its locks until its own
connection ends the transaction (`System.step_keeps_lock`).
-/

namespace Gitgres

/-- Whether a statement ends its connection's transaction: `COMMIT` or `ROLLBACK`. -/
def Stmt.endsTx : Stmt → Bool
  | .control .commit | .control .rollback => true
  | _ => false

/-- The statement a session sends next, if its program is not done. -/
def Session.next? {α : Type} (s : Session α) : Option Stmt :=
  match s.prog with
  | .exec st _ _ => some st
  | .done _ => none

/-- A lock a connection holds after a statement it held before, or the statement is a query
of its open transaction that the server did not fail, and the lock is one the query takes. -/
theorem Conn.mem_held_exec {c : Conn} {db : Db} {s : Stmt} {fmt : Format} {fail : Bool}
    {k : LockKey} (h : k ∈ (c.exec db s fmt fail).2.1.held) :
  k ∈ c.held ∨
    ∃ q, s = .query q ∧ fail = false ∧ c.tx = .active ∧ k ∈ (q.eval (c.view db)).locks
  := by
  rcases s with ⟨_ | _ | _⟩ | q <;> simp only [Conn.exec] at h
  · split at h <;> (try split at h) <;> simp_all
  · split at h <;> (try split at h) <;> simp_all [Conn.idle]
  · simp [Conn.idle] at h
  · split at h
    · exact .inl h
    · split at h <;> exact .inl h
    · split at h
      · exact .inl h
      · rename_i hact hok
        simp only [List.mem_append] at h
        rcases h with h | h
        · exact .inl h
        · exact .inr ⟨q, rfl, by simp_all, hact, h⟩

/-- Only `COMMIT` and `ROLLBACK` release locks. -/
theorem Conn.held_subset_exec {c : Conn} {db : Db} {s : Stmt} {fmt : Format} {fail : Bool}
    (hs : s.endsTx = false) :
  c.held ⊆ (c.exec db s fmt fail).2.1.held
  := by
  rcases s with ⟨_ | _ | _⟩ | q
  · simp only [Conn.exec]
    split <;> (try split) <;> simp
  · simp [Stmt.endsTx] at hs
  · simp [Stmt.endsTx] at hs
  · simp only [Conn.exec]
    split
    · exact List.Subset.refl _
    · split <;> simp
    · split
      · exact List.Subset.refl _
      · exact List.subset_append_left _ _

/-- A query leaves an open transaction open, or failed. -/
theorem Conn.exec_query_tx {c : Conn} {db : Db} {q : Query} {fmt : Format} {fail : Bool}
    (hc : c.tx ≠ .idle) :
  (c.exec db (.query q) fmt fail).2.1.tx ≠ .idle
  := by
  simp only [Conn.exec]
  split
  · exact hc
  · contradiction
  · split <;> simp [hc]

/-- A program that sends only queries leaves an open transaction open, or failed. -/
theorem Prog.run_tx_of_queries {α : Type} {p : Prog α} (hp : p.Sends fun s => ∃ q, s = .query q)
    {c : Conn} (hc : c.tx ≠ .idle) (db : Db) (fails : List Bool) :
  (p.run c db fails).conn.tx ≠ .idle
  := by
  induction hp generalizing c db fails with
  | done a => exact hc
  | exec hs _ ih =>
    obtain ⟨q, rfl⟩ := hs
    exact ih _ (Conn.exec_query_tx hc) _ _

/-- `COMMIT` or `ROLLBACK` on an open or failed transaction ends it, with all its locks. -/
theorem Conn.exec_endsTx {c : Conn} {db : Db} {s : Stmt} {fmt : Format} {fail : Bool}
    (hc : c.tx ≠ .idle) (hs : s.endsTx = true) :
  (c.exec db s fmt fail).2.1 = .idle
  := by
  rcases s with ⟨_ | _ | _⟩ | q
  · simp [Stmt.endsTx] at hs
  · simp only [Conn.exec]
    split
    · contradiction
    · split <;> rfl
    · rfl
  · rfl
  · simp [Stmt.endsTx] at hs

/-! ### Steps of a system -/

section Steps

variable {α : Type}

/-- What a step does: session `i` sends its next statement, which, unless the server fails it,
does not wait for another connection's lock; its connection, the tables and its program move
on, and every other session is left as it was. -/
theorem System.step_eq_some {sys sys' : System α} {i : Nat} {fail : Bool}
    (h : sys.step i fail = some sys') :
  ∃ c s fmt k, sys.sessions[i]? = some ⟨c, .exec s fmt k⟩ ∧
    (fail = false → c.blocked sys.db ((sys.sessions.eraseIdx i).map (·.conn)) s = false) ∧
    sys' = ⟨(c.exec sys.db s fmt fail).2.2,
      sys.sessions.set i ⟨(c.exec sys.db s fmt fail).2.1, k (c.exec sys.db s fmt fail).1⟩⟩
  := by
  unfold System.step at h
  split at h
  · rename_i c s fmt k hi
    split at h
    · cases h
    · refine ⟨c, s, fmt, k, hi, fun hf => by simp_all, (Option.some.inj h).symm⟩
  · cases h

/-- No lock is held by two connections. -/
def System.Exclusive (sys : System α) : Prop :=
  ∀ (i j : Nat) (a b : Session α), i ≠ j → sys.sessions[i]? = some a → sys.sessions[j]? = some b →
    ∀ k ∈ a.conn.held, k ∉ b.conn.held

/-- A system whose connections hold no lock. -/
theorem System.exclusive_of_idle {sys : System α} (h : ∀ s ∈ sys.sessions, s.conn.held = []) :
  sys.Exclusive
  := fun _ _ a _ _ ha _ k hk => by
  simp [h a (List.getElem?_mem ha)] at hk

/-- A step keeps locks exclusive: the locks the moving session gains are ones no other
connection holds, since otherwise it would wait. -/
theorem System.Exclusive.step {sys sys' : System α} {i : Nat} {fail : Bool} (hx : sys.Exclusive)
    (h : sys.step i fail = some sys') :
  sys'.Exclusive
  := by
  obtain ⟨c, s, fmt, k, hi, hfree, rfl⟩ := System.step_eq_some h
  -- the moving session's locks afterwards are held by no other session
  have hnew : ∀ j b, j ≠ i → sys.sessions[j]? = some b →
      ∀ l ∈ (c.exec sys.db s fmt fail).2.1.held, l ∉ b.conn.held := by
    intro j b hj hb l hl
    rcases Conn.mem_held_exec hl with hl | ⟨q, rfl, rfl, hact, hq⟩
    · exact hx i j _ b hj.symm hi hb l hl
    · have hnb := hfree rfl
      simp [Conn.blocked, hact] at hnb
      exact hnb l hq b (List.mem_eraseIdx_iff_getElem?.2 ⟨j, hj, hb⟩)
  intro i' j' a' b' hij ha hb l hl hl'
  rw [List.getElem?_set] at ha hb
  by_cases hi' : i = i'
  · subst hi'
    rw [if_pos rfl] at ha
    rw [if_neg hij] at hb
    split at ha <;> cases ha
    exact hnew j' b' (Ne.symm hij) hb l hl hl'
  · rw [if_neg hi'] at ha
    by_cases hj' : i = j'
    · subst hj'
      rw [if_pos rfl] at hb
      split at hb <;> cases hb
      exact hnew i' a' (Ne.symm hi') ha l hl' hl
    · rw [if_neg hj'] at hb
      exact hx i' j' a' b' hij ha hb l hl hl'

/-- In every state a schedule reaches from a system with exclusive locks, locks are exclusive. -/
theorem System.Exclusive.run {sys sys' : System α} {sched : List (Nat × Bool)}
    (hx : sys.Exclusive) (h : sys.run sched = some sys') :
  sys'.Exclusive
  := by
  induction sched generalizing sys with
  | nil => exact (Option.some.inj h) ▸ hx
  | cons e sched ih =>
    simp only [System.run, Option.bind_eq_some] at h
    obtain ⟨sys₁, h₁, h₂⟩ := h
    exact ih (hx.step h₁) h₂

/-- A session keeps a lock through every step but its own `COMMIT` or `ROLLBACK`. -/
theorem System.step_keeps_lock {sys sys' : System α} {i j : Nat} {fail : Bool} {a : Session α}
    {l : LockKey} (h : sys.step j fail = some sys') (ha : sys.sessions[i]? = some a)
    (hl : l ∈ a.conn.held) (hend : i = j → ∀ s ∈ a.next?, s.endsTx = false) :
  ∃ a', sys'.sessions[i]? = some a' ∧ l ∈ a'.conn.held
  := by
  obtain ⟨c, s, fmt, k, hj, -, rfl⟩ := System.step_eq_some h
  by_cases hij : j = i
  · subst hij
    obtain rfl := Option.some.inj (ha.symm.trans hj)
    obtain ⟨hlt, -⟩ := List.getElem?_eq_some_iff.1 hj
    exact ⟨_, List.getElem?_set_self hlt, Conn.held_subset_exec (hend rfl s rfl) hl⟩
  · exact ⟨a, by simp [List.getElem?_set, hij, ha], hl⟩

end Steps

end Gitgres
