import Gitgres.Sql.Session

/-!
# Statements scoped to one repository

Every query the code sends names its repository in `$1` (`Query.repo?`), except
`pg_advisory_xact_lock`, which touches no row.  A query for `r` reads only the rows of `r` and
the next value of the reflog id sequence, and changes only rows of `r`: its outcome is the same
on two databases that agree on those (`Query.eval_congr`), and its changes leave every other
repository's rows as they were (`Change.apply_slice_of_ne`).  Lifted to connections and to
whole programs that send only such statements (`Prog.Sends (Stmt.ScopedTo r)`), this gives the
two halves of isolation between repositories: a program for `r` leaves the rows of every other
repository as they were (`Prog.run_slice_of_ne`), and its value and its effect on the rows of
`r` depend only on the rows of `r` and the sequence (`Prog.run_congr`).
-/

namespace Gitgres

/-- The repository whose rows a query reads and writes: its `repo_id` parameter.
`pg_advisory_xact_lock` reads and writes no row. -/
def Query.repo? : Query → Option RepoId
  | .selectObject r _ | .selectObjectHeader r _ | .selectObjectPrefix r _ _
  | .selectOidPrefix r _ _ | .insertObject r _ _ _ _ | .selectObjectExists r _ | .selectOids r
  | .selectRefExists r _ | .selectRef r _ | .selectRefs r _ | .selectRefForUpdate r _
  | .upsertRef r _ _ | .insertRef r _ _ | .updateRefOid r _ _ | .deleteRef r _
  | .renameRef r _ _ | .insertReflog r .. | .renameReflog r _ _ | .deleteReflog r _
  | .selectReflogExists r _ | .selectRefsHex r | .upsertRefHex r _ _
  | .insertRefSymbolic r _ _ => some r
  | .advisoryXactLock _ => none

/-- A statement that touches no row outside repository `r`. -/
def Stmt.ScopedTo (r : RepoId) : Stmt → Prop
  | .control _ => True
  | .query q => q.repo? = none ∨ q.repo? = some r

/-- Two databases that agree on the rows of repository `r` and on the next reflog id. -/
structure Db.AgreeOn (r : RepoId) (v w : Db) : Prop where
  slice_eq : v.slice r = w.slice r
  seq_eq : v.reflogIdSeq = w.reflogIdSeq

theorem filter_repo_and {α : Type} (repo : α → RepoId) {l₁ l₂ : List α} {r : RepoId}
    (h : l₁.filter (repo · = r) = l₂.filter (repo · = r)) (p : α → Prop) [DecidablePred p] :
  l₁.filter (fun x => repo x = r ∧ p x) = l₂.filter (fun x => repo x = r ∧ p x)
  := by
  have e : ∀ l : List α, l.filter (fun x => repo x = r ∧ p x) = (l.filter (repo · = r)).filter p := by
    intro l
    rw [List.filter_filter]
    congr 1
    funext x
    simp [and_comm]
  rw [e, e, h]

namespace Db.AgreeOn

variable {r : RepoId} {v w : Db}

theorem objects (h : v.AgreeOn r w) : v.objects.filter (·.repo = r) = w.objects.filter (·.repo = r)
  := congrArg Prod.fst h.slice_eq

theorem refs (h : v.AgreeOn r w) : v.refs.filter (·.repo = r) = w.refs.filter (·.repo = r)
  := congrArg (·.2.1) h.slice_eq

theorem reflog (h : v.AgreeOn r w) : v.reflog.filter (·.repo = r) = w.reflog.filter (·.repo = r)
  := congrArg (·.2.2) h.slice_eq

end Db.AgreeOn

/-- A query for `r` does the same on two databases that agree on `r`'s rows and the
sequence. -/
theorem Query.eval_congr {q : Query} {r : RepoId} (hq : q.repo? = none ∨ q.repo? = some r)
    {v w : Db} (h : v.AgreeOn r w) :
  q.eval v = q.eval w
  := by
  have ho := filter_repo_and ObjectRow.repo h.objects
  have hr := filter_repo_and RefRow.repo h.refs
  have hl := filter_repo_and ReflogRow.repo h.reflog
  cases q <;> simp only [Query.repo?, Option.some.injEq, reduceCtorEq, false_or] at hq <;>
    (try subst hq)
  case selectRefs like =>
    rcases like with _ | p
    · simp only [Query.eval, Outcome.select, h.seq_eq, h.refs]
    · simp only [Query.eval]
      split <;> simp only [Outcome.select, Outcome.error, h.seq_eq, hr]
  all_goals simp only [Query.eval, Db.objectsOf, Db.objectsPrefixed, Db.refsOf, Db.reflogIds,
    Outcome.select, Outcome.command, Outcome.error, h.seq_eq, ho, hr, hl, h.objects, h.refs]

/-! ### Changes -/

section Lists

variable {α : Type} (repo : α → RepoId) (r : RepoId)

theorem filter_repo_map {f : α → α} (hf : ∀ x, repo (f x) = repo x) (l : List α) :
  (l.map f).filter (repo · = r) = (l.filter (repo · = r)).map f
  := by
  rw [List.filter_map]
  exact congrArg _ (List.filter_congr fun x _ => by simp [hf])

theorem filter_repo_map_of_fix {f : α → α} (hf : ∀ x, repo (f x) = repo x)
    (hfix : ∀ x, repo x = r → f x = x) (l : List α) :
  (l.map f).filter (repo · = r) = l.filter (repo · = r)
  := by
  rw [filter_repo_map repo r hf]
  exact (List.map_congr_left fun x hx => hfix x (by simpa using (List.mem_filter.1 hx).2)).trans
    (List.map_id _)

theorem filter_repo_filter (q : α → Bool) (l : List α) :
  (l.filter q).filter (repo · = r) = (l.filter (repo · = r)).filter q
  := by
  simp only [List.filter_filter, Bool.and_comm]

theorem filter_repo_filter_of_keep {q : α → Bool} (hq : ∀ x, repo x = r → q x = true)
    (l : List α) :
  (l.filter q).filter (repo · = r) = l.filter (repo · = r)
  := by
  rw [filter_repo_filter]
  exact List.filter_eq_self.2 fun x hx => hq x (by simpa using (List.mem_filter.1 hx).2)

end Lists

theorem filter_upsertRef_of_ne {row : RefRow} {r : RepoId} (h : row.repo ≠ r) (l : List RefRow) :
  (upsertRef row l).filter (·.repo = r) = l.filter (·.repo = r)
  := by
  induction l with
  | nil => simp [upsertRef, h]
  | cons x xs ih =>
    simp only [upsertRef]
    split
    · rename_i hx
      simp [List.filter_cons, h, hx.1]
    · simp [List.filter_cons, ih]

theorem filter_upsertRef (row : RefRow) (l : List RefRow) :
  (upsertRef row l).filter (·.repo = row.repo) = upsertRef row (l.filter (·.repo = row.repo))
  := by
  induction l with
  | nil => simp [upsertRef]
  | cons x xs ih =>
    simp only [upsertRef]
    split
    · rename_i hx
      simp [List.filter_cons, hx.1, upsertRef, hx]
    · rename_i hx
      by_cases hr : x.repo = row.repo
      · have hn : ¬x.name = row.name := fun hn => hx ⟨hr, hn⟩
        simp [List.filter_cons, hr, ih, upsertRef, hn]
      · simp [List.filter_cons, hr, ih]

/-- A change leaves the rows of every other repository as they were. -/
theorem Change.apply_slice_of_ne {ch : Change} {r : RepoId} (hc : ch.repo ≠ r) (db : Db) :
  (ch.apply db).slice r = db.slice r
  := by
  cases ch <;> simp only [Change.repo] at hc <;>
    simp only [Change.apply, Db.slice, Prod.mk.injEq, and_true, true_and]
  · simp [hc]
  · exact filter_upsertRef_of_ne hc _
  · exact filter_repo_filter_of_keep RefRow.repo r (fun x hx => by simp [hx, hc.symm]) _
  · exact filter_repo_map_of_fix RefRow.repo r (fun x => by split <;> rfl)
      (fun x hx => by simp [hx, hc.symm]) _
  · simp [hc]
  · exact filter_repo_filter_of_keep ReflogRow.repo r (fun x hx => by simp [hx, hc.symm]) _
  · exact filter_repo_map_of_fix ReflogRow.repo r (fun x => by split <;> rfl)
      (fun x hx => by simp [hx, hc.symm]) _

/-- A change of `r`'s rows does the same to `r`'s rows of two databases that agree on them. -/
theorem Change.apply_slice_congr {ch : Change} {v w : Db} (h : v.slice ch.repo = w.slice ch.repo) :
  (ch.apply v).slice ch.repo = (ch.apply w).slice ch.repo
  := by
  simp only [Db.slice, Prod.mk.injEq] at h
  obtain ⟨ho, hr, hl⟩ := h
  cases ch <;> simp only [Change.repo] at ho hr hl <;>
    simp only [Change.apply, Change.repo, Db.slice, Prod.mk.injEq, ho, hr, hl, and_true, true_and]
  · simp [ho]
  · rw [filter_upsertRef, filter_upsertRef, hr]
  · rw [filter_repo_filter, filter_repo_filter, hr]
  · rw [renameRefRow, renameRefRow, filter_repo_map RefRow.repo _ (fun x => by split <;> rfl),
      filter_repo_map RefRow.repo _ (fun x => by split <;> rfl), hr]
  · simp [hl]
  · rw [filter_repo_filter, filter_repo_filter, hl]
  · rw [filter_repo_map ReflogRow.repo _ (fun x => by split <;> rfl),
      filter_repo_map ReflogRow.repo _ (fun x => by split <;> rfl), hl]

theorem Db.applyAll_slice_of_ne {cs : List Change} {r : RepoId} (hc : ∀ ch ∈ cs, ch.repo ≠ r)
    (db : Db) :
  (db.applyAll cs).slice r = db.slice r
  := by
  induction cs generalizing db with
  | nil => rfl
  | cons ch cs ih =>
    rw [Db.applyAll_cons, ih (fun c hc' => hc c (List.mem_cons_of_mem _ hc')),
      Change.apply_slice_of_ne (hc ch (List.mem_cons_self _ _))]

theorem Db.AgreeOn.applyAll {cs : List Change} {r : RepoId} (hc : ∀ ch ∈ cs, ch.repo = r)
    {v w : Db} (h : v.AgreeOn r w) :
  (v.applyAll cs).AgreeOn r (w.applyAll cs)
  := by
  induction cs generalizing v w with
  | nil => exact h
  | cons ch cs ih =>
    have hr := hc ch (List.mem_cons_self _ _)
    have hs := @Change.apply_slice_congr ch v w (hr ▸ h.slice_eq)
    rw [hr] at hs
    exact ih (fun c hc' => hc c (List.mem_cons_of_mem _ hc')) ⟨hs, by simp [h.seq_eq]⟩

/-- The changes of a query for `r` are changes of `r`'s rows. -/
theorem Query.eval_changes_repo {q : Query} {r : RepoId} (hq : q.repo? = none ∨ q.repo? = some r)
    (v : Db) :
  ∀ ch ∈ (q.eval v).changes, ch.repo = r
  := by
  cases q <;> simp only [Query.repo?, Option.some.injEq, reduceCtorEq, false_or] at hq <;>
    (try subst hq)
  case selectRefs like =>
    rcases like with _ | p <;> simp only [Query.eval] <;> (repeat' split) <;>
      simp only [Outcome.select, Outcome.error, List.not_mem_nil, false_imp_iff, implies_true]
  all_goals (simp only [Query.eval]; (repeat' split) <;>
    simp only [Outcome.select, Outcome.command, Outcome.error, List.mem_cons, List.not_mem_nil,
      or_false, forall_eq, Change.repo, false_imp_iff, implies_true])

/-! ### Connections and programs -/

/-- A connection whose open transaction has changed only rows of `r`. -/
def Conn.ScopedTo (r : RepoId) (c : Conn) : Prop := ∀ ch ∈ c.pending, ch.repo = r

section Exec

variable {r : RepoId} {c : Conn} {s : Stmt} (fmt : Format) (fail : Bool)

/-- A statement for `r` keeps a connection's open transaction to changes of `r`. -/
theorem Conn.exec_scopedTo (hs : s.ScopedTo r) (hc : c.ScopedTo r) (v : Db) :
  (c.exec v s fmt fail).2.1.ScopedTo r
  := by
  rcases s with ⟨_ | _ | _⟩ | q <;> simp only [Conn.exec]
  · split <;> (try split) <;> exact hc
  · split <;> (try split) <;> first | exact hc | exact fun _ h => nomatch h
  · exact fun _ h => nomatch h
  · split
    · exact hc
    · split <;> exact hc
    · split
      · exact hc
      · intro ch hch
        rcases List.mem_append.1 hch with h | h
        exacts [hc ch h, Query.eval_changes_repo hs _ ch h]

/-- A statement for `r` leaves the rows of every other repository as they were. -/
theorem Conn.exec_slice_of_ne (hs : s.ScopedTo r) (hc : c.ScopedTo r) {r' : RepoId} (hr : r' ≠ r)
    (v : Db) :
  (c.exec v s fmt fail).2.2.slice r' = v.slice r'
  := by
  have hne : ∀ cs : List Change, (∀ ch ∈ cs, ch.repo = r) → ∀ ch ∈ cs, ch.repo ≠ r' :=
    fun cs h ch hch => (h ch hch).symm ▸ hr.symm
  rcases s with ⟨_ | _ | _⟩ | q <;> simp only [Conn.exec]
  · split <;> (try split) <;> rfl
  · split
    · rfl
    · split
      · rfl
      · exact Db.applyAll_slice_of_ne (hne _ hc) v
    · rfl
  · split
    · rfl
    · split
      · rfl
      · exact Db.applyAll_slice_of_ne (hne _ (Query.eval_changes_repo hs v)) v
    · split <;> rfl

/-- A statement for `r` on two databases that agree on `r`'s rows and the sequence gives the
same reply and connection, and databases that still agree. -/
theorem Conn.exec_congr (hs : s.ScopedTo r) (hc : c.ScopedTo r) {v w : Db} (h : v.AgreeOn r w) :
  (c.exec v s fmt fail).1 = (c.exec w s fmt fail).1 ∧
    (c.exec v s fmt fail).2.1 = (c.exec w s fmt fail).2.1 ∧
    (c.exec v s fmt fail).2.2.AgreeOn r (c.exec w s fmt fail).2.2
  := by
  rcases s with ⟨_ | _ | _⟩ | q
  · simp only [Conn.exec]
    split <;> (try split) <;> exact ⟨rfl, rfl, h⟩
  · simp only [Conn.exec]
    split
    · exact ⟨rfl, rfl, h⟩
    · split
      · exact ⟨rfl, rfl, h⟩
      · exact ⟨rfl, rfl, h.applyAll hc⟩
    · exact ⟨rfl, rfl, h⟩
  · exact ⟨rfl, rfl, h⟩
  · have he : q.eval v = q.eval w := Query.eval_congr hs h
    have hv : q.eval (c.view v) = q.eval (c.view w) := Query.eval_congr hs (h.applyAll hc)
    rcases hct : c.tx with _ | _ | _ <;> simp only [Conn.exec, hct, he, hv]
    · split
      · exact ⟨rfl, rfl, h⟩
      · exact ⟨rfl, rfl, (h.applyAll (Query.eval_changes_repo hs w)).slice_eq, rfl⟩
    · split
      · exact ⟨rfl, rfl, h⟩
      · exact ⟨rfl, rfl, h.slice_eq, rfl⟩
    · simpa using h

end Exec

section Run

variable {α : Type} {r : RepoId} {p : Prog α}

/-- A program for `r` leaves the rows of every other repository as they were. -/
theorem Prog.run_slice_of_ne (hp : p.Sends (Stmt.ScopedTo r)) {c : Conn} (hc : c.ScopedTo r)
    {r' : RepoId} (hr : r' ≠ r) (v : Db) (fails : List Bool) :
  (p.run c v fails).db.slice r' = v.slice r'
  := by
  induction hp generalizing c v fails with
  | done a => rfl
  | exec hs _ ih =>
    rw [Prog.run_exec, ih _ (Conn.exec_scopedTo _ _ hs hc v), Conn.exec_slice_of_ne _ _ hs hc hr]

/-- A program for `r` on two databases that agree on `r`'s rows and the sequence returns the
same value, on the same connection, and leaves databases that still agree. -/
theorem Prog.run_congr (hp : p.Sends (Stmt.ScopedTo r)) {c : Conn} (hc : c.ScopedTo r)
    {v w : Db} (h : v.AgreeOn r w) (fails : List Bool) :
  (p.run c v fails).val = (p.run c w fails).val ∧ (p.run c v fails).conn = (p.run c w fails).conn ∧
    (p.run c v fails).db.AgreeOn r (p.run c w fails).db
  := by
  induction hp generalizing c v w fails with
  | done a => exact ⟨rfl, rfl, h⟩
  | @exec s fmt k hs _ ih =>
    obtain ⟨h₁, h₂, h₃⟩ := Conn.exec_congr fmt (fails.headD false) hs hc h
    simp only [Prog.run_exec, h₁, h₂]
    exact ih _ (h₂ ▸ Conn.exec_scopedTo fmt _ hs hc v) h₃ _

end Run

end Gitgres
