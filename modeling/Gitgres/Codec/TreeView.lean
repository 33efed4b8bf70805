import Gitgres.Codec.LsTree
import Gitgres.Isolation
import Gitgres.Odb.Writes

/-!
# The materialized view of tree entries

`tree_entries_view` is `SELECT o.repo_id, o.oid AS tree_oid, e.mode, e.name, e.entry_oid FROM
objects o, LATERAL git_tree_entries(o.content) e WHERE o.type = 2`, one view over the objects of
every repository.  `REFRESH MATERIALIZED VIEW` runs the query again over the whole table: it
calls `git_tree_entries` on every tree object, and the first error aborts the refresh.

* A refresh fails exactly when some tree object, of any repository, holds a mode or a name that
  is not valid UTF-8, and the error is then that of `convert_from`.  When it succeeds, its rows
  are the entries of every tree object, each tagged with the object's repository and OID.
* So the view is shared state that the repositories are not isolated from: a `pg_odb_write` of
  one such tree object for repository `r` returns `0` and leaves the rows of every other
  repository as they were, yet from then on the refresh fails for all of them.  Git keeps a
  name as the bytes the file system gives it, so a tree with a name in Latin-1 is such an
  object.
-/

namespace Gitgres

/-- A row of `tree_entries_view`: `repo_id`, `tree_oid`, and the mode, the name and the entry
OID of one row of `git_tree_entries`. -/
structure TreeViewRow where
  repo : RepoId
  treeOid : Bytes
  entry : TreeRow
  deriving DecidableEq

/-- The query of `tree_entries_view` over the rows of `objects` in turn, as a refresh runs it:
an error of `git_tree_entries` on any tree object aborts it. -/
def treeEntriesView : List ObjectRow → Except String (List TreeViewRow)
  | [] => .ok []
  | o :: os =>
    if o.type = 2 then do
      let es ← gitTreeEntries o.content
      let rest ← treeEntriesView os
      pure (es.map (TreeViewRow.mk o.repo o.oid) ++ rest)
    else treeEntriesView os

/-! ### One row of `objects` -/

section Steps

variable {o : ObjectRow} {os : List ObjectRow}

theorem treeEntriesView_cons_tree (h : o.type = 2) :
  treeEntriesView (o :: os) = gitTreeEntries o.content >>= fun es => treeEntriesView os >>=
    fun rest => pure (es.map (TreeViewRow.mk o.repo o.oid) ++ rest)
  := if_pos h

theorem treeEntriesView_cons_other (h : o.type ≠ 2) :
  treeEntriesView (o :: os) = treeEntriesView os
  := if_neg h

/-- A tree object whose content `git_tree_entries` rejects aborts the refresh where it stands. -/
theorem treeEntriesView_cons_rejected (h : o.type = 2)
    (hbad : ∀ es, gitTreeEntries o.content ≠ .ok es) :
  treeEntriesView (o :: os) = .error invalidUtf8
  := by
  rw [treeEntriesView_cons_tree h]
  cases hp : gitTreeEntries o.content with
  | error msg => rw [gitTreeEntries_error _ _ hp]; rfl
  | ok es => exact absurd hp (hbad es)

end Steps

/-! ### Every refresh -/

/-- A refresh fails only with the error of `convert_from`, and only at a tree object whose
content `git_tree_entries` rejects. -/
theorem treeEntriesView_error {msg : String} :
  ∀ {objs : List ObjectRow}, treeEntriesView objs = .error msg →
    msg = invalidUtf8 ∧ ∃ o ∈ objs, o.type = 2 ∧ ∀ es, gitTreeEntries o.content ≠ .ok es
  | [], h => by cases h
  | o :: os, h => by
    by_cases h2 : o.type = 2
    · rw [treeEntriesView_cons_tree h2] at h
      rcases except_bind_eq_error.mp h with hp | ⟨es, -, h⟩
      · exact ⟨gitTreeEntries_error _ _ hp, o, .head _, h2, fun es he => by rw [hp] at he; cases he⟩
      rcases except_bind_eq_error.mp h with h | ⟨_, -, h⟩
      · obtain ⟨hmsg, x, hx, hrest⟩ := treeEntriesView_error h
        exact ⟨hmsg, x, .tail _ hx, hrest⟩
      · cases h
    · rw [treeEntriesView_cons_other h2] at h
      obtain ⟨hmsg, x, hx, hrest⟩ := treeEntriesView_error h
      exact ⟨hmsg, x, .tail _ hx, hrest⟩

/-- One tree object that `git_tree_entries` rejects, anywhere in the table, makes the refresh
fail. -/
theorem treeEntriesView_of_rejected {o : ObjectRow} (h2 : o.type = 2)
    (hbad : ∀ es, gitTreeEntries o.content ≠ .ok es) :
  ∀ {objs : List ObjectRow}, o ∈ objs → treeEntriesView objs = .error invalidUtf8
  | _ :: _, .head _ => treeEntriesView_cons_rejected h2 hbad
  | x :: _, .tail _ ho => by
    have hrest := treeEntriesView_of_rejected h2 hbad ho
    by_cases hx : x.type = 2
    · rw [treeEntriesView_cons_tree hx]
      cases hp : gitTreeEntries x.content with
      | error msg => rw [gitTreeEntries_error _ _ hp]; rfl
      | ok es => show treeEntriesView _ >>= _ = _; rw [hrest]; rfl
    · rwa [treeEntriesView_cons_other hx]

/-- The rows of a refresh that succeeds: every entry of every tree object, tagged with the
object's repository and OID. -/
theorem mem_treeEntriesView {x : TreeViewRow} :
  ∀ {objs : List ObjectRow} {rows : List TreeViewRow}, treeEntriesView objs = .ok rows →
    (x ∈ rows ↔ ∃ o ∈ objs, o.type = 2 ∧
      ∃ es, gitTreeEntries o.content = .ok es ∧ ∃ e ∈ es, x = ⟨o.repo, o.oid, e⟩)
  | [], _, h => by
    cases h
    simp
  | o :: os, rows, h => by
    by_cases h2 : o.type = 2
    · rw [treeEntriesView_cons_tree h2] at h
      obtain ⟨es, hp, h⟩ := except_bind_eq_ok.mp h
      obtain ⟨rest, hr, h⟩ := except_bind_eq_ok.mp h
      cases h
      simp only [List.mem_append, List.mem_map, mem_treeEntriesView hr, List.mem_cons,
        exists_eq_or_imp, h2, true_and, hp, Except.ok.injEq, exists_eq_left']
      exact or_congr (by simp only [eq_comm]) Iff.rfl
    · rw [treeEntriesView_cons_other h2] at h
      simp only [mem_treeEntriesView h, List.mem_cons, exists_eq_or_imp, h2, false_and, false_or]

/-- `REFRESH MATERIALIZED VIEW tree_entries_view` over any objects table: it fails, with the error
of `convert_from`, exactly when some tree object of any repository holds content that
`git_tree_entries` rejects; when it succeeds, its rows are the entries of every tree object, each
tagged with the object's repository and OID. -/
theorem tree_view_refresh (objs : List ObjectRow) :
  (∀ msg, treeEntriesView objs = .error msg ↔
    msg = invalidUtf8 ∧ ∃ o ∈ objs, o.type = 2 ∧ ∀ es, gitTreeEntries o.content ≠ .ok es) ∧
  ∀ rows, treeEntriesView objs = .ok rows → ∀ x, x ∈ rows ↔ ∃ o ∈ objs, o.type = 2 ∧
    ∃ es, gitTreeEntries o.content = .ok es ∧ ∃ e ∈ es, x = ⟨o.repo, o.oid, e⟩
  := by
  refine ⟨fun msg => ⟨treeEntriesView_error, ?_⟩, fun _ h _ => mem_treeEntriesView h⟩
  rintro ⟨rfl, o, ho, h2, hbad⟩
  exact treeEntriesView_of_rejected h2 hbad ho

/-! ### A write to one repository -/

/-- `pg_odb_write` on a server that fails no statement inserts its row when the key is free. -/
theorem pgOdbWrite_run_new {db : Db} {r : RepoId} {o : Oid} {data : Bytes} {t : Int}
    (hnew : (r, o.id) ∉ db.objects.map ObjectRow.key) :
  (pgOdbWrite r o data t).run .idle db [] =
    ⟨gitOk, .idle, { db with objects := db.objects ++ [⟨r, o.id, toInt16 t, toInt32 data.length,
      data⟩] }, []⟩
  := by
  simp [pgOdbWrite, pqExecParams, Conn.idle_exec_insertObject, insertRow, ObjectRow.key, hnew]

/-- On a server that fails no statement, a `pg_odb_write` for repository `r`, under an OID that
`r` does not hold yet, of a tree object whose content `git_tree_entries` rejects returns `0` and
leaves the rows of every other repository as they were; yet from then on every refresh of
`tree_entries_view`, which all repositories read, fails. -/
theorem tree_view_blocked_by_one_repository (db : Db) (r : RepoId) (o : Oid) (content : Bytes)
    (hnew : (r, o.id) ∉ db.objects.map ObjectRow.key)
    (hbad : ∀ es, gitTreeEntries content ≠ .ok es) :
  let R := (pgOdbWrite r o content 2).run .idle db []
  R.val = gitOk ∧ (∀ r', r' ≠ r → R.db.slice r' = db.slice r') ∧
    treeEntriesView R.db.objects = .error invalidUtf8
  := by
  intro R
  have hrun : R = _ := pgOdbWrite_run_new hnew
  refine ⟨by rw [hrun], fun r' hr => Prog.run_slice_of_ne (pgOdbWrite_scoped r o content 2)
    (fun _ h => absurd h (List.not_mem_nil _)) hr db [], ?_⟩
  rw [hrun]
  exact treeEntriesView_of_rejected (toInt16_of_mem (by simp)) hbad
    (List.mem_append_right _ (List.mem_singleton_self _))

/-- An entry `100644 café` of a blob, its name in Latin-1. -/
def latin1Entry : TreeEntry := ⟨utf8 "100644", utf8 "caf" ++ [0xe9], (Oid.ofByte 0xcc).id,
  by decide, by decide, (Oid.ofByte 0xcc).length_id⟩

theorem tree_view_blocked_by_one_repository_of_latin1 :
  (2, (Oid.ofByte 0xdd).id) ∉ sampleTreeDb.objects.map ObjectRow.key ∧
    (∀ es, gitTreeEntries (encodeTree [latin1Entry]) ≠ .ok es) ∧
    let R := (pgOdbWrite 2 (Oid.ofByte 0xdd) (encodeTree [latin1Entry]) 2).run .idle sampleTreeDb []
    R.val = gitOk ∧ (∀ r', r' ≠ 2 → R.db.slice r' = sampleTreeDb.slice r') ∧
      treeEntriesView R.db.objects = .error invalidUtf8
  := by
  have hbad : ∀ es, gitTreeEntries (encodeTree [latin1Entry]) ≠ .ok es := fun es h => by
    rw [show gitTreeEntries (encodeTree [latin1Entry]) = .error invalidUtf8 from rfl] at h
    cases h
  exact ⟨by decide, hbad, tree_view_blocked_by_one_repository _ _ _ _ (by decide) hbad⟩

end Gitgres
