import Gitgres.Sql.Eval

/-!
# The SQL functions that change refs

`git_ref_update(repo, name, new, old, force)` is a compare-and-swap of a ref's OID written in
PL/pgSQL.  It reads the ref's `oid` `FOR UPDATE`; when there is no row it refuses an expected
value and otherwise inserts one, and when there is a row it compares the expected value with the
stored one unless forced, then deletes the row or sets its OID.  The all-zero OID stands for
"no value" in `old` and `new`, and the comparisons are SQL's, NULL when a side is NULL.
`git_ref_set_symbolic(repo, name, target)` upserts a symbolic ref.  Each runs as one statement,
`SELECT git_ref_update(..)`, so a statement of the body that raises undoes the whole call.  The
body's statements are the `Query` values the backends send as well, applied by `Query.apply`.

The refs table has the primary key `(repo_id, name)`, `Db.RefsKeyed`; every change keeps it,
and on a keyed table `Db.refsOf r name` holds at most one row.

* On every keyed table, `git_ref_update` returns true exactly when the expected value is NULL or
  all zero, or the name holds a ref and the call is forced, the ref is symbolic, or its OID is
  the expected one; it raises only when it would create a ref with a NULL value.
* So the all-zero OID is not the "no ref" of a compare-and-swap: a creation stores it, an
  all-zero expected value moves an existing ref, and the comparison with a symbolic ref's NULL
  `oid` is NULL, so a symbolic ref is replaced whatever value was expected.
-/

namespace Gitgres

/-- The primary key `(repo_id, name)` of a ref row. -/
def RefRow.key (x : RefRow) : RepoId × String := (x.repo, x.name)

/-- The primary key of `refs`: no two rows share `(repo_id, name)`. -/
def Db.RefsKeyed (db : Db) : Prop := (db.refs.map RefRow.key).Nodup

instance : DecidablePred Db.RefsKeyed := fun db =>
  inferInstanceAs (Decidable (db.refs.map RefRow.key).Nodup)

/-- The `oid` column of a ref row. -/
def RefTarget.oidValue : RefTarget → Option Bytes
  | .oid b => some b
  | .symbolic _ => none

/-- SQL's `a != b` on two `bytea` values: NULL when either side is NULL. -/
def sqlNe (a b : Option Bytes) : Option Bool := do return (← a) != (← b)

/-- The literal `'\x0000000000000000000000000000000000000000'::bytea`. -/
def zeroOidLiteral : Bytes := List.replicate 20 0

/-- A statement of a function body: the tables after it, or none when it raises. -/
def Query.apply (q : Query) (db : Db) : Option Db :=
  if (q.eval db).status = .fatalError then none else some (db.applyAll (q.eval db).changes)

/-- `SELECT git_ref_update(r, name, newOid, oldOid, force)`: the function's value and the
tables afterwards, or none when a statement of its body raises. -/
def gitRefUpdate (db : Db) (r : RepoId) (name : String) (newOid oldOid : Option Bytes)
    (force : Bool) : Option (Bool × Db) :=
  match db.refsOf r name with
  | [] =>
    if oldOid.isSome ∧ sqlNe oldOid (some zeroOidLiteral) = some true then some (false, db)
    else (true, ·) <$> (Query.insertRef r name newOid).apply db
  | cur :: _ =>
    if !force ∧ oldOid.isSome ∧ sqlNe oldOid (some zeroOidLiteral) = some true ∧
        sqlNe cur.target.oidValue oldOid = some true then some (false, db)
    else if newOid.isNone ∨ newOid = some zeroOidLiteral then
      (true, ·) <$> (Query.deleteRef r name).apply db
    else (true, ·) <$> (Query.updateRefOid r name newOid).apply db

/-- `SELECT git_ref_set_symbolic(r, name, target)`. -/
def gitRefSetSymbolic (db : Db) (r : RepoId) (name target : String) : Option Db :=
  (Query.upsertRef r name (.symbolic target)).apply db

/-- The change a successful `git_ref_update` makes: it deletes the row when `newOid` is NULL or
all zero, and otherwise writes the direct ref `newOid`. -/
def updateChange (r : RepoId) (name : String) : Option Bytes → Change
  | some b => if b = zeroOidLiteral then .delRef r name else .putRef ⟨r, name, .oid b⟩
  | none => .delRef r name

/-- The rows a successful update leaves under the name: the direct ref `newOid`, or none when
`newOid` is NULL or all zero. -/
def updatedRefs (r : RepoId) (name : String) : Option Bytes → List RefRow
  | some b => if b = zeroOidLiteral then [] else [⟨r, name, .oid b⟩]
  | none => []

/-! ### The keyed refs table -/

section Keyed

variable {row : RefRow} {l : List RefRow} {r : RepoId} {name : String}

theorem map_key_upsertRef (row : RefRow) (l : List RefRow) :
  (upsertRef row l).map RefRow.key =
    if row.key ∈ l.map RefRow.key then l.map RefRow.key else l.map RefRow.key ++ [row.key]
  := by
  induction l with
  | nil => rfl
  | cons x xs ih =>
    by_cases hx : x.repo = row.repo ∧ x.name = row.name
    · have hkey : x.key = row.key := by simp [RefRow.key, hx.1, hx.2]
      simp [upsertRef, hx, hkey]
    · have hkey : row.key ≠ x.key := fun h => hx (by simp_all [RefRow.key])
      simp only [upsertRef, hx, if_false, List.map_cons, ih, List.mem_cons, hkey, false_or]
      split <;> rfl

theorem nodup_key_upsertRef (row : RefRow) (hk : (l.map RefRow.key).Nodup) :
  ((upsertRef row l).map RefRow.key).Nodup
  := by
  rw [map_key_upsertRef]
  split
  · exact hk
  · exact hk.append (List.nodup_singleton _) (List.disjoint_singleton.2 ‹_›)

/-- On a keyed table the upsert leaves exactly the new row under its key. -/
theorem filter_upsertRef_self (hk : (l.map RefRow.key).Nodup) :
  (upsertRef row l).filter (fun x => x.repo = row.repo ∧ x.name = row.name) = [row]
  := by
  induction l with
  | nil => simp [upsertRef]
  | cons x xs ih =>
    rw [List.map_cons, List.nodup_cons] at hk
    by_cases hx : x.repo = row.repo ∧ x.name = row.name
    · have hrest : ∀ y ∈ xs, ¬(y.repo = row.repo ∧ y.name = row.name) := fun y hy hy' =>
        hk.1 (List.mem_map.2 ⟨y, hy, by simp [RefRow.key, hx.1, hx.2, hy'.1, hy'.2]⟩)
      rw [upsertRef, if_pos hx, List.filter_cons_of_pos (by simp),
        List.filter_eq_nil_iff.2 fun y hy => by simpa using hrest y hy]
    · rw [upsertRef, if_neg hx, List.filter_cons_of_neg (by simpa using hx), ih hk.2]

theorem filter_upsertRef_of_key_ne (h : ¬(row.repo = r ∧ row.name = name)) (l : List RefRow) :
  (upsertRef row l).filter (fun x => x.repo = r ∧ x.name = name) =
    l.filter (fun x => x.repo = r ∧ x.name = name)
  := by
  induction l with
  | nil => simp [upsertRef, h]
  | cons x xs ih =>
    by_cases hx : x.repo = row.repo ∧ x.name = row.name
    · rw [upsertRef, if_pos hx, List.filter_cons_of_neg (by simpa using h),
        List.filter_cons_of_neg (by rw [hx.1, hx.2]; simpa using h)]
    · rw [upsertRef, if_neg hx, List.filter_cons, List.filter_cons, ih]

/-- A new row under the name, with every other key's rows as before. -/
theorem refsOf_putRef (db : Db) (hk : db.RefsKeyed) (row : RefRow) (r' : RepoId)
    (name' : String) :
  ((Change.putRef row).apply db).refsOf r' name' =
    if row.repo = r' ∧ row.name = name' then [row] else db.refsOf r' name'
  := by
  split
  · rename_i h
    obtain ⟨rfl, rfl⟩ := h
    exact filter_upsertRef_self hk
  · exact filter_upsertRef_of_key_ne ‹_› _

/-- No row under the name, with every other key's rows as before. -/
theorem refsOf_delRef (db : Db) (r r' : RepoId) (name name' : String) :
  ((Change.delRef r name).apply db).refsOf r' name' =
    if r = r' ∧ name = name' then [] else db.refsOf r' name'
  := by
  simp only [Change.apply, Db.refsOf, List.filter_filter]
  split
  · rename_i h
    obtain ⟨rfl, rfl⟩ := h
    exact List.filter_eq_nil_iff.2 fun x _ => by simp
  · rename_i h
    refine List.filter_congr fun x _ => ?_
    by_cases hP : x.repo = r' ∧ x.name = name'
    · have hQ : ¬(x.repo = r ∧ x.name = name) := fun hQ => h ⟨hQ.1 ▸ hP.1, hQ.2 ▸ hP.2⟩
      rw [decide_eq_true hP, decide_eq_false hQ]
      rfl
    · rw [decide_eq_false hP]
      rfl

theorem Db.RefsKeyed.putRef {db : Db} (hk : db.RefsKeyed) (row : RefRow) :
  ((Change.putRef row).apply db).RefsKeyed
  := nodup_key_upsertRef row hk

theorem Db.RefsKeyed.delRef {db : Db} (hk : db.RefsKeyed) (r : RepoId) (name : String) :
  ((Change.delRef r name).apply db).RefsKeyed
  := hk.sublist ((List.filter_sublist _).map _)

/-- On a keyed table a name holds at most one row. -/
theorem Db.RefsKeyed.refsOf_eq {db : Db} (hk : db.RefsKeyed) {x : RefRow} {rest : List RefRow}
    (h : db.refsOf r name = x :: rest) :
  rest = []
  := by
  have hnd : ((db.refsOf r name).map RefRow.key).Nodup := hk.sublist ((List.filter_sublist _).map _)
  have hkey : ∀ y ∈ db.refsOf r name, y.key = (r, name) := fun y hy => by
    simpa [RefRow.key, Db.refsOf] using (List.mem_filter.1 hy).2
  rw [h] at hnd hkey
  match rest, hnd, hkey with
  | [], _, _ => rfl
  | y :: _, hnd, hkey =>
    have hxy : x.key = y.key := (hkey x (List.mem_cons_self _ _)).trans (hkey y (by simp)).symm
    exact absurd (List.mem_cons_self _ _) (hxy ▸ (List.nodup_cons.1 hnd).1)

/-- The effect of `updateChange`: the rows `updatedRefs` under the name, every other key's rows
as before, and the other tables untouched. -/
theorem updateChange_apply {db : Db} (hk : db.RefsKeyed) (r : RepoId) (name : String)
    (newOid : Option Bytes) :
  ((updateChange r name newOid).apply db).RefsKeyed ∧
    (∀ r' name', ((updateChange r name newOid).apply db).refsOf r' name' =
      if r = r' ∧ name = name' then updatedRefs r name newOid else db.refsOf r' name') ∧
    ((updateChange r name newOid).apply db).objects = db.objects ∧
    ((updateChange r name newOid).apply db).reflog = db.reflog
  := by
  rcases newOid with _ | b
  · exact ⟨hk.delRef r name, fun _ _ => by simp [updateChange, updatedRefs, refsOf_delRef], rfl, rfl⟩
  · by_cases hb : b = zeroOidLiteral
    · exact ⟨by simpa [updateChange, hb] using hk.delRef r name,
        fun _ _ => by simp [updateChange, updatedRefs, hb, refsOf_delRef], by simp [updateChange, hb, Change.apply],
        by simp [updateChange, hb, Change.apply]⟩
    · exact ⟨by simpa [updateChange, hb] using hk.putRef _,
        fun _ _ => by simp [updateChange, updatedRefs, hb, refsOf_putRef db hk], by simp [updateChange, hb, Change.apply],
        by simp [updateChange, hb, Change.apply]⟩

/-- On a keyed table a name holds no row or one. -/
theorem Db.RefsKeyed.refsOf_cases {db : Db} (hk : db.RefsKeyed) (r : RepoId) (name : String) :
  db.refsOf r name = [] ∨ ∃ x, db.refsOf r name = [x]
  := by
  rcases h : db.refsOf r name with _ | ⟨x, rest⟩
  · exact .inl rfl
  · exact .inr ⟨x, by rw [hk.refsOf_eq h]⟩

end Keyed

/-! ### `git_ref_update` -/

section RefUpdate

variable {db : Db} {r : RepoId} {name : String}

theorem insertRef_apply (hrow : db.refsOf r name = []) (b : Bytes) :
  (Query.insertRef r name (some b)).apply db = some ((Change.putRef ⟨r, name, .oid b⟩).apply db)
  := by
  simp [Query.apply, Query.eval, hrow, Outcome.command]

/-- On an absent name the expected value must be NULL or all zero, whatever `force` says, and
then the row `newOid` is inserted: the `CHECK` constraint refuses a NULL, and an all-zero OID is
stored. -/
theorem gitRefUpdate_absent (hrow : db.refsOf r name = []) (newOid oldOid : Option Bytes)
    (force : Bool) :
  gitRefUpdate db r name newOid oldOid force =
    if oldOid = none ∨ oldOid = some zeroOidLiteral then
      newOid.map fun b => (true, (Change.putRef ⟨r, name, .oid b⟩).apply db)
    else some (false, db)
  := by
  have hcas : (oldOid.isSome = true ∧ sqlNe oldOid (some zeroOidLiteral) = some true) ↔
      ¬(oldOid = none ∨ oldOid = some zeroOidLiteral) := by
    rcases oldOid with _ | o <;> simp [sqlNe]
  rw [gitRefUpdate, hrow]
  simp only
  rw [if_congr hcas rfl rfl, ite_not]
  congr 1
  rcases newOid with _ | b
  · simp [Query.apply, Query.eval, Outcome.error]
  · simp [insertRef_apply hrow]

/-- On a direct ref the expected value is compared with the stored OID unless forced; an
all-zero expected value is no expectation. -/
theorem gitRefUpdate_direct {x : RefRow} {c : Bytes} (hrow : db.refsOf r name = [x])
    (hx : x.target = .oid c) (newOid oldOid : Option Bytes) (force : Bool) :
  gitRefUpdate db r name newOid oldOid force =
    if oldOid = none ∨ oldOid = some zeroOidLiteral ∨ force = true ∨ some c = oldOid then
      some (true, (updateChange r name newOid).apply db)
    else some (false, db)
  := by
  have hcas : ((!force) = true ∧ oldOid.isSome = true ∧
      sqlNe oldOid (some zeroOidLiteral) = some true ∧ sqlNe (some c) oldOid = some true) ↔
      ¬(oldOid = none ∨ oldOid = some zeroOidLiteral ∨ force = true ∨ some c = oldOid) := by
    rcases oldOid with _ | o <;> cases force <;> simp [sqlNe]
  rw [gitRefUpdate, hrow]
  simp only [hx, RefTarget.oidValue]
  rw [if_congr hcas rfl rfl, ite_not]
  congr 1
  rcases newOid with _ | b
  · simp [Query.apply, Query.eval, hrow, Outcome.command, updateChange]
  · by_cases hb : b = zeroOidLiteral <;>
      simp [hb, Query.apply, Query.eval, hrow, Outcome.command, updateChange]

/-- On a symbolic ref the comparison with the NULL `oid` column is NULL, so the update goes
ahead whatever the expected value. -/
theorem gitRefUpdate_symbolic {x : RefRow} {t : String} (hrow : db.refsOf r name = [x])
    (hx : x.target = .symbolic t) (newOid oldOid : Option Bytes) (force : Bool) :
  gitRefUpdate db r name newOid oldOid force = some (true, (updateChange r name newOid).apply db)
  := by
  rw [gitRefUpdate, hrow]
  simp only [hx, RefTarget.oidValue, sqlNe, Option.pure_def, Option.bind_eq_bind,
    Option.none_bind, reduceCtorEq, and_false, if_false]
  rcases newOid with _ | b
  · simp [Query.apply, Query.eval, hrow, Outcome.command, updateChange]
  · by_cases hb : b = zeroOidLiteral <;>
      simp [hb, Query.apply, Query.eval, hrow, Outcome.command, updateChange]

/-- On an existing ref the update goes ahead when the expected value is NULL or all zero, when it
is forced, or when SQL's comparison of the stored `oid` with the expected value is not true: the
OIDs are equal, or the ref is symbolic and its `oid` is NULL. -/
theorem gitRefUpdate_present {x : RefRow} (hrow : db.refsOf r name = [x])
    (newOid oldOid : Option Bytes) (force : Bool) :
  gitRefUpdate db r name newOid oldOid force =
    if oldOid = none ∨ oldOid = some zeroOidLiteral ∨ force = true ∨
        x.target.oidValue = none ∨ x.target.oidValue = oldOid then
      some (true, (updateChange r name newOid).apply db)
    else some (false, db)
  := by
  rcases hx : x.target with c | t
  · rw [gitRefUpdate_direct hrow hx]
    simp only [RefTarget.oidValue, reduceCtorEq, false_or]
  · rw [gitRefUpdate_symbolic hrow hx, if_pos (by simp [RefTarget.oidValue])]

/-- The effect of creating the direct ref `b`: the one row under the name, every other key's
rows as before, and the other tables untouched. -/
theorem putRef_oid_apply (hk : db.RefsKeyed) (b : Bytes) :
  ((Change.putRef ⟨r, name, .oid b⟩).apply db).RefsKeyed ∧
    ((Change.putRef ⟨r, name, .oid b⟩).apply db).refsOf r name = [⟨r, name, .oid b⟩] ∧
    (∀ r' name', ¬(r = r' ∧ name = name') →
      ((Change.putRef ⟨r, name, .oid b⟩).apply db).refsOf r' name' = db.refsOf r' name') ∧
    ((Change.putRef ⟨r, name, .oid b⟩).apply db).objects = db.objects ∧
    ((Change.putRef ⟨r, name, .oid b⟩).apply db).reflog = db.reflog
  := ⟨hk.putRef _, by simp [refsOf_putRef db hk], fun _ _ h => by simp [refsOf_putRef db hk, h],
    rfl, rfl⟩

end RefUpdate

/-- `git_ref_update` on every refs table that keeps its primary key, every name, new value,
expected value and force flag.  It raises only when it would create a ref with a NULL value,
which the `CHECK` constraint refuses.  Otherwise it returns true exactly when the expected value
is NULL or all zero, or the name holds a ref and the call is forced, the ref is symbolic, or its
OID equals the expected value.  A false leaves the tables as they were.  A true leaves under the
name the direct ref of the new value when the name was free, an all-zero value included, and the
rows `updatedRefs` when it was not; every other row, the objects and the reflog stay as they
were. -/
theorem ref_update_compare_and_swap (db : Db) (hk : db.RefsKeyed) (r : RepoId) (name : String)
    (newOid oldOid : Option Bytes) (force : Bool) :
  (gitRefUpdate db r name newOid oldOid force = none ↔
    db.refsOf r name = [] ∧ newOid = none ∧ (oldOid = none ∨ oldOid = some zeroOidLiteral)) ∧
  ∀ ok db', gitRefUpdate db r name newOid oldOid force = some (ok, db') →
    (ok = true ↔ oldOid = none ∨ oldOid = some zeroOidLiteral ∨ ∃ x ∈ db.refsOf r name,
      force = true ∨ x.target.oidValue = none ∨ x.target.oidValue = oldOid) ∧
    (ok = false → db' = db) ∧
    (ok = true → db'.RefsKeyed ∧
      db'.refsOf r name = (if db.refsOf r name = [] then newOid.toList.map fun b => ⟨r, name, .oid b⟩
        else updatedRefs r name newOid) ∧
      (∀ r' name', ¬(r = r' ∧ name = name') → db'.refsOf r' name' = db.refsOf r' name') ∧
      db'.objects = db.objects ∧ db'.reflog = db.reflog)
  := by
  rcases hk.refsOf_cases r name with hrow | ⟨x, hrow⟩
  · -- the name is free: the creation branch
    rw [gitRefUpdate_absent hrow]
    simp only [hrow, List.not_mem_nil, false_and, exists_false, or_false, if_true, true_and]
    split
    · rcases newOid with _ | b
      · simpa using ‹_›
      · obtain ⟨hk', hrefs, hother, hobj, hlog⟩ := putRef_oid_apply hk b
        refine ⟨by simp, ?_⟩
        rintro ok db' ⟨⟩
        exact ⟨iff_of_true rfl ‹_›, nofun, fun _ => ⟨hk', by simpa using hrefs, hother, hobj, hlog⟩⟩
    · refine ⟨⟨nofun, fun h => absurd h.2 ‹_›⟩, ?_⟩
      rintro ok db' ⟨⟩
      exact ⟨iff_of_false nofun ‹_›, fun _ => rfl, nofun⟩
  · -- the name holds one ref: the compare-and-swap branch
    rw [gitRefUpdate_present hrow]
    simp only [hrow, List.mem_singleton, exists_eq_left, reduceCtorEq, false_and, iff_false]
    obtain ⟨hk', hrefs, hobj, hlog⟩ := updateChange_apply hk r name newOid
    split
    · refine ⟨nofun, ?_⟩
      rintro ok db' ⟨⟩
      exact ⟨iff_of_true rfl (by simpa only [or_assoc] using ‹_›), nofun,
        fun _ => ⟨hk', by simp [hrefs], fun r' name' h => by simp [hrefs, h], hobj, hlog⟩⟩
    · refine ⟨nofun, ?_⟩
      rintro ok db' ⟨⟩
      exact ⟨iff_of_false nofun (by simpa only [or_assoc] using ‹_›), fun _ => rfl, nofun⟩

/-- The update of `refs/heads/main` from `aa..aa` to `bb..bb` with the matching expectation. -/
theorem main_moves_on_matching_expectation :
    let db : Db := ⟨[], [⟨1, "refs/heads/main", .oid (List.replicate 20 0xaa)⟩], [], 1⟩
    db.RefsKeyed ∧
    (gitRefUpdate db 1 "refs/heads/main" (some (List.replicate 20 0xbb))
        (some (List.replicate 20 0xaa)) false = none ↔
      db.refsOf 1 "refs/heads/main" = [] ∧ (some (List.replicate 20 0xbb) : Option Bytes) = none ∧
        ((some (List.replicate 20 0xaa) : Option Bytes) = none ∨
          (some (List.replicate 20 0xaa) : Option Bytes) = some zeroOidLiteral)) ∧
    ∀ ok db', gitRefUpdate db 1 "refs/heads/main" (some (List.replicate 20 0xbb))
        (some (List.replicate 20 0xaa)) false = some (ok, db') →
      (ok = true ↔ (some (List.replicate 20 0xaa) : Option Bytes) = none ∨
        (some (List.replicate 20 0xaa) : Option Bytes) = some zeroOidLiteral ∨
        ∃ x ∈ db.refsOf 1 "refs/heads/main", false = true ∨ x.target.oidValue = none ∨
          x.target.oidValue = some (List.replicate 20 0xaa)) ∧
      (ok = false → db' = db) ∧
      (ok = true → db'.RefsKeyed ∧
        db'.refsOf 1 "refs/heads/main" = (if db.refsOf 1 "refs/heads/main" = [] then
            (some (List.replicate 20 0xbb)).toList.map fun b => ⟨1, "refs/heads/main", .oid b⟩
          else updatedRefs 1 "refs/heads/main" (some (List.replicate 20 0xbb))) ∧
        (∀ r' name', ¬(1 = r' ∧ "refs/heads/main" = name') →
          db'.refsOf r' name' = db.refsOf r' name') ∧
        db'.objects = db.objects ∧ db'.reflog = db.reflog)
  := by
  intro db
  have hk : db.RefsKeyed := by decide
  exact ⟨hk, ref_update_compare_and_swap db hk 1 "refs/heads/main" (some (List.replicate 20 0xbb))
    (some (List.replicate 20 0xaa)) false⟩

/-- `refs/heads/main` at `aa..aa` and `refs/heads/x` symbolic to it. -/
def symbolicXDb : Db :=
  ⟨[], [⟨1, "refs/heads/main", .oid (List.replicate 20 0xaa)⟩,
    ⟨1, "refs/heads/x", .symbolic "refs/heads/main"⟩], [], 1⟩

/-- Four unforced calls where `git_ref_update` is not a compare-and-swap whose all-zero OID means
"no ref": creating `refs/heads/x` with the all-zero value stores that value; creating it with
NULL raises; the symbolic `refs/heads/x`, expected at `cc..cc`, which it does not hold, becomes
the direct `bb..bb` and the call returns true; and an all-zero expected value, "no ref", moves
the existing `refs/heads/main`. -/
theorem ref_update_stores_zero_and_skips_cas :
  gitRefUpdate Db.empty 1 "refs/heads/x" (some zeroOidLiteral) none false =
      some (true, ⟨[], [⟨1, "refs/heads/x", .oid zeroOidLiteral⟩], [], 1⟩) ∧
    gitRefUpdate Db.empty 1 "refs/heads/x" none none false = none ∧
    gitRefUpdate symbolicXDb 1 "refs/heads/x" (some (List.replicate 20 0xbb))
        (some (List.replicate 20 0xcc)) false =
      some (true, ⟨[], [⟨1, "refs/heads/main", .oid (List.replicate 20 0xaa)⟩,
        ⟨1, "refs/heads/x", .oid (List.replicate 20 0xbb)⟩], [], 1⟩) ∧
    gitRefUpdate ⟨[], [⟨1, "refs/heads/main", .oid (List.replicate 20 0xaa)⟩], [], 1⟩ 1
        "refs/heads/main" (some (List.replicate 20 0xbb)) (some zeroOidLiteral) false =
      some (true, ⟨[], [⟨1, "refs/heads/main", .oid (List.replicate 20 0xbb)⟩], [], 1⟩)
  := by decide

end Gitgres
