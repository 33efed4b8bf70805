import Gitgres.Refdb.RenameRuns

/-!
# Reflogs over runs of writes, deletes and renames

`RefdbInv` is what the refs and reflog tables keep over a run of the refdb backend's calls: the
primary keys of both tables, reflog ids below the sequence, 20-byte OIDs in direct refs, no reflog
row without its ref, and the reflog of every name a chain (`ReflogChain`).  An unforced, signed
`pg_refdb_write`, a `pg_refdb_del` and an unforced `pg_refdb_rename` each keep it, whatever the
server fails (`RefdbInv.write`, `RefdbInv.del`, `RefdbInv.rename`), so a run of such calls from
the empty tables keeps every reflog a chain.  A forced rename onto a taken name does not: the
deleted ref's reflog rows stay under the name, and the renamed ref's rows join them.
-/

namespace Gitgres

/-- What the refs and reflog tables keep over a run of logged calls. -/
structure RefdbInv (db : Db) : Prop where
  /-- The primary key `(repo_id, name)` of `refs`. -/
  refsKeyed : db.RefsKeyed
  /-- The primary key `id` of `reflog`. -/
  reflogKeyed : db.ReflogKeyed
  /-- Reflog ids are below the sequence. -/
  idsBelowSeq : db.IdsBelowSeq
  /-- Direct refs hold 20-byte OIDs. -/
  oidsSized : db.OidsSized
  /-- Every reflog row belongs to a ref. -/
  logsOwned : ∀ x ∈ db.reflog, db.refsOf x.repo x.refName ≠ []
  /-- The reflog of every name is a chain. -/
  chains : ∀ r name, ReflogChain db r name

/-- The empty tables of a new installation keep the invariant. -/
theorem RefdbInv.empty : RefdbInv Db.empty where
  refsKeyed := List.nodup_nil
  reflogKeyed := List.nodup_nil
  idsBelowSeq _ h := absurd h (List.not_mem_nil _)
  oidsSized _ h := absurd h (List.not_mem_nil _)
  logsOwned _ h := absurd h (List.not_mem_nil _)
  chains _ _ := ⟨List.chain'_nil, fun _ h => absurd h (Option.not_mem_none _)⟩

/-- The invariant depends on the refs and the reflog, and on a sequence that only grows. -/
theorem RefdbInv.of_tables {db db' : Db} (h : RefdbInv db) (hrefs : db'.refs = db.refs)
    (hlog : db'.reflog = db.reflog) (hseq : db.reflogIdSeq ≤ db'.reflogIdSeq) :
  RefdbInv db'
  where
  refsKeyed := by rw [Db.RefsKeyed, hrefs]; exact h.refsKeyed
  reflogKeyed := by rw [Db.ReflogKeyed, hlog]; exact h.reflogKeyed
  idsBelowSeq x hx := (h.idsBelowSeq x (hlog ▸ hx)).trans_le hseq
  oidsSized := by rw [Db.OidsSized, hrefs]; exact h.oidsSized
  logsOwned := by simpa only [Db.refsOf, hrefs, hlog] using h.logsOwned
  chains r n := (h.chains r n).of_tables hrefs hlog

/-- The chain of a name depends on its reflog rows and the value of its ref alone. -/
theorem ReflogChain.congr {db db' : Db} {r : RepoId} {n : String}
    (hlog : db'.reflogOf r n = db.reflogOf r n) (hval : db'.loggedValue r n = db.loggedValue r n)
    (h : ReflogChain db r n) :
  ReflogChain db' r n
  := by
  rw [ReflogChain, hlog, hval]
  exact h

/-- A name without reflog rows is a chain. -/
theorem ReflogChain.of_nil {db : Db} {r : RepoId} {n : String} (h : db.reflogOf r n = []) :
  ReflogChain db r n
  := by
  rw [ReflogChain, h]
  exact ⟨List.chain'_nil, fun _ h => absurd h (Option.not_mem_none _)⟩

/-! ### Deleting a ref and its reflog -/

section Without

variable {db : Db} {b : RepoId} {name : String}

/-- Deleting the rows where `p` holds leaves the rows where `q` holds, when no row has both. -/
theorem filter_filter_not {α : Type} (rows : List α) {p q : α → Prop} [DecidablePred p]
    [DecidablePred q] (h : ∀ x, q x → ¬p x) :
  (rows.filter fun x => !decide (p x)).filter (fun x => decide (q x)) = rows.filter fun x => q x
  := by
  rw [List.filter_filter]
  exact List.filter_congr fun x _ => by by_cases hq : q x <;> simp [hq, h x]

theorem refsOf_withoutRef (r : RepoId) (n : String) :
  (db.withoutRef b name).refsOf r n = if b = r ∧ name = n then [] else db.refsOf r n
  := by
  split
  · rename_i h
    obtain ⟨rfl, rfl⟩ := h
    simp [Db.refsOf, Db.withoutRef, List.filter_filter]
  · rename_i h
    exact filter_filter_not _ fun x hx hx' => h ⟨hx'.1.symm.trans hx.1, hx'.2.symm.trans hx.2⟩

theorem reflogOf_withoutRef (r : RepoId) (n : String) :
  (db.withoutRef b name).reflogOf r n = if b = r ∧ name = n then [] else db.reflogOf r n
  := by
  split
  · rename_i h
    obtain ⟨rfl, rfl⟩ := h
    simp [Db.reflogOf, Db.withoutRef, List.filter_filter]
  · rename_i h
    exact filter_filter_not _ fun x hx hx' => h ⟨hx'.1.symm.trans hx.1, hx'.2.symm.trans hx.2⟩

/-- Deleting a ref and its reflog keeps the invariant. -/
theorem RefdbInv.withoutRef (h : RefdbInv db) :
  RefdbInv (db.withoutRef b name)
  where
  refsKeyed := h.refsKeyed.sublist ((List.filter_sublist _).map _)
  reflogKeyed := h.reflogKeyed.sublist ((List.filter_sublist _).map _)
  idsBelowSeq x hx := h.idsBelowSeq x (List.mem_of_mem_filter hx)
  oidsSized x hx := h.oidsSized x (List.mem_of_mem_filter hx)
  logsOwned x hx := by
    obtain ⟨hx, hkeep⟩ := List.mem_filter.1 hx
    rw [refsOf_withoutRef, if_neg fun h' => by simp [h'.1, h'.2] at hkeep]
    exact h.logsOwned x hx
  chains r n := by
    by_cases hn : b = r ∧ name = n
    · exact .of_nil (by rw [reflogOf_withoutRef, if_pos hn])
    · refine (h.chains r n).congr (by rw [reflogOf_withoutRef, if_neg hn]) ?_
      rw [Db.loggedValue, Db.loggedValue, refsOf_withoutRef, if_neg hn]

/-- `pg_refdb_del` keeps the invariant, whichever statements the server fails. -/
theorem RefdbInv.del (h : RefdbInv db) (oldId : Option Oid) (oldTarget : Option String)
    (fails : List Bool) :
  RefdbInv ((pgRefdbDel b name oldId oldTarget).run .idle db fails).db
  := by
  rcases (pgRefdbDel_allRuns h.refsKeyed h.reflogKeyed fails).2 with hdb | ⟨-, -, hdb⟩ <;>
    rw [hdb]
  · exact h
  · exact h.withoutRef

end Without

/-! ### Renaming a ref and its reflog -/

section Renamed

variable {db : Db} {b : RepoId} {old new : String}

/-- The ref rows of a name after a rename: the old ref renamed under the new name, none under the
old name, and the others as they were. -/
theorem refsOf_renamedRef (hne : old ≠ new) (r : RepoId) (n : String) :
  (db.renamedRef b old new).refsOf r n =
    if b = r ∧ new = n then (db.refsOf b old).map fun x => { x with name := new }
    else if b = r ∧ old = n then [] else db.refsOf r n
  := by
  split_ifs with h1 h2
  · obtain ⟨rfl, rfl⟩ := h1
    exact refsOf_renameRefRow hne db.refs
  · obtain ⟨rfl, rfl⟩ := h2
    simp only [Db.refsOf, Db.renamedRef, renameRefRow, List.filter_map, List.filter_filter,
      List.map_eq_nil_iff, List.filter_eq_nil_iff]
    intro x _
    by_cases hx : x.repo = b ∧ x.name = old <;> simp [hx, hne.symm]
  · simp only [Db.refsOf, Db.renamedRef, renameRefRow, List.filter_map, List.filter_filter]
    have hkeep : ∀ x : RefRow, x.repo = r ∧ x.name = n → ¬(x.repo = b ∧ x.name = old) :=
      fun x hx hx' => h2 ⟨hx'.1.symm.trans hx.1, hx'.2.symm.trans hx.2⟩
    have hpred : ∀ x ∈ db.refs, (((fun x : RefRow => decide (x.repo = r ∧ x.name = n)) ∘
        (fun x => if x.repo = b ∧ x.name = old then { x with name := new } else x)) x &&
        !decide (x.repo = b ∧ x.name = new)) = decide (x.repo = r ∧ x.name = n) := by
      intro x _
      by_cases hx : x.repo = b ∧ x.name = old
      · simp [Function.comp, hx, h1, h2]
      · by_cases hq : x.repo = r ∧ x.name = n
        · have hn : ¬(x.repo = b ∧ x.name = new) :=
            fun h => h1 ⟨h.1.symm.trans hq.1, h.2.symm.trans hq.2⟩
          rw [Function.comp_apply, if_neg hx]
          obtain ⟨rfl, rfl⟩ := hq
          simp [hn]
        · simp [hx, hq]
    rw [List.filter_congr hpred, List.map_congr_left fun x hx => if_neg
      (hkeep x (by simpa using (List.mem_filter.1 hx).2)), List.map_id']

/-- The reflog rows of a name after a rename, when the new name had none: the old name's rows
under the new name, none under the old name, and the others as they were. -/
theorem reflogOf_renamedRef (hne : old ≠ new) (hnone : db.reflogOf b new = []) (r : RepoId)
    (n : String) :
  (db.renamedRef b old new).reflogOf r n =
    if b = r ∧ new = n then (db.reflogOf b old).map fun x => { x with refName := new }
    else if b = r ∧ old = n then [] else db.reflogOf r n
  := by
  have hnone' : ∀ x ∈ db.reflog, ¬(x.repo = b ∧ x.refName = new) := fun x hx hx' => by
    have hmem : x ∈ db.reflogOf b new := List.mem_filter.2 ⟨hx, decide_eq_true hx'⟩
    rw [hnone] at hmem
    cases hmem
  simp only [Db.reflogOf, Db.renamedRef, List.filter_map]
  split_ifs with h1 h2
  · obtain ⟨rfl, rfl⟩ := h1
    have hpred : ∀ x ∈ db.reflog, ((fun x : ReflogRow => decide (x.repo = b ∧ x.refName = new)) ∘
        (fun x => if x.repo = b ∧ x.refName = old then { x with refName := new } else x)) x =
        decide (x.repo = b ∧ x.refName = old) := fun x hx => by
      by_cases hx' : x.repo = b ∧ x.refName = old
      · simp [Function.comp, hx']
      · simp [Function.comp, hx', hnone' x hx]
    rw [List.filter_congr hpred]
    exact List.map_congr_left fun x hx => if_pos (by simpa using (List.mem_filter.1 hx).2)
  · obtain ⟨rfl, rfl⟩ := h2
    simp only [List.map_eq_nil_iff, List.filter_eq_nil_iff]
    intro x _
    by_cases hx : x.repo = b ∧ x.refName = old <;> simp [hx, hne.symm]
  · have hkeep : ∀ x : ReflogRow, x.repo = r ∧ x.refName = n → ¬(x.repo = b ∧ x.refName = old) :=
      fun x hx hx' => h2 ⟨hx'.1.symm.trans hx.1, hx'.2.symm.trans hx.2⟩
    have hpred : ∀ x ∈ db.reflog, ((fun x : ReflogRow => decide (x.repo = r ∧ x.refName = n)) ∘
        (fun x => if x.repo = b ∧ x.refName = old then { x with refName := new } else x)) x =
        decide (x.repo = r ∧ x.refName = n) := fun x _ => by
      by_cases hx : x.repo = b ∧ x.refName = old
      · simp [Function.comp, hx, h1, h2]
      · rw [Function.comp_apply, if_neg hx]
    rw [List.filter_congr hpred, List.map_congr_left fun x hx => if_neg
      (hkeep x (by simpa using (List.mem_filter.1 hx).2)), List.map_id']

/-- A rename onto a free name keeps the primary key of `refs`. -/
theorem Db.RefsKeyed.renamedRef (hk : db.RefsKeyed) :
  (db.renamedRef b old new).RefsKeyed
  := by
  have hnd := hk.of_map
  have hinj := List.inj_on_of_nodup_map hk
  rw [Db.RefsKeyed, Db.renamedRef, renameRefRow, List.map_map]
  refine (hnd.filter _).map_on fun x hx y hy hxy => ?_
  simp only [List.mem_filter, Bool.not_eq_true', decide_eq_false_iff_not] at hx hy
  simp only [Function.comp, RefRow.key] at hxy
  by_cases hxo : x.repo = b ∧ x.name = old <;> by_cases hyo : y.repo = b ∧ y.name = old
  · exact hinj hx.1 hy.1 (by simp [RefRow.key, hxo.1, hxo.2, hyo.1, hyo.2])
  · rw [if_pos hxo, if_neg hyo, Prod.mk.injEq] at hxy
    exact absurd ⟨hxy.1.symm.trans hxo.1, hxy.2.symm⟩ hy.2
  · rw [if_neg hxo, if_pos hyo, Prod.mk.injEq] at hxy
    exact absurd ⟨hxy.1.trans hyo.1, hxy.2⟩ hx.2
  · rw [if_neg hxo, if_neg hyo] at hxy
    exact hinj hx.1 hy.1 hxy

/-- A rename of an existing ref onto a free name keeps the invariant. -/
theorem RefdbInv.renamedRef (h : RefdbInv db) (hne : old ≠ new) (hold : db.refsOf b old ≠ [])
    (hfree : db.refsOf b new = []) :
  RefdbInv (db.renamedRef b old new)
  := by
  have hnone : db.reflogOf b new = [] := List.filter_eq_nil_iff.2 fun x hx hx' => by
    obtain ⟨hr, hn⟩ := of_decide_eq_true hx'
    exact h.logsOwned x hx (hr ▸ hn ▸ hfree)
  have hmem : ∀ x ∈ (db.renamedRef b old new).reflog, ∃ y ∈ db.reflog, x.id = y.id ∧
      (y.repo = b ∧ y.refName = old ∧ x.repo = b ∧ x.refName = new ∨
        ¬(y.repo = b ∧ y.refName = old) ∧ x = y) := fun x hx => by
    obtain ⟨y, hy, rfl⟩ := List.mem_map.1 hx
    refine ⟨y, hy, by split <;> rfl, ?_⟩
    by_cases hyo : y.repo = b ∧ y.refName = old
    · exact .inl ⟨hyo.1, hyo.2, by simp [hyo]⟩
    · exact .inr ⟨hyo, by simp [hyo]⟩
  refine ⟨h.refsKeyed.renamedRef, ?_, fun x hx => ?_, fun x hx => ?_, fun x hx => ?_, fun r n => ?_⟩
  · have hids : (db.renamedRef b old new).reflog.map ReflogRow.id = db.reflog.map ReflogRow.id := by
      simp only [Db.renamedRef, List.map_map]
      exact List.map_congr_left fun x _ => by simp only [Function.comp]; split <;> rfl
    rw [Db.ReflogKeyed, hids]
    exact h.reflogKeyed
  · obtain ⟨y, hy, hid, -⟩ := hmem x hx
    exact hid ▸ h.idsBelowSeq y hy
  · obtain ⟨y, hy, rfl⟩ := List.mem_map.1 hx
    have hy := List.mem_of_mem_filter hy
    intro c hc
    refine h.oidsSized y hy c ?_
    split at hc <;> exact hc
  · obtain ⟨y, hy, -, ⟨-, -, hxr, hxn⟩ | ⟨hyo, rfl⟩⟩ := hmem x hx
    · rw [refsOf_renamedRef hne, hxr, hxn, if_pos ⟨rfl, rfl⟩]
      simpa using hold
    · have hyn : ¬(b = x.repo ∧ new = x.refName) := fun h' => by
        have hm : x ∈ db.reflogOf b new :=
          List.mem_filter.2 ⟨hy, decide_eq_true ⟨h'.1.symm, h'.2.symm⟩⟩
        rw [hnone] at hm
        cases hm
      rw [refsOf_renamedRef hne, if_neg hyn, if_neg fun h' => hyo ⟨h'.1.symm, h'.2.symm⟩]
      exact h.logsOwned x hy
  · by_cases h1 : b = r ∧ new = n
    · obtain ⟨rfl, rfl⟩ := h1
      have hc := h.chains b old
      have hval : (db.renamedRef b old new).loggedValue b new = db.loggedValue b old := by
        rw [Db.loggedValue, Db.loggedValue, refsOf_renamedRef hne, if_pos ⟨rfl, rfl⟩,
          List.head?_map, Option.bind_map]
        rfl
      rw [ReflogChain, reflogOf_renamedRef hne hnone, if_pos ⟨rfl, rfl⟩, List.chain'_map,
        List.getLast?_map, hval]
      refine ⟨hc.1, fun x hx => ?_⟩
      obtain ⟨y, hy, rfl⟩ := Option.mem_map.1 hx
      exact hc.2 y hy
    · by_cases h2 : b = r ∧ old = n
      · exact .of_nil (by rw [reflogOf_renamedRef hne hnone, if_neg h1, if_pos h2])
      · refine (h.chains r n).congr (by rw [reflogOf_renamedRef hne hnone, if_neg h1, if_neg h2]) ?_
        rw [Db.loggedValue, Db.loggedValue, refsOf_renamedRef hne, if_neg h1, if_neg h2]

end Renamed

/-! ### The calls -/

section Calls

variable {db : Db}

theorem mem_upsertRef {row x : RefRow} {l : List RefRow} (h : x ∈ upsertRef row l) :
  x = row ∨ x ∈ l
  := by
  induction l with
  | nil => simpa [upsertRef] using h
  | cons y l ih =>
    rw [upsertRef] at h
    split at h
    · rcases List.mem_cons.1 h with rfl | h
      · exact .inl rfl
      · exact .inr (List.mem_cons_of_mem _ h)
    · rcases List.mem_cons.1 h with rfl | h
      · exact .inr (List.mem_cons_self _ _)
      · exact (ih h).imp_right (List.mem_cons_of_mem _)

/-- The keys of the reflog, the OID lengths and the owners of reflog rows after a write of `ref`
that succeeded. -/
theorem RefdbInv.written {db' : Db} (h : RefdbInv db) {b : RepoId} {ref : GitReference}
    {old : Option Oid} {who : Option Signature} {message : Option String}
    (hrefs : db'.refs = upsertRef ⟨b, ref.name, ref.refTarget⟩ db.refs)
    (hlog : db'.reflog = db.reflog ++ writeReflogRows db.reflogIdSeq b ref old who message) :
  db'.ReflogKeyed ∧ db'.OidsSized ∧ ∀ x ∈ db'.reflog, db'.refsOf x.repo x.refName ≠ []
  := by
  have hput : ∀ r n, db'.refsOf r n = ((Change.putRef ⟨b, ref.name, ref.refTarget⟩).apply db).refsOf
      r n := fun _ _ => by simp only [Db.refsOf, hrefs, Change.apply]
  refine ⟨?_, fun x hx c hc => ?_, fun x hx => ?_⟩
  · rw [Db.ReflogKeyed, hlog, List.map_append]
    refine List.nodup_append.2 ⟨h.reflogKeyed, by cases who <;> simp [writeReflogRows], ?_⟩
    intro i hi hj
    obtain ⟨x, hx, rfl⟩ := List.mem_map.1 hi
    obtain ⟨y, hy, hxy⟩ := List.mem_map.1 hj
    have := h.idsBelowSeq x hx
    rw [← hxy, (mem_writeReflogRows hy).1] at this
    exact lt_irrefl _ this
  · rw [hrefs] at hx
    rcases mem_upsertRef hx with rfl | hx
    · obtain ⟨n, v⟩ := ref
      cases v with
      | direct o =>
        simp only [GitReference.refTarget, RefTarget.oidValue, Option.mem_def,
          Option.some.injEq] at hc
        exact hc ▸ o.length_id
      | symbolic t => simp [GitReference.refTarget, RefTarget.oidValue] at hc
    · exact h.oidsSized x hx c hc
  · rw [hput, refsOf_putRef db h.refsKeyed]
    rw [hlog] at hx
    split
    · exact List.cons_ne_nil _ _
    · rcases List.mem_append.1 hx with hx | hx
      · exact h.logsOwned x hx
      · cases who <;> simp_all [writeReflogRows]

/-- An unforced, signed `pg_refdb_write` keeps the invariant, whichever statements the server
fails. -/
theorem RefdbInv.write (h : RefdbInv db) (w : WriteCall) (hw : w.force = false ∧ w.who.isSome) :
  RefdbInv (w.run db)
  := by
  obtain ⟨hk', hids', -⟩ := w.run_preserves h.refsKeyed h.idsBelowSeq
    (h.chains 0 "") fun _ _ => hw
  obtain ⟨-, -, hok, hfail⟩ := @pgRefdbWrite_allRuns db w.repo w.ref w.force w.who w.message w.old
    w.oldTarget h.refsKeyed w.fails
  have hchains := fun r n =>
    (w.run_preserves h.refsKeyed h.idsBelowSeq (h.chains r n) fun _ _ => hw).2.2
  rw [WriteCall.run] at hk' hids' hchains ⊢
  generalize (pgRefdbWrite w.repo w.ref w.force w.who w.message w.old w.oldTarget).run .idle db
    w.fails = R at hk' hids' hchains hok hfail
  by_cases hv : R.val = gitOk
  · obtain ⟨-, hrefs, hlog, -, -⟩ := hok hv
    obtain ⟨hl', hsz', howned'⟩ := h.written hrefs hlog
    exact ⟨hk', hl', hids', hsz', howned', hchains⟩
  · obtain ⟨hrefs, hlog, -⟩ := hfail hv
    refine ⟨hk', ?_, hids', ?_, ?_, hchains⟩
    · rw [Db.ReflogKeyed, hlog]
      exact h.reflogKeyed
    · rw [Db.OidsSized, hrefs]
      exact h.oidsSized
    · simpa only [Db.refsOf, hrefs, hlog] using h.logsOwned

/-- An unforced `pg_refdb_rename` keeps the invariant, whichever statements the server fails. -/
theorem RefdbInv.rename (h : RefdbInv db) (b : RepoId) (old new : String) (fails : List Bool) :
  RefdbInv ((pgRefdbRename b old new false).run .idle db fails).db
  := by
  obtain ⟨-, herr, hok⟩ :=
    @pgRefdbRename_allRuns db b old new false h.refsKeyed h.reflogKeyed h.oidsSized fails
  rcases hv : ((pgRefdbRename b old new false).run .idle db fails).val with e | ref
  · rw [herr e hv]
    exact h
  · obtain ⟨t, -, hx, hne, hfree, hdb⟩ := hok ref hv
    rw [hdb]
    exact h.renamedRef hne (by simp [hx]) (hfree rfl)

/-- The lock and an unlock that deletes or discards keep the invariant, whichever statements the
server fails. -/
theorem RefdbInv.unlock (h : RefdbInv db) (b : RepoId) (ref : GitReference) {success : Int}
    (hs : success ≠ 1) (updateReflog : Bool) (sig : Option Signature) (message : Option String)
    (fails : List Bool) :
  RefdbInv ((lockThenUnlock b ref success updateReflog sig message).run .idle db fails).db
  := by
  obtain ⟨-, -, hseq, hdb⟩ :=
    @lockThenUnlock_allRuns db b ref success updateReflog sig message h.reflogKeyed fails
  rcases hdb with ⟨hrefs, hlog⟩ | ⟨-, ⟨h1, -⟩ | ⟨-, hrefs, hlog⟩⟩
  · exact h.of_tables hrefs hlog hseq
  · exact absurd h1 hs
  · exact h.withoutRef.of_tables hrefs hlog hseq

end Calls

/-! ### Runs of calls -/

/-- One call of the refdb backend that changes refs, with the failures the server gives it. -/
inductive RefCall where
  /-- `pg_refdb_write`. -/
  | write (w : WriteCall)
  /-- `pg_refdb_del` of `name` with the expected OID or target. -/
  | del (repo : RepoId) (name : String) (oldId : Option Oid) (oldTarget : Option String)
      (fails : List Bool)
  /-- `pg_refdb_rename` of `old` to `new`. -/
  | rename (repo : RepoId) (old new : String) (force : Bool) (fails : List Bool)
  /-- `pg_refdb_lock` of `ref`'s name, then `pg_refdb_unlock` with the disposition `success`. -/
  | unlock (repo : RepoId) (ref : GitReference) (success : Int) (updateReflog : Bool)
      (sig : Option Signature) (message : Option String) (fails : List Bool)

/-- The committed tables after the call, made on an idle connection. -/
def RefCall.run : RefCall → Db → Db
  | .write w, db => w.run db
  | .del r name oldId oldTarget fails, db =>
    ((pgRefdbDel r name oldId oldTarget).run .idle db fails).db
  | .rename r old new force fails, db => ((pgRefdbRename r old new force).run .idle db fails).db
  | .unlock r ref success updateReflog sig message fails, db =>
    ((lockThenUnlock r ref success updateReflog sig message).run .idle db fails).db

/-- The committed tables after the calls, one after another. -/
def runRefCalls (db : Db) (cs : List RefCall) : Db := cs.foldl (fun db c => c.run db) db

/-- The calls that log what they change: writes unforced and signed, renames unforced, and unlocks
that delete or discard. -/
def RefCall.Logged : RefCall → Prop
  | .write w => w.force = false ∧ w.who.isSome
  | .del .. => True
  | .rename _ _ _ force _ => force = false
  | .unlock _ _ success _ _ _ _ => success ≠ 1

/-- A logged call keeps the invariant. -/
theorem RefdbInv.call {db : Db} (h : RefdbInv db) {c : RefCall} (hc : c.Logged) :
  RefdbInv (c.run db)
  := by
  cases c with
  | write w => exact h.write w hc
  | del r name oldId oldTarget fails => exact h.del oldId oldTarget fails
  | rename r old new force fails =>
    cases hc
    exact h.rename r old new fails
  | unlock r ref success updateReflog sig message fails =>
    exact h.unlock r ref hc updateReflog sig message fails

/-- A run of logged calls keeps the invariant. -/
theorem RefdbInv.run {db : Db} (h : RefdbInv db) {cs : List RefCall} (hcs : ∀ c ∈ cs, c.Logged) :
  RefdbInv (runRefCalls db cs)
  := by
  induction cs generalizing db with
  | nil => exact h
  | cons c cs ih =>
    exact ih (h.call (hcs c (List.mem_cons_self _ _))) fun c' hc' => hcs c' (List.mem_cons_of_mem _ hc')

/-- Over any run of the refdb backend's writes, deletes, renames and lock/unlock pairs from the
empty tables, in which every write is unforced and signed, every rename unforced and every unlock
a delete or a discard, whichever statements the server fails: the reflog of every name is a chain at the end (its ids increase, each row's old
value is the row before's new value, and the last row's new value is the ref's value now), every
reflog row belongs to a ref, and both tables keep their primary keys. -/
theorem reflog_chains_over_runs (cs : List RefCall) (hcs : ∀ c ∈ cs, c.Logged) :
  let db := runRefCalls Db.empty cs
  (∀ r name, ReflogChain db r name) ∧ (∀ x ∈ db.reflog, db.refsOf x.repo x.refName ≠ []) ∧
    db.RefsKeyed ∧ db.ReflogKeyed
  := by
  have h := RefdbInv.empty.run hcs
  exact ⟨h.chains, h.logsOwned, h.refsKeyed, h.reflogKeyed⟩

/-- `refs/heads/x` created at `aa..aa`, moved to `bb..bb` with the matching expectation, renamed
`refs/heads/y` and deleted, each signed where it is logged. -/
def sampleCalls : List RefCall :=
  [.write ⟨1, ⟨"refs/heads/x", .direct (Oid.ofByte 0xaa)⟩, false, some testUser, none, none, none,
      []⟩,
    .write ⟨1, ⟨"refs/heads/x", .direct (Oid.ofByte 0xbb)⟩, false, some testUser, none,
      some (Oid.ofByte 0xaa), none, []⟩,
    .rename 1 "refs/heads/x" "refs/heads/y" false [],
    .del 1 "refs/heads/x" none none []]

theorem reflog_chains_over_runs_of_sample :
  (∀ c ∈ sampleCalls, c.Logged) ∧
    let db := runRefCalls Db.empty sampleCalls
    (∀ r name, ReflogChain db r name) ∧ (∀ x ∈ db.reflog, db.refsOf x.repo x.refName ≠ []) ∧
      db.RefsKeyed ∧ db.ReflogKeyed
  := by
  have hcs : ∀ c ∈ sampleCalls, c.Logged := by
    simp [sampleCalls, RefCall.Logged]
  exact ⟨hcs, reflog_chains_over_runs sampleCalls hcs⟩

end Gitgres
