import Gitgres.Helper.PushList
import Gitgres.Odb.Writes

/-!
# The remote helper: a push, then a fetch

Before its ref updates, `push` copies every object of the local repository that the database
lacks: `push_copy_cb` asks `pg_odb_exists`, reads the local object, and `git_odb_write` hashes
it, asks again and calls the backend's `write`, which inserts the row `(repo_id, oid, type,
size, content)`.  `fetch` walks the stored OIDs of the repository with `pg_odb_foreach`, and
`fetch_copy_cb` reads each object the local repository lacks with `pg_odb_read` and writes it
locally, where libgit2 hashes it again.

Take a local repository whose objects have distinct OIDs, each libgit2's hash of the object's
type and data, with data below `2^30` bytes, and none of whose local reads or writes fail.  On a
server that fails no statement, the object copy of a push into a repository of the database
with no objects, then a fetch into a local repository with no objects, leaves the second local
repository with the objects of the first, in the same order.
-/

namespace Gitgres

/-- The row `pg_odb_write` inserts for a local object. -/
def LocalObject.row (r : RepoId) (o : LocalObject) : ObjectRow :=
  ⟨r, o.oid.id, toInt16 o.type, toInt32 o.data.length, o.data⟩

/-- A local object the copies carry whole: its OID is libgit2's hash of its type and data and
is not zero, its data is below `2^30` bytes, and neither a local read nor a local write of it
fails. -/
def LocalObject.Copyable (env : HelperEnv) (o : LocalObject) : Prop :=
  gitOdbHash env.sha1 o.type o.data = some o.oid ∧ o.oid.isZero = false ∧
    o.data.length < 2 ^ 30 ∧ env.readFails o.oid = false ∧ env.writeFails o.oid = false

instance (env : HelperEnv) (o : LocalObject) : Decidable (o.Copyable env) :=
  inferInstanceAs (Decidable (_ ∧ _ ∧ _ ∧ _ ∧ _))

theorem type_mem_of_gitOdbHash {sha1 : Bytes → Bytes} {t : Int} {d : Bytes} {o : Oid}
    (h : gitOdbHash sha1 t d = some o) :
  t ∈ [1, 2, 3, 4]
  := by
  unfold gitOdbHash gitTypeName at h
  split_ifs at h <;> simp_all

/-! ### The object copy of a push -/

/-- `pg_odb_exists` on a server that fails no statement: whether the key is stored. -/
theorem pgOdbExists_run (r : RepoId) (oid : Oid) (db : Db) :
  (pgOdbExists r oid).run .idle db [] =
    ⟨decide ((r, oid.id) ∈ db.objects.map ObjectRow.key), .idle, db, []⟩
  := by
  have hiff := objectsOf_isEmpty db r oid.id
  by_cases h : (r, oid.id) ∈ db.objects.map ObjectRow.key <;>
    simp_all [pgOdbExists, pqExecParams, Conn.idle_exec_query, Query.eval, Outcome.select,
      Outcome.result, PGresult.ntuples, List.length_pos]

theorem LocalRepo.read_of_mem {env : HelperEnv} {repo : LocalRepo} {o : LocalObject}
    (hnodup : (repo.objects.map LocalObject.oid).Nodup) (ho : o ∈ repo.objects)
    (hr : env.readFails o.oid = false) :
  repo.read env o.oid = some o
  := by
  rw [LocalRepo.read, hr, if_neg Bool.false_ne_true, List.find?_eq_some]
  obtain ⟨as, bs, hsplit⟩ := List.append_of_mem ho
  refine ⟨by simp, as, bs, hsplit, fun a ha => ?_⟩
  rw [hsplit, List.map_append, List.nodup_append] at hnodup
  simpa using fun h => hnodup.2.2 (List.mem_map_of_mem _ ha) (by simp [h])

/-- `push_copy_cb` on an object the database lacks inserts its row. -/
theorem pushCopyCb_run {env : HelperEnv} {repo : LocalRepo} {o : LocalObject}
    (hv : o.Copyable env) (hread : repo.read env o.oid = some o) (db : Db)
    (hnew : (env.repoId, o.oid.id) ∉ db.objects.map ObjectRow.key) :
  (pushCopyCb env repo o.oid).run .idle db [] =
    ⟨gitOk, .idle, { db with objects := db.objects ++ [o.row env.repoId] }, []⟩
  := by
  obtain ⟨hhash, hzero, -⟩ := hv
  have hempty := (objectsOf_isEmpty db env.repoId o.oid.id).2 hnew
  simp [pushCopyCb, gitOdbWritePg, pgOdbWrite, Prog.run_bind, pgOdbExists_run, hnew, hread, hhash,
    hzero, pqExecParams, Conn.idle_exec_insertObject, insertRow, ObjectRow.key, LocalObject.row]

/-- The object copy of `push` over objects the database lacks, with distinct OIDs, inserts their
rows in order. -/
theorem pushCopyAll_run {env : HelperEnv} {repo : LocalRepo} :
  ∀ {os : List LocalObject}, (∀ o ∈ os, o.Copyable env ∧ repo.read env o.oid = some o) →
    (os.map LocalObject.oid).Nodup → ∀ (db : Db),
    (∀ o ∈ os, (env.repoId, o.oid.id) ∉ db.objects.map ObjectRow.key) →
    (pushCopyAll env repo os).run .idle db [] =
      ⟨(), .idle, { db with objects := db.objects ++ os.map (LocalObject.row env.repoId) }, []⟩
  | [], _, _, _, _ => by simp [pushCopyAll]
  | o :: os, hv, hnodup, db, hnew => by
    rw [List.map_cons, List.nodup_cons] at hnodup
    have hrest : ∀ o' ∈ os, (env.repoId, o'.oid.id) ∉
        (db.objects ++ [o.row env.repoId]).map ObjectRow.key := fun o' ho' h => by
      simp only [List.map_append, List.mem_append, List.map_cons, List.map_nil,
        List.mem_singleton] at h
      rcases h with h | h
      · exact hnew o' (.tail _ ho') h
      · have : o'.oid = o.oid := Oid.ext (congrArg Prod.snd h)
        exact hnodup.1 (this ▸ List.mem_map_of_mem _ ho')
    simp only [pushCopyAll, Prog.bind_eq, Prog.run_bind,
      pushCopyCb_run (hv o (.head _)).1 (hv o (.head _)).2 db (hnew o (.head _)),
      pushCopyAll_run (fun o' ho' => hv o' (.tail _ ho')) hnodup.2
        { db with objects := db.objects ++ [o.row env.repoId] } hrest, List.append_assoc,
      List.map_cons, List.singleton_append]

/-! ### The fetch -/

/-- `fetch_copy_cb` on a stored object the local repository lacks writes it there. -/
theorem fetchCopyCb_run {env : HelperEnv} {B : LocalRepo} {o : LocalObject} (hv : o.Copyable env)
    (hB : B.exists o.oid = false) (db : Db)
    (hof : db.objectsOf env.repoId o.oid.id = [o.row env.repoId]) :
  (fetchCopyCb env B o.oid).run .idle db [] =
    ⟨(gitOk, { B with objects := B.objects ++ [o] }), .idle, db, []⟩
  := by
  obtain ⟨hhash, hzero, hlen, -, hwrite⟩ := hv
  have ht := toInt16_of_mem (type_mem_of_gitOdbHash hhash)
  have hs : sizeT (toInt32 (o.data.length : Int)) = o.data.length := by
    rw [toInt32_of_lt (by omega) (by omega), sizeT_of_nonneg (by omega) (by omega)]
    simp
  simp [fetchCopyCb, hB, Prog.run_bind, pgOdbRead_run hof, LocalObject.row, ht, hs,
    LocalRepo.write, hhash, hzero, hwrite]

/-- The loop of `pg_odb_foreach` with `fetch_copy_cb` over stored objects the local repository
lacks, with distinct OIDs, writes them there in order. -/
theorem forEachOid_fetchCopyCb {env : HelperEnv} {db : Db} :
  ∀ {os : List LocalObject} {B : LocalRepo}, (∀ o ∈ os, o.Copyable env ∧ B.exists o.oid = false ∧
      db.objectsOf env.repoId o.oid.id = [o.row env.repoId]) → (os.map LocalObject.oid).Nodup →
    (forEachOid (fetchCopyCb env) B (os.map LocalObject.oid)).run .idle db [] =
      ⟨(gitOk, { B with objects := B.objects ++ os }), .idle, db, []⟩
  | [], B, _, _ => by simp [forEachOid]
  | o :: os, B, hv, hnodup => by
    rw [List.map_cons, List.nodup_cons] at hnodup
    obtain ⟨hc, hB, hof⟩ := hv o (.head _)
    have hrest : ∀ o' ∈ os, o'.Copyable env ∧
        ({ B with objects := B.objects ++ [o] } : LocalRepo).exists o'.oid = false ∧
        db.objectsOf env.repoId o'.oid.id = [o'.row env.repoId] := fun o' ho' => by
      obtain ⟨hc', hB', hof'⟩ := hv o' (.tail _ ho')
      refine ⟨hc', ?_, hof'⟩
      have hne : o.oid ≠ o'.oid := fun h => hnodup.1 (h ▸ List.mem_map_of_mem _ ho')
      simpa [LocalRepo.exists, hne] using hB'
    simp only [forEachOid, Prog.bind_eq, Prog.run_bind, fetchCopyCb_run hc hB db hof, gitOk,
      ne_eq, not_true_eq_false, if_false, Prog.pure_eq, Prog.run_done,
      forEachOid_fetchCopyCb hrest hnodup.2, List.append_assoc, List.singleton_append]

/-- The OIDs a binary result of `bytea` rows holds, read back with `PQgetvalue`. -/
theorem map_range_getvalue {β : Type} (f : Bytes → β) :
  ∀ (bs : List Bytes) (res : PGresult), res.rows = bs.map (fun b => [Cell.bytea b]) →
    res.format = .binary → (List.range bs.length).map (fun i => f (res.getvalue i 0)) = bs.map f
  | [], _, _, _ => rfl
  | b :: bs, res, hrows, hfmt => by
    have hshift : (fun i => f (res.getvalue (i + 1) 0)) =
        fun i => f ({ res with rows := res.rows.tail }.getvalue i 0) := by
      funext i
      simp only [PGresult.getvalue, PGresult.cell_succ]
    rw [List.length_cons, List.range_succ_eq_map, List.map_cons, List.map_map]
    simp only [Function.comp_def, Nat.succ_eq_add_one, hshift]
    rw [map_range_getvalue f bs { res with rows := res.rows.tail } (by simp [hrows]) hfmt]
    simp [PGresult.getvalue, PGresult.cell, hrows, hfmt, Cell.raw]

/-- `pg_odb_foreach` on a server that fails no statement: the callback over the stored OIDs of
the repository, in storage order. -/
theorem pgOdbForeach_run {σ : Type} (r : RepoId) (cb : σ → Oid → Prog (Int × σ)) (payload : σ)
    (db : Db) :
  (pgOdbForeach r cb payload).run .idle db [] =
    (forEachOid cb payload ((db.objects.filter (·.repo = r)).map fun x => Oid.fromraw x.oid)).run
      .idle db []
  := by
  set xs := db.objects.filter (·.repo = r)
  set res : PGresult := ⟨.tuplesOk, (xs.map ObjectRow.oid).map (fun b => [Cell.bytea b]),
    ((xs.map ObjectRow.oid).map (fun b => [Cell.bytea b])).length, .binary⟩
  have hexec : Conn.idle.exec db (.query (.selectOids r)) .binary false = (res, .idle, db) := by
    simp [Conn.idle_exec_query, Query.eval, Outcome.select, Outcome.result, res, xs]
  have hoids := map_range_getvalue Oid.fromraw (xs.map ObjectRow.oid) res rfl rfl
  simp only [List.length_map] at hoids
  simp only [pgOdbForeach, Prog.bind_eq, pqExecParams_bind, Prog.run_exec, List.headD_nil, hexec,
    PGresult.ntuples, List.length_map, bne_self_eq_false, Bool.false_eq_true, if_false,
    Prog.done_bind, List.tail_nil, hoids, List.map_map, Function.comp_def, Prog.pure_eq]

/-- `fetch`, when the stored objects of the repository are those of `os` and the local repository
lacks them, on a server that fails no statement: it writes them locally, in order, and prints a
blank line. -/
theorem fetchAnswer_run {env : HelperEnv} (hopen : env.openFails = false) (h : Helper) (db : Db)
    {os : List LocalObject}
    (hstored : (db.objects.filter (·.repo = env.repoId)).map (fun x => Oid.fromraw x.oid) =
      os.map LocalObject.oid)
    (hv : ∀ o ∈ os, o.Copyable env ∧ h.repo.exists o.oid = false ∧
      db.objectsOf env.repoId o.oid.id = [o.row env.repoId])
    (hnodup : (os.map LocalObject.oid).Nodup) :
  (fetchAnswer env h).run .idle db [] =
    ⟨{ h with repo := { h.repo with objects := h.repo.objects ++ os } }.printLn "", .idle, db, []⟩
  := by
  simp only [fetchAnswer, hopen, Bool.false_eq_true, if_false, Prog.bind_eq, Prog.run_bind,
    pgOdbForeach_run, hstored, forEachOid_fetchCopyCb hv hnodup, Prog.pure_eq, Prog.run_done]

/-- On a server that fails no statement: the object copy of a push, into a repository of the
database with no objects, of a local repository whose objects have distinct OIDs, each libgit2's
hash of its type and data, with data below `2^30` bytes and no failing local read or write,
stores one row per object, in order; a fetch then writes every one of them, in the same order, into
a local repository that lacks them, and changes no table. -/
theorem fetch_after_push_copies_objects (env : HelperEnv) (hopen : env.openFails = false)
    (db : Db) (hfresh : ∀ x ∈ db.objects, x.repo ≠ env.repoId) (A : LocalRepo)
    (hnodup : (A.objects.map LocalObject.oid).Nodup) (hv : ∀ o ∈ A.objects, o.Copyable env)
    (h : Helper) (hlacks : ∀ o ∈ A.objects, h.repo.exists o.oid = false) :
  let P := (pushCopyAll env A A.objects).run .idle db []
  let F := (fetchAnswer env h).run .idle P.db []
  P.db.objects = db.objects ++ A.objects.map (LocalObject.row env.repoId) ∧
    F.val.repo.objects = h.repo.objects ++ A.objects ∧ F.db = P.db
  := by
  have hnew : ∀ o ∈ A.objects, (env.repoId, o.oid.id) ∉ db.objects.map ObjectRow.key :=
    fun o _ hmem => by
      obtain ⟨x, hx, hkey⟩ := List.mem_map.1 hmem
      exact hfresh x hx (congrArg Prod.fst hkey)
  have hP := pushCopyAll_run (fun o ho => ⟨hv o ho, LocalRepo.read_of_mem hnodup ho (hv o ho).2.2.2.1⟩)
    hnodup db hnew
  set rows := A.objects.map (LocalObject.row env.repoId)
  have hkeys : (rows.map ObjectRow.key).Nodup := by
    have hinj : Function.Injective fun o : Oid => (env.repoId, o.id) := fun a b hab =>
      Oid.ext (congrArg Prod.snd hab)
    simpa [rows, List.map_map, Function.comp_def, ObjectRow.key, LocalObject.row] using
      hnodup.map hinj
  have hnone (P : ObjectRow → Bool) (hP : ∀ x, P x → x.repo = env.repoId) :
      db.objects.filter P = [] :=
    List.filter_eq_nil_iff.2 fun x hx hPx => hfresh x hx (hP x hPx)
  have hstored : ((db.objects ++ rows).filter (·.repo = env.repoId)).map
      (fun x => Oid.fromraw x.oid) = A.objects.map LocalObject.oid := by
    rw [List.filter_append, hnone _ fun x hx => by simpa using hx, List.nil_append,
      List.filter_eq_self.2 fun x hx => by
        obtain ⟨o, -, rfl⟩ := List.mem_map.1 hx
        simp [LocalObject.row]]
    simp [rows, LocalObject.row, Oid.fromraw_self, Function.comp_def]
  have hof (o : LocalObject) (ho : o ∈ A.objects) :
      ({ db with objects := db.objects ++ rows } : Db).objectsOf env.repoId o.oid.id =
        [o.row env.repoId] := by
    rw [Db.objectsOf, List.filter_append, hnone _ fun x hx => by simp at hx; exact hx.1,
      List.nil_append]
    exact filter_key_eq_singleton hkeys (List.mem_map_of_mem _ ho)
  simp only [hP, true_and]
  rw [fetchAnswer_run hopen h _ hstored (fun o ho => ⟨hv o ho, hlacks o ho, hof o ho⟩) hnodup]
  exact ⟨rfl, rfl⟩

/-- Repository 1, with SHA-1 stood in for by the first twenty bytes of its input padded with
zeros, and no failing local read or write. -/
def sampleHelperEnv : HelperEnv :=
  ⟨fun b => (b ++ List.replicate 20 0).take 20, 1, false, fun _ => false, fun _ => false⟩

/-- The blobs `hi` and `ho` under their hashes. -/
def sampleSource : LocalRepo :=
  ⟨[⟨Oid.fromraw (objectHash sampleHelperEnv.sha1 "blob" (utf8 "hi")), 3, utf8 "hi"⟩,
    ⟨Oid.fromraw (objectHash sampleHelperEnv.sha1 "blob" (utf8 "ho")), 3, utf8 "ho"⟩], []⟩

/-- A helper whose local repository is empty. -/
def emptyHelper : Helper := ⟨[], [], ⟨[], []⟩, none⟩

theorem fetch_after_push_copies_objects_of_blobs :
  sampleHelperEnv.openFails = false ∧ (∀ x ∈ Db.empty.objects, x.repo ≠ sampleHelperEnv.repoId) ∧
    (sampleSource.objects.map LocalObject.oid).Nodup ∧
    (∀ o ∈ sampleSource.objects, o.Copyable sampleHelperEnv) ∧
    (∀ o ∈ sampleSource.objects, emptyHelper.repo.exists o.oid = false) ∧
    let P := (pushCopyAll sampleHelperEnv sampleSource sampleSource.objects).run .idle Db.empty []
    let F := (fetchAnswer sampleHelperEnv emptyHelper).run .idle P.db []
    P.db.objects = Db.empty.objects ++ sampleSource.objects.map (LocalObject.row 1) ∧
      F.val.repo.objects = emptyHelper.repo.objects ++ sampleSource.objects ∧ F.db = P.db
  := ⟨rfl, by decide, by decide, by decide, by decide,
    fetch_after_push_copies_objects sampleHelperEnv rfl Db.empty (by decide) sampleSource
      (by decide) (by decide) emptyHelper (by decide)⟩

end Gitgres
