import Gitgres.Helper.Transcript
import Gitgres.Helper.FastForward
import Gitgres.Refdb.RefUpdate

/-!
# A push, then a list

What `list` prints after a push block whose lines all get `ok`.  The ref updates of `cmd_push`
give a destination its source's OID, or delete it for an empty source, and `HEAD`, when the
repository has none, is made symbolic to the first destination; every other name keeps what it
held (`pushedTarget`).  `cmd_list` then prints the direct refs other than `HEAD` in the order of
their names, as `<hex> <name>` (`listEntries`), the line of `HEAD` (`headLine`), and a blank
line.  Both loops of `cmd_list` test a C string with `strlen(...) > 0`, so a ref whose OID is
empty and a `HEAD` whose symbolic target is empty print nothing.

The runs are those in which the statements of the ref updates succeed: an upsert must, for its
line to be `ok`, and a `DELETE` is answered `ok` whether or not it does.  The object copy and the
statements that make `HEAD` symbolic may fail: the copy never touches the refs, and a failed
`SELECT` or `INSERT` of `HEAD` leaves `HEAD` as it was.  The `SELECT` of `list` succeeds; when it
fails, `cmd_list` stops the helper.
-/

namespace Gitgres

/-! ### What the two commands show -/

/-- The target of the ref `(r, name)`, if there is one. -/
def Db.targetOf (db : Db) (r : RepoId) (name : String) : Option RefTarget :=
  (db.refsOf r name).head?.map RefRow.target

/-- The name and OID of a ref row that `list` prints as `<hex> <name>`: a direct ref other than
`HEAD` whose OID is not empty. -/
def listEntry (x : RefRow) : Option (String × Bytes) :=
  match x.target with
  | .oid b => if x.name ≠ "HEAD" ∧ b ≠ [] then some (x.name, b) else none
  | .symbolic _ => none

/-- The entries of the refs of `r`, in the order of their names. -/
def listEntries (db : Db) (r : RepoId) : List (String × Bytes) :=
  (byName (db.refs.filter (·.repo = r))).filterMap listEntry

/-- The line of an entry: the OID in hex, a space and the name. -/
def entryLine (e : String × Bytes) : String := hexEncode e.2 ++ " " ++ e.1

/-- The line `list` prints for `HEAD`, given what each name holds: `@T HEAD` when `HEAD` is
symbolic to a non-empty `T` that holds a direct ref, `<hex> HEAD` when `HEAD` holds a non-empty
OID, and none otherwise. -/
def headLine (target : String → Option RefTarget) : Option String :=
  match target "HEAD" with
  | some (.symbolic t) =>
    match target t with
    | some (.oid _) => if t ≠ "" then some ("@" ++ t ++ " HEAD") else none
    | _ => none
  | some (.oid b) => if b ≠ [] then some (hexEncode b ++ " HEAD") else none
  | none => none

/-- What `name` holds after a push block with distinct destinations, every source of which
resolves: a destination its source's OID, or nothing for an empty source; `HEAD`, when the
repository had none, the first destination as its symbolic target; any other name what it
held. -/
def pushedTarget (db : Db) (r : RepoId) (repo : LocalRepo) (specs : List PushSpec)
    (name : String) : Option RefTarget :=
  match specs.find? fun s => (⟨s.dst⟩ : String) = name with
  | some s => if s.src = [] then none else (resolveSrc repo s.src).map fun o => .oid o.id
  | none =>
    if name = "HEAD" ∧ db.refsOf r "HEAD" = [] ∧ specs ≠ [] then
      some (.symbolic ⟨(specs.headD ⟨[], [], false⟩).dst⟩)
    else db.targetOf r name

/-! ### The ref updates -/

/-- The tables after the ref update of one spec in which the server fails no statement. -/
def pushRow (r : RepoId) (repo : LocalRepo) (spec : PushSpec) (db : Db) : Db :=
  if spec.src = [] then (Change.delRef r ⟨spec.dst⟩).apply db
  else match resolveSrc repo spec.src with
    | some o => (Change.putRef ⟨r, ⟨spec.dst⟩, .oid o.id⟩).apply db
    | none => db

/-- The tables after the ref updates of `cmd_push` in which the server fails no statement. -/
def pushRows (r : RepoId) (repo : LocalRepo) (specs : List PushSpec) (db : Db) : Db :=
  specs.foldl (fun db s => pushRow r repo s db) db

/-- The line every spec gets when its update succeeds. -/
def okLine (spec : PushSpec) : String := "ok " ++ ⟨spec.dst⟩

theorem delRef_apply_of_refsOf_nil {db : Db} {r : RepoId} {name : String}
    (h : db.refsOf r name = []) :
  (Change.delRef r name).apply db = db
  := by
  have hrefs : db.refs.filter (fun x => !(x.repo = r ∧ x.name = name)) = db.refs :=
    List.filter_eq_self.2 fun x hx => by
      have hx' := List.filter_eq_nil_iff.1 h x hx
      simp only [decide_eq_true_eq] at hx'
      simp [hx']
  simp only [Change.apply, hrefs]

/-- The update of one spec whose source resolves, or is empty, is answered `ok` when its
statement succeeds. -/
theorem pushRef_run_ok {env : HelperEnv} {repo : LocalRepo} {spec : PushSpec}
    (hres : spec.src ≠ [] → (resolveSrc repo spec.src).isSome) (db : Db) {fails : List Bool}
    (hf : fails.headD false = false) :
  (pushRef env repo spec).run .idle db fails =
    ⟨okLine spec, .idle, pushRow env.repoId repo spec db, fails.tail⟩
  := by
  by_cases hsrc : spec.src = []
  · obtain ⟨src, dst, force⟩ := spec
    obtain rfl : src = [] := hsrc
    rw [pushRef_delete_run, hf, if_neg Bool.false_ne_true]
    simp [pushRow, okLine, Change.apply]
  · obtain ⟨o, ho⟩ := Option.isSome_iff_exists.1 (hres hsrc)
    rw [pushRef_run hsrc ho, hf, if_neg Bool.false_ne_true]
    simp [pushRow, hsrc, ho, okLine, Change.apply]

/-- Failure flags whose first `n + 1` are off: the first is off, and so are the next `n`. -/
theorem headD_tail_of_take {fails : List Bool} {n : Nat}
    (hf : ∀ x ∈ fails.take (n + 1), x = false) :
  fails.headD false = false ∧ ∀ x ∈ fails.tail.take n, x = false
  := by
  cases fails <;> simp_all

/-- The ref updates, each of whose sources resolves or is empty, are all answered `ok` when
their statements succeed. -/
theorem pushRefs_run (env : HelperEnv) (specs : List PushSpec) (h : Helper)
    (hres : ∀ s ∈ specs, s.src ≠ [] → (resolveSrc h.repo s.src).isSome) (db : Db)
    {fails : List Bool} (hf : ∀ x ∈ fails.take specs.length, x = false) :
  (pushRefs env specs h).run .idle db fails =
    ⟨{ h with output := h.output ++ printed (specs.map okLine) }, .idle,
      pushRows env.repoId h.repo specs db, fails.drop specs.length⟩
  := by
  induction specs generalizing h db fails with
  | nil => simp [pushRefs, pushRows, printed, render]
  | cons s ss ih =>
    obtain ⟨hhead, htail⟩ := headD_tail_of_take hf
    simp only [pushRefs, Prog.bind_eq, Prog.run_bind, pushRef_run_ok (hres s (.head _)) db hhead,
      List.map_cons, pushRows, List.foldl_cons]
    rw [ih (h.printLn (okLine s)) (fun s' hs' => hres s' (.tail _ hs')) _ htail, printLn_printed,
      List.drop_tail]
    rfl

/-! ### The object copy -/

/-- A query whose changes leave the ref table as it is. -/
def Query.KeepsRefs (q : Query) : Prop :=
  ∀ v, ∀ ch ∈ (q.eval v).changes, ∀ d : Db, (ch.apply d).refs = d.refs

theorem applyAll_refs_of_keepsRefs {cs : List Change} (h : ∀ ch ∈ cs, ∀ d : Db, (ch.apply d).refs = d.refs)
    (d : Db) :
  (d.applyAll cs).refs = d.refs
  := by
  induction cs generalizing d with
  | nil => rfl
  | cons c cs ih =>
    rw [Db.applyAll_cons, ih (fun ch hch => h ch (.tail _ hch)), h c (.head _)]

/-- A program of queries that keep the ref table, run outside a transaction, stays outside one
and keeps the ref table, whichever statements the server fails. -/
theorem Prog.Sends.run_keepsRefs {α : Type} {p : Prog α}
    (hp : p.Sends fun s => ∃ q, s = .query q ∧ q.KeepsRefs) (db : Db) (fails : List Bool) :
  (p.run .idle db fails).conn = .idle ∧ (p.run .idle db fails).db.refs = db.refs
  := by
  induction hp generalizing db fails with
  | done a => exact ⟨rfl, rfl⟩
  | exec hs _ ih =>
    obtain ⟨q, rfl, hq⟩ := hs
    simp only [Prog.run_exec, Conn.exec, Conn.idle]
    split
    · exact ih _ _ _
    · refine (ih _ _ _).imp_right fun h => h.trans ?_
      exact applyAll_refs_of_keepsRefs (hq db) db

theorem selectObjectExists_keepsRefs (r : RepoId) (oid : Bytes) :
  (Query.selectObjectExists r oid).KeepsRefs
  := fun v ch hch => by simp [Query.eval, Outcome.select] at hch

theorem insertObject_keepsRefs (r : RepoId) (oid : Option Bytes) (type size : Int) (content : Bytes) :
  (Query.insertObject r oid type size content).KeepsRefs
  := fun v ch hch d => by
  simp only [Query.eval] at hch
  split at hch
  · simp [Outcome.error] at hch
  · split at hch <;> simp_all [Outcome.command, Change.apply]

/-- The object copy of `cmd_push` sends only object lookups and inserts. -/
theorem pushCopyAll_keepsRefs (env : HelperEnv) (repo : LocalRepo) (os : List LocalObject) :
  (pushCopyAll env repo os).Sends fun s => ∃ q, s = .query q ∧ q.KeepsRefs
  := by
  have hexists (oid : Oid) : (pgOdbExists env.repoId oid).Sends
      fun s => ∃ q, s = .query q ∧ q.KeepsRefs := by
    simp only [pgOdbExists, Prog.bind_eq, pqExecParams_bind, Prog.sends_exec]
    exact ⟨⟨_, rfl, selectObjectExists_keepsRefs _ _⟩, fun _ => by split <;> simp⟩
  induction os with
  | nil => simp [pushCopyAll]
  | cons o os ih =>
    refine Prog.Sends.bind ?_ fun _ => ih
    simp only [pushCopyCb, Prog.bind_eq, Prog.pure_eq, Prog.done_bind]
    refine Prog.Sends.bind (hexists _) fun e => ?_
    split
    · simp
    · split
      · simp
      · refine Prog.Sends.bind ?_ fun _ => by simp
        simp only [gitOdbWritePg]
        split
        · simp
        · split
          · simp
          · refine Prog.Sends.bind (hexists _) fun _ => ?_
            split
            · simp
            · simp only [pgOdbWrite, Prog.bind_eq, Prog.pure_eq, Prog.done_bind, pqExecParams_bind,
                Prog.sends_exec]
              exact ⟨⟨_, rfl, insertObject_keepsRefs _ _ _ _ _⟩, fun _ => by split <;> simp⟩

/-! ### The push block -/

/-- The tables after `cmd_push` makes `HEAD` symbolic to the first destination, when the
repository has no `HEAD`. -/
def headRow (r : RepoId) (specs : List PushSpec) (db : Db) : Db :=
  if db.refsOf r "HEAD" = [] ∧ specs ≠ [] then
    (Change.putRef ⟨r, "HEAD", .symbolic ⟨(specs.headD ⟨[], [], false⟩).dst⟩⟩).apply db
  else db

/-- The end of `cmd_push`: `HEAD` made symbolic to the first destination when the repository
has none, then the blank line. -/
def pushHeadInsert (r : RepoId) (specs : List PushSpec) (h : Helper) : Prog Helper := do
  let res ← pqExecParams (.selectRefExists r "HEAD") .text
  if res.status = .tuplesOk && res.ntuples = 0 && specs.length > 0 then
    let _ ← pqExecParams (.insertRefSymbolic r "HEAD" ⟨(specs.headD ⟨[], [], false⟩).dst⟩) .text
  return h.printLn ""

theorem pushAnswer_eq (env : HelperEnv) (specs : List PushSpec) (h : Helper) :
  pushAnswer env specs h = if env.openFails then pure h.die else (do
    pushCopyAll env h.repo h.repo.objects
    let h ← pushRefs env specs h
    pushHeadInsert env.repoId specs h)
  := rfl

/-- The end of `cmd_push`, whichever of its statements the server fails, prints the blank line
and changes the tables by the `HEAD` insert or not at all. -/
theorem pushHeadInsert_run (r : RepoId) (specs : List PushSpec) (h : Helper) (d : Db)
    (fails : List Bool) :
  ((pushHeadInsert r specs h).run .idle d fails).val = h.printLn "" ∧
    (((pushHeadInsert r specs h).run .idle d fails).db = d ∨
      ((pushHeadInsert r specs h).run .idle d fails).db = headRow r specs d)
  := by
  simp only [pushHeadInsert, pqExecParams, Prog.bind_eq, Prog.pure_eq, Prog.run_exec,
    Prog.exec_bind, Prog.done_bind]
  cases fails.headD false
  · -- the `SELECT` succeeds: the `INSERT` runs when it finds no `HEAD` and there is a spec
    rcases hhead : d.refsOf r "HEAD" with _ | ⟨x, xs⟩ <;> cases specs <;>
      simp [Conn.exec, Conn.idle, Query.eval, Outcome.select, Outcome.result, PGresult.ntuples,
        hhead, headRow]
    split <;> simp [Outcome.command, Outcome.result, Change.apply, PGresult.error]
  · simp [Conn.exec, Conn.idle, PGresult.error]

/-- A push block each of whose sources resolves or is empty, in a run in which the statements of
the ref updates succeed, whatever the object copy and the end of `cmd_push` do: the object copy
keeps the ref table, every spec is answered `ok`, and the tables are those of the ref updates,
with or without the `HEAD` insert. -/
theorem pushAnswer_run {env : HelperEnv} (hopen : env.openFails = false) (specs : List PushSpec)
    (h : Helper) (hres : ∀ s ∈ specs, s.src ≠ [] → (resolveSrc h.repo s.src).isSome) (db : Db)
    (fails : List Bool)
    (hrefs : ∀ x ∈ ((pushCopyAll env h.repo h.repo.objects).run .idle db fails).fails.take
      specs.length, x = false) :
  ∃ db₁ : Db, db₁.refs = db.refs ∧
    ((pushAnswer env specs h).run .idle db fails).val =
      { h with output := h.output ++ printed (specs.map okLine) ++ ['\n'] } ∧
    (((pushAnswer env specs h).run .idle db fails).db = pushRows env.repoId h.repo specs db₁ ∨
      ((pushAnswer env specs h).run .idle db fails).db =
        headRow env.repoId specs (pushRows env.repoId h.repo specs db₁))
  := by
  have hcopy := (pushCopyAll_keepsRefs env h.repo h.repo.objects).run_keepsRefs db fails
  refine ⟨_, hcopy.2, ?_⟩
  rw [pushAnswer_eq]
  simp only [hopen, Bool.false_eq_true, if_false, Prog.bind_eq, Prog.run_bind, hcopy.1,
    pushRefs_run env specs h hres _ hrefs]
  obtain ⟨hval, hdb⟩ := pushHeadInsert_run env.repoId specs
    { h with output := h.output ++ printed (specs.map okLine) } _ _
  exact ⟨hval.trans (by simp [Helper.printLn]), hdb⟩

/-! ### What each name holds after the push -/

section Targets

variable {db : Db} {r : RepoId} {repo : LocalRepo}

theorem Db.RefsKeyed.pushRow (hk : db.RefsKeyed) (spec : PushSpec) :
  (pushRow r repo spec db).RefsKeyed
  := by
  unfold Gitgres.pushRow
  split
  · exact hk.delRef _ _
  · split
    · exact hk.putRef _
    · exact hk

theorem Db.RefsKeyed.pushRows (hk : db.RefsKeyed) (specs : List PushSpec) :
  (pushRows r repo specs db).RefsKeyed
  := by
  induction specs generalizing db with
  | nil => exact hk
  | cons s ss ih => exact ih (hk.pushRow s)

theorem targetOf_pushRow (hk : db.RefsKeyed) {spec : PushSpec}
    (hres : spec.src ≠ [] → (resolveSrc repo spec.src).isSome) (name : String) :
  (pushRow r repo spec db).targetOf r name =
    if (⟨spec.dst⟩ : String) = name then
      (if spec.src = [] then none else (resolveSrc repo spec.src).map fun o => .oid o.id)
    else db.targetOf r name
  := by
  unfold pushRow Db.targetOf
  by_cases hsrc : spec.src = []
  · simp only [hsrc, if_true, refsOf_delRef, true_and]
    split <;> rfl
  · obtain ⟨o, ho⟩ := Option.isSome_iff_exists.1 (hres hsrc)
    simp only [hsrc, if_false, ho, refsOf_putRef db hk, true_and]
    split <;> rfl

/-- After the ref updates of distinct destinations, a destination holds what its spec gives it
and every other name what it held. -/
theorem targetOf_pushRows (hk : db.RefsKeyed) {specs : List PushSpec}
    (hdst : (specs.map PushSpec.dst).Nodup)
    (hres : ∀ s ∈ specs, s.src ≠ [] → (resolveSrc repo s.src).isSome) (name : String) :
  (pushRows r repo specs db).targetOf r name =
    match specs.find? fun s => (⟨s.dst⟩ : String) = name with
    | some s => if s.src = [] then none else (resolveSrc repo s.src).map fun o => .oid o.id
    | none => db.targetOf r name
  := by
  induction specs generalizing db with
  | nil => rfl
  | cons s ss ih =>
    rw [List.map_cons, List.nodup_cons] at hdst
    have hss := ih (@Db.RefsKeyed.pushRow _ r repo hk s) hdst.2 fun s' hs' => hres s' (.tail _ hs')
    rw [show pushRows r repo (s :: ss) db = pushRows r repo ss (pushRow r repo s db) from rfl, hss,
      List.find?_cons]
    by_cases hname : (⟨s.dst⟩ : String) = name
    · have hnone : ss.find? (fun s' => (⟨s'.dst⟩ : String) = name) = none :=
        List.find?_eq_none.2 fun s' hs' h => hdst.1 <| by
          have : s'.dst = s.dst := String.ext_iff.1 ((of_decide_eq_true h).trans hname.symm)
          exact this ▸ List.mem_map_of_mem _ hs'
      simp only [hnone, hname, decide_True, targetOf_pushRow hk (hres s (.head _)), if_true]
    · simp only [hname, decide_False]
      cases ss.find? fun s' => decide ((⟨s'.dst⟩ : String) = name) with
      | none => simp only [targetOf_pushRow hk (hres s (.head _)), hname, if_false]
      | some s' => rfl

theorem targetOf_headRow (hk : db.RefsKeyed) (specs : List PushSpec) (name : String) :
  (headRow r specs db).targetOf r name =
    if name = "HEAD" ∧ db.refsOf r "HEAD" = [] ∧ specs ≠ [] then
      some (.symbolic ⟨(specs.headD ⟨[], [], false⟩).dst⟩)
    else db.targetOf r name
  := by
  unfold headRow Db.targetOf
  by_cases hhead : db.refsOf r "HEAD" = [] ∧ specs ≠ []
  · rw [if_pos hhead, refsOf_putRef db hk]
    by_cases hname : name = "HEAD"
    · simp [hname, hhead]
    · simp [hname, Ne.symm hname]
  · simp only [hhead, if_false, and_false]

theorem Db.targetOf_eq_none_iff {name : String} :
  db.targetOf r name = none ↔ db.refsOf r name = []
  := by simp [Db.targetOf]

/-- After the object copy, which keeps the ref table, and the ref updates, every name other than
`HEAD` holds what the push block says and `HEAD` what it held; after the `HEAD` insert as well,
every name holds what the push block says. -/
theorem targetOf_afterPush (hk : db.RefsKeyed) {db₁ : Db} (h₁ : db₁.refs = db.refs)
    {specs : List PushSpec} (hdst : (specs.map PushSpec.dst).Nodup)
    (hhead : ∀ s ∈ specs, s.dst ≠ "HEAD".toList)
    (hres : ∀ s ∈ specs, s.src ≠ [] → (resolveSrc repo s.src).isSome) :
  (∀ name, name ≠ "HEAD" →
      (pushRows r repo specs db₁).targetOf r name = pushedTarget db r repo specs name) ∧
    (pushRows r repo specs db₁).targetOf r "HEAD" = db.targetOf r "HEAD" ∧
    ∀ name, (headRow r specs (pushRows r repo specs db₁)).targetOf r name =
      pushedTarget db r repo specs name
  := by
  have hk₁ : db₁.RefsKeyed := by unfold Db.RefsKeyed; rw [h₁]; exact hk
  have htarget₁ (n : String) : db₁.targetOf r n = db.targetOf r n := by
    simp only [Db.targetOf, Db.refsOf, h₁]
  have hnoHead : specs.find? (fun s => (⟨s.dst⟩ : String) = "HEAD") = none :=
    List.find?_eq_none.2 fun s hs h => hhead s hs (String.ext_iff.1 (of_decide_eq_true h))
  have hrows (name : String) (hname : name ≠ "HEAD") :
      (pushRows r repo specs db₁).targetOf r name = pushedTarget db r repo specs name := by
    rw [targetOf_pushRows hk₁ hdst hres, pushedTarget]
    simp only [hname, false_and, if_false]
    cases specs.find? fun s => decide ((⟨s.dst⟩ : String) = name) with
    | none => exact htarget₁ name
    | some s => rfl
  have hrowsHead : (pushRows r repo specs db₁).targetOf r "HEAD" = db.targetOf r "HEAD" := by
    rw [targetOf_pushRows hk₁ hdst hres, hnoHead, htarget₁]
  refine ⟨hrows, hrowsHead, fun name => ?_⟩
  rw [targetOf_headRow (hk₁.pushRows specs)]
  by_cases hname : name = "HEAD"
  · subst hname
    have hHEAD : (pushRows r repo specs db₁).refsOf r "HEAD" = [] ↔ db.refsOf r "HEAD" = [] := by
      rw [← Db.targetOf_eq_none_iff, ← Db.targetOf_eq_none_iff, hrowsHead]
    simp only [hHEAD, pushedTarget, hnoHead, hrowsHead]
  · simp only [hname, false_and, if_false]
    exact hrows name hname

end Targets

/-! ### The rows of `cmd_list` -/

/-- The OID text `list` keeps for a direct `HEAD`: its hex, when the OID is not empty. -/
def RefTarget.nonemptyHex : RefTarget → Option String
  | .oid b => if b ≠ [] then some (hexEncode b) else none
  | .symbolic _ => none

/-- The target `list` keeps for a symbolic `HEAD`: the target, when it is not empty. -/
def RefTarget.nonemptySymbolic : RefTarget → Option String
  | .oid _ => none
  | .symbolic t => if t ≠ "" then some t else none

@[simp]
theorem RefTarget.nonemptyHex_oid (b : Bytes) :
  (RefTarget.oid b).nonemptyHex = if b ≠ [] then some (hexEncode b) else none
  := rfl

@[simp]
theorem RefTarget.nonemptyHex_symbolic (t : String) :
  (RefTarget.symbolic t).nonemptyHex = none
  := rfl

@[simp]
theorem RefTarget.nonemptySymbolic_oid (b : Bytes) :
  (RefTarget.oid b).nonemptySymbolic = none
  := rfl

@[simp]
theorem RefTarget.nonemptySymbolic_symbolic (t : String) :
  (RefTarget.symbolic t).nonemptySymbolic = if t ≠ "" then some t else none
  := rfl

/-- The row `SELECT name, encode(oid, 'hex'), symbolic` returns for a ref row. -/
def hexRow (x : RefRow) : List Cell := [.text x.name, x.target.hexCell, x.target.symbolicCell]

theorem String.length_pos_iff_ne_empty {t : String} :
  0 < t.length ↔ t ≠ ""
  := by
  rcases t with ⟨cs⟩
  simp [String.length, List.length_pos, String.ext_iff]

theorem PGresult.cell_succ (res : PGresult) (i c : Nat) :
  res.cell (i + 1) c = { res with rows := res.rows.tail }.cell i c
  := by
  rcases res with ⟨_, _ | ⟨_, _⟩, _, _⟩ <;> rfl

theorem listRows_map_succ (res : PGresult) (is : List Nat) :
  listRows res (is.map Nat.succ) = listRows { res with rows := res.rows.tail } is
  := by
  induction is with
  | nil => rfl
  | cons i is ih =>
    simp only [List.map_cons, listRows, ih, PGresult.getstr, PGresult.getisnull,
      PGresult.cell_succ]

/-- The first loop of `cmd_list` over the rows of the refs `xs`: the lines of the direct refs
other than `HEAD` with a non-empty OID, and the OID text and the symbolic target of `HEAD`. -/
theorem listRows_hexRows (xs : List RefRow) (res : PGresult) (hrows : res.rows = xs.map hexRow)
    (hfmt : res.format = .text) :
  listRows res (List.range xs.length) =
    ((xs.filterMap listEntry).map entryLine,
      xs.findSome? (fun x => if x.name = "HEAD" then x.target.nonemptyHex else none),
      xs.findSome? (fun x => if x.name = "HEAD" then x.target.nonemptySymbolic else none))
  := by
  induction xs generalizing res with
  | nil => rfl
  | cons x xs ih =>
    rw [List.length_cons, List.range_succ_eq_map, listRows, listRows_map_succ,
      ih { res with rows := res.rows.tail } (by simp [hrows]) hfmt]
    have hcell (c : Nat) : res.cell 0 c = (hexRow x).getD c .null := by
      simp [PGresult.cell, hrows]
    rcases x with ⟨repo, name, b | t⟩ <;>
      simp only [listRows, PGresult.getstr, PGresult.getisnull, hcell, hexRow, hfmt,
        RefTarget.hexCell, RefTarget.symbolicCell, List.getD_cons_zero, List.getD_cons_succ, Cell.str]
    · by_cases hname : name = "HEAD" <;> by_cases hb : b = [] <;>
        simp [hname, hb, listEntry, entryLine, length_hexEncode, List.length_pos]
    · by_cases hname : name = "HEAD" <;> by_cases ht : t = "" <;>
        simp [hname, ht, listEntry, String.length_pos_iff_ne_empty]

/-- The second loop of `cmd_list`, which looks for the row of `HEAD`'s symbolic target with an
OID, finds one exactly when some ref of that name is direct. -/
theorem find?_range_hexRows (xs : List RefRow) (res : PGresult) (hrows : res.rows = xs.map hexRow)
    (hfmt : res.format = .text) (sym : String) :
  ((List.range xs.length).find? fun i => res.getstr i 0 = sym && !res.getisnull i 1).isSome =
    xs.any fun x => decide (x.name = sym) && !decide (x.target.hexCell = .null)
  := by
  induction xs generalizing res with
  | nil => rfl
  | cons x xs ih =>
    have hcell (c : Nat) : res.cell 0 c = (hexRow x).getD c .null := by
      simp [PGresult.cell, hrows]
    have hshift : ((fun i => res.getstr i 0 = sym && !res.getisnull i 1) ∘ Nat.succ) =
        fun i => { res with rows := res.rows.tail }.getstr i 0 = sym &&
          !{ res with rows := res.rows.tail }.getisnull i 1 := by
      funext i
      simp only [Function.comp, PGresult.getstr, PGresult.getisnull, PGresult.cell_succ]
    rw [List.length_cons, List.range_succ_eq_map, List.find?_cons, List.any_cons, List.find?_map,
      hshift, ← ih { res with rows := res.rows.tail } (by simp [hrows]) hfmt]
    rcases x with ⟨repo, name, b | t⟩ <;>
      by_cases hname : name = sym <;>
      simp [hname, PGresult.getstr, PGresult.getisnull, hcell, hexRow, hfmt, RefTarget.hexCell,
        Cell.str]

section Listing

variable {db : Db} {r : RepoId}

/-- On a keyed table the rows `ORDER BY name` of one name are that name's rows. -/
theorem filter_name_byName (hk : db.RefsKeyed) (name : String) :
  (byName (db.refs.filter (·.repo = r))).filter (fun x => x.name = name) = db.refsOf r name
  := by
  have hperm := ((List.perm_insertionSort (fun a b : RefRow => a.name ≤ b.name)
    (db.refs.filter (·.repo = r))).filter
    fun x => decide (x.name = name))
  rw [List.filter_filter] at hperm
  have hsame : (db.refs.filter fun x => decide (x.name = name) && decide (x.repo = r)) =
      db.refsOf r name :=
    List.filter_congr fun x _ => by rw [Bool.and_comm, Bool.decide_and]
  rw [hsame] at hperm
  rcases hk.refsOf_cases r name with h | ⟨x, h⟩ <;> rw [h] at hperm ⊢
  · exact List.perm_nil.1 hperm
  · exact List.perm_singleton.1 hperm

theorem findSome?_name {β : Type} (l : List RefRow) (name : String) (g : RefTarget → Option β) :
  l.findSome? (fun x => if x.name = name then g x.target else none) =
    (l.filter fun x => x.name = name).findSome? fun x => g x.target
  := by
  induction l with
  | nil => rfl
  | cons x l ih =>
    by_cases hx : x.name = name <;> simp [List.findSome?_cons, List.filter_cons, hx, ih]

/-- What the first loop of `cmd_list` keeps for one name is what that name holds. -/
theorem findSome?_byName {β : Type} (hk : db.RefsKeyed) (name : String) (g : RefTarget → Option β) :
  (byName (db.refs.filter (·.repo = r))).findSome? (fun x => if x.name = name then g x.target else none) =
    (db.targetOf r name).bind g
  := by
  rw [findSome?_name, filter_name_byName hk]
  rcases hk.refsOf_cases r name with h | ⟨x, h⟩
  · simp [h, Db.targetOf]
  · simp only [h, Db.targetOf, List.findSome?_cons, List.findSome?_nil, List.head?_cons,
      Option.map_some', Option.some_bind]
    cases g x.target <;> rfl

/-- The second loop of `cmd_list` finds a row of the name exactly when the name holds a direct
ref. -/
theorem any_byName (hk : db.RefsKeyed) (name : String) :
  (byName (db.refs.filter (·.repo = r))).any
      (fun x => decide (x.name = name) && !decide (x.target.hexCell = .null)) =
    match db.targetOf r name with
    | some (.oid _) => true
    | _ => false
  := by
  rw [← List.any_filter, filter_name_byName hk]
  rcases hk.refsOf_cases r name with h | ⟨⟨_, _, b | t⟩, h⟩ <;>
    simp [h, Db.targetOf, RefTarget.hexCell]

/-- `list` on a keyed ref table, on a server that fails no statement, prints the entries in the
order of their names, the line of `HEAD` and a blank line. -/
theorem cmdList_run (env : HelperEnv) (h : Helper) (db : Db) (hk : db.RefsKeyed) :
  (cmdList env h).run .idle db [] =
    ⟨{ h with output := h.output ++
        printed ((listEntries db env.repoId).map entryLine ++ (headLine (db.targetOf env.repoId)).toList) ++
        ['\n'] }, .idle, db, []⟩
  := by
  set xs := byName (db.refs.filter (·.repo = env.repoId))
  set res : PGresult := ⟨.tuplesOk, xs.map hexRow, (xs.map hexRow).length, .text⟩
  have hexec : Conn.idle.exec db (.query (.selectRefsHex env.repoId)) .text false = (res, .idle, db) := by
    simp [Conn.idle_exec_query, Query.eval, Outcome.select, Outcome.result, hexRow, res, xs]
  simp only [cmdList, Prog.bind_eq, Prog.pure_eq, pqExecParams_bind, Prog.run_exec, List.headD_nil,
    hexec, PGresult.ntuples, List.length_map, listRows_hexRows xs res rfl rfl, findSome?_byName hk,
    bne_self_eq_false, Bool.false_eq_true, if_false, Prog.done_bind, Prog.run_done, List.tail_nil,
    foldl_printLn]
  unfold headLine
  rcases hH : db.targetOf env.repoId "HEAD" with _ | b | t
  · simp [Helper.printLn, printed, render_append, render, listEntries, xs]
  · by_cases hb : b = [] <;>
      simp [hb, Helper.printLn, printed, render_append, render, listEntries, xs]
  · have hfind := (find?_range_hexRows xs res rfl rfl t).trans (any_byName hk t)
    by_cases ht : t = ""
    · subst ht
      rcases hT : db.targetOf env.repoId "" with _ | _ | _ <;>
        simp [hT, Helper.printLn, printed, render_append, render, listEntries, xs]
    · simp only [Option.some_bind, RefTarget.nonemptySymbolic_symbolic, ne_eq, ht,
        not_false_eq_true, if_true]
      rcases hf : List.find? (fun i => decide (res.getstr i 0 = t) && !res.getisnull i 1)
        (List.range xs.length) with _ | _ <;> rw [hf] at hfind <;>
        rcases hT : db.targetOf env.repoId t with _ | _ | _ <;>
        simp [hT, ht, Helper.printLn, printed, render_append, render, listEntries, xs] at hfind ⊢

/-! ### The entries -/

theorem Db.RefsKeyed.targetOf_eq_some_iff (hk : db.RefsKeyed) {name : String} {t : RefTarget} :
  db.targetOf r name = some t ↔ ∃ x ∈ db.refs, x.repo = r ∧ x.name = name ∧ x.target = t
  := by
  have hmem (x : RefRow) : x ∈ db.refsOf r name ↔ x ∈ db.refs ∧ x.repo = r ∧ x.name = name := by
    simp [Db.refsOf]
  rcases hk.refsOf_cases r name with h | ⟨y, h⟩
  · simp only [Db.targetOf, h, List.head?_nil, Option.map_none', reduceCtorEq, false_iff]
    rintro ⟨x, hx, hr, hn, -⟩
    simpa [h] using (hmem x).2 ⟨hx, hr, hn⟩
  · have hy := (hmem y).1 (h ▸ List.mem_singleton_self y)
    simp only [Db.targetOf, h, List.head?_cons, Option.map_some', Option.some.injEq]
    refine ⟨fun ht => ⟨y, hy.1, hy.2.1, hy.2.2, ht⟩, ?_⟩
    rintro ⟨x, hx, hr, hn, rfl⟩
    have : x ∈ [y] := h ▸ (hmem x).2 ⟨hx, hr, hn⟩
    rw [List.mem_singleton.1 this]

theorem listEntry_eq_some {x : RefRow} {name : String} {b : Bytes} :
  listEntry x = some (name, b) ↔ x.name = name ∧ x.target = .oid b ∧ name ≠ "HEAD" ∧ b ≠ []
  := by
  rcases x with ⟨repo, n, b' | t⟩
  · by_cases h : n ≠ "HEAD" ∧ b' ≠ []
    · simp only [listEntry, if_pos h, Option.some.injEq, Prod.mk.injEq, RefTarget.oid.injEq]
      constructor
      · rintro ⟨rfl, rfl⟩; exact ⟨rfl, rfl, h⟩
      · rintro ⟨rfl, rfl, -⟩; exact ⟨rfl, rfl⟩
    · simp only [listEntry, if_neg h, reduceCtorEq, false_iff, RefTarget.oid.injEq]
      rintro ⟨rfl, rfl, hh, hb⟩
      exact h ⟨hh, hb⟩
  · simp [listEntry]

/-- The entries `list` prints are those of the names, other than `HEAD`, that hold a non-empty
direct OID. -/
theorem mem_listEntries (hk : db.RefsKeyed) (name : String) (b : Bytes) :
  (name, b) ∈ listEntries db r ↔ name ≠ "HEAD" ∧ b ≠ [] ∧ db.targetOf r name = some (.oid b)
  := by
  rw [hk.targetOf_eq_some_iff, listEntries, List.mem_filterMap]
  simp only [byName, List.mem_insertionSort, List.mem_filter, decide_eq_true_eq, listEntry_eq_some]
  constructor
  · rintro ⟨x, ⟨hx, hr⟩, hn, ht, hh, hb⟩
    exact ⟨hh, hb, x, hx, hr, hn, ht⟩
  · rintro ⟨hh, hb, x, hx, hr, hn, ht⟩
    exact ⟨x, ⟨hx, hr⟩, hn, ht, hh, hb⟩

/-- The entries come in the strict order of their names. -/
theorem listEntries_sorted (hk : db.RefsKeyed) :
  (listEntries db r).Pairwise fun a b => a.1 < b.1
  := by
  have : IsTotal RefRow fun a b => a.name ≤ b.name := ⟨fun a b => le_total a.name b.name⟩
  have : IsTrans RefRow fun a b => a.name ≤ b.name := ⟨fun _ _ _ => le_trans⟩
  have hsorted := List.sorted_insertionSort (fun a b : RefRow => a.name ≤ b.name)
    (db.refs.filter (·.repo = r))
  have hkeys : db.refs.Pairwise fun a b => a.key ≠ b.key := List.pairwise_map.1 hk
  have hnames : (byName (db.refs.filter (·.repo = r))).Pairwise fun a b => a.name ≠ b.name :=
    ((hkeys.filter _).imp_of_mem fun ha hb hab hn => hab <| by
      simp only [List.mem_filter, decide_eq_true_eq] at ha hb
      simp [RefRow.key, ha.2, hb.2, hn]).perm (List.perm_insertionSort _ _).symm
      fun h => Ne.symm h
  refine (hsorted.and hnames).filterMap listEntry fun x y hxy e he e' he' => ?_
  obtain ⟨n, b⟩ := e
  obtain ⟨n', b'⟩ := e'
  rw [Option.mem_def, listEntry_eq_some] at he he'
  rw [← he.1, ← he'.1]
  exact lt_of_le_of_ne hxy.1 hxy.2

end Listing

/-! ### A list after a push -/

theorem Db.RefsKeyed.headRow {db : Db} (hk : db.RefsKeyed) (r : RepoId) (specs : List PushSpec) :
  (headRow r specs db).RefsKeyed
  := by
  unfold Gitgres.headRow
  split
  · exact hk.putRef _
  · exact hk

/-- A push block whose destinations are distinct and other than `HEAD`, and each of whose
non-empty sources resolves, on a keyed ref table, in a run in which the statements of the ref
updates succeed, whatever the statements of the object copy and of the `HEAD` insert do, then a
`list` whose query succeeds.  Every line is answered `ok`.  After the push every name other than
`HEAD` holds what the push block says, and `HEAD` what it held or what the `HEAD` insert makes
it.  The `list` prints the entries of the names other than `HEAD` that hold a non-empty direct
OID after the push, in the strict order of their names, then the line of `HEAD` as it is after
the push, then a blank line. -/
theorem list_after_push_shows_pushed_refs (env : HelperEnv) (h : Helper) (db : Db)
    (hk : db.RefsKeyed) (specs : List PushSpec) (hopen : env.openFails = false)
    (hdst : (specs.map PushSpec.dst).Nodup) (hhead : ∀ s ∈ specs, s.dst ≠ "HEAD".toList)
    (hres : ∀ s ∈ specs, s.src ≠ [] → (resolveSrc h.repo s.src).isSome) (fails : List Bool)
    (hrefs : ∀ x ∈ ((pushCopyAll env h.repo h.repo.objects).run .idle db fails).fails.take
      specs.length, x = false) :
  let P := (pushAnswer env specs h).run .idle db fails
  let L := (cmdList env P.val).run .idle P.db []
  P.val.output = h.output ++ printed (specs.map okLine) ++ ['\n'] ∧
    (∀ name, name ≠ "HEAD" →
      P.db.targetOf env.repoId name = pushedTarget db env.repoId h.repo specs name) ∧
    (P.db.targetOf env.repoId "HEAD" = db.targetOf env.repoId "HEAD" ∨
      P.db.targetOf env.repoId "HEAD" = pushedTarget db env.repoId h.repo specs "HEAD") ∧
    ∃ entries : List (String × Bytes),
      L.val.output = P.val.output ++
        printed (entries.map entryLine ++ (headLine (P.db.targetOf env.repoId)).toList) ++ ['\n'] ∧
      entries.Pairwise (fun a b => a.1 < b.1) ∧
      ∀ name b, (name, b) ∈ entries ↔
        name ≠ "HEAD" ∧ b ≠ [] ∧ pushedTarget db env.repoId h.repo specs name = some (.oid b)
  := by
  intro P L
  obtain ⟨db₁, h₁, hval, hdb⟩ := pushAnswer_run hopen specs h hres db fails hrefs
  obtain ⟨hrows, hrowsHead, hheadRow⟩ :=
    @targetOf_afterPush db env.repoId h.repo hk db₁ h₁ specs hdst hhead hres
  have hk₁ : db₁.RefsKeyed := by unfold Db.RefsKeyed; rw [h₁]; exact hk
  have hkRows := @Db.RefsKeyed.pushRows db₁ env.repoId h.repo hk₁ specs
  have hdb' : P.db = pushRows env.repoId h.repo specs db₁ ∨
      P.db = headRow env.repoId specs (pushRows env.repoId h.repo specs db₁) := hdb
  have hk' : P.db.RefsKeyed := hdb'.elim (· ▸ hkRows) (· ▸ hkRows.headRow env.repoId specs)
  have hother (name : String) (hn : name ≠ "HEAD") :
      P.db.targetOf env.repoId name = pushedTarget db env.repoId h.repo specs name := by
    rcases hdb' with hdb' | hdb' <;> rw [hdb']
    exacts [hrows name hn, hheadRow name]
  refine ⟨by rw [show P.val = _ from hval], hother, ?_, listEntries P.db env.repoId,
    by rw [show L = _ from cmdList_run env P.val P.db hk'], listEntries_sorted hk', fun name b => ?_⟩
  · rcases hdb' with hdb' | hdb' <;> rw [hdb']
    exacts [.inl hrowsHead, .inr (hheadRow _)]
  · rw [mem_listEntries hk']
    exact and_congr_right fun hn => by rw [hother name hn]

/-- Pushing `refs/heads/main` from a local repository that has it, and deleting `refs/heads/x`,
with the `INSERT` of `HEAD` failing. -/
theorem main_pushed_and_x_deleted_then_listed :
    let h : Helper := ⟨[], [], pushRepo, none⟩
    let specs : List PushSpec :=
      [⟨"refs/heads/main".toList, "refs/heads/main".toList, false⟩, ⟨[], "refs/heads/x".toList, false⟩]
    let fails := [false, false, false, false, false, false, true]
    let P := (pushAnswer pushEnv specs h).run .idle pushDb fails
    let L := (cmdList pushEnv P.val).run .idle P.db []
    pushDb.RefsKeyed ∧ pushEnv.openFails = false ∧ (specs.map PushSpec.dst).Nodup ∧
      (∀ s ∈ specs, s.dst ≠ "HEAD".toList) ∧
      (∀ s ∈ specs, s.src ≠ [] → (resolveSrc h.repo s.src).isSome) ∧
      (∀ x ∈ ((pushCopyAll pushEnv h.repo h.repo.objects).run .idle pushDb fails).fails.take
        specs.length, x = false) ∧
      P.val.output = h.output ++ printed (specs.map okLine) ++ ['\n'] ∧
      (∀ name, name ≠ "HEAD" → P.db.targetOf 1 name = pushedTarget pushDb 1 h.repo specs name) ∧
      (P.db.targetOf 1 "HEAD" = pushDb.targetOf 1 "HEAD" ∨
        P.db.targetOf 1 "HEAD" = pushedTarget pushDb 1 h.repo specs "HEAD") ∧
      ∃ entries : List (String × Bytes),
        L.val.output = P.val.output ++
          printed (entries.map entryLine ++ (headLine (P.db.targetOf 1)).toList) ++ ['\n'] ∧
        entries.Pairwise (fun a b => a.1 < b.1) ∧
        ∀ name b, (name, b) ∈ entries ↔
          name ≠ "HEAD" ∧ b ≠ [] ∧ pushedTarget pushDb 1 h.repo specs name = some (.oid b)
  := ⟨by decide, rfl, by decide, by decide, by decide, by decide,
    list_after_push_shows_pushed_refs pushEnv _ pushDb (by decide) _ rfl (by decide) (by decide)
      (by decide) _ (by decide)⟩

/-- A `HEAD` that holds an empty OID is a direct ref, and `list` gives it no line. -/
theorem list_omits_head_with_empty_oid :
    let specs : List PushSpec := [⟨[], "refs/heads/x".toList, false⟩]
    let db : Db := { Db.empty with refs := [⟨1, "HEAD", .oid []⟩] }
    let P := (pushAnswer pushEnv specs ⟨[], [], ⟨[], []⟩, none⟩).run .idle db []
    P.val.output = "ok refs/heads/x\n\n".toList ∧ P.db.targetOf 1 "HEAD" = some (.oid []) ∧
      ((cmdList pushEnv P.val).run .idle P.db []).val.output = P.val.output ++ ['\n']
  := by decide

end Gitgres
