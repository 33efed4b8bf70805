import Gitgres.Helper.Main

/-!
# Pushes and fast-forwards

`parse_push_spec` records a leading `+` as the spec's force flag, and `cmd_push` never reads
it: every spec whose source resolves is one upsert of the destination, answered `ok D` when the
statement succeeds, whatever the destination held before.  In particular a push that is not a
fast-forward is accepted without `+`.  Ancestry is that of the commit graph: a commit's parents
are the OIDs of its `parent` header lines (`commitParents`), and `Descends parents a b` says
that `b` is `a` or one of its ancestors.

A spec with an empty source is one `DELETE` of the destination, and `cmd_push` prints `ok <dst>`
without looking at its result; the object copy's callback likewise ignores the result of
`git_odb_write`.  A failed delete leaves the ref in place and a failed object write leaves the
object out of the store, and the helper answers `ok` in both cases.
-/

namespace Gitgres

/-- The parents a commit object names: the OIDs of its `parent` header lines, the lines before
the first empty one. -/
def commitParents (data : Bytes) : List Oid :=
  (((data.map fun b => Char.ofNat b.toNat).splitOn '\n').takeWhile (· ≠ [])).filterMap fun l =>
    if "parent ".toList.isPrefixOf l then oidFromStr (l.drop 7) else none

/-- The parents of a commit of the local repository; none for anything else. -/
def LocalRepo.parents (repo : LocalRepo) (o : Oid) : List Oid :=
  match repo.objects.find? (·.oid = o) with
  | some obj => if obj.type = 1 then commitParents obj.data else []
  | none => []

/-- `Descends parents a b`: commit `b` is `a` or an ancestor of `a`. -/
inductive Descends (parents : Oid → List Oid) : Oid → Oid → Prop
  | refl (a : Oid) : Descends parents a a
  | parent {a p b : Oid} : p ∈ parents a → Descends parents p b → Descends parents a b

/-- A root commit descends from itself only. -/
theorem Descends.eq_of_root {parents : Oid → List Oid} {a b : Oid} (ha : parents a = [])
    (h : Descends parents a b) :
  b = a
  := by
  cases h with
  | refl => rfl
  | parent hp _ => simp [ha] at hp

/-- The ref updates never read the force flag. -/
theorem pushRefs_force (env : HelperEnv) (specs : List PushSpec) (h : Helper) :
  pushRefs env specs h = pushRefs env (specs.map fun s => { s with force := false }) h
  := by
  induction specs generalizing h with
  | nil => rfl
  | cons spec specs ih => simp only [pushRefs, List.map_cons, ih]; rfl

/-- A spec whose source resolves to `oid` is one upsert, answered `ok D` when the statement
succeeds; `D` then holds `oid`, whatever it held before. -/
theorem pushRef_run {env : HelperEnv} {repo : LocalRepo} {spec : PushSpec} {oid : Oid}
    (hsrc : spec.src ≠ []) (hres : resolveSrc repo spec.src = some oid) (db : Db)
    (fails : List Bool) :
  (pushRef env repo spec).run .idle db fails =
    if fails.headD false then ⟨"error " ++ ⟨spec.dst⟩ ++ " " ++ pqErrorMessage, .idle, db, fails.tail⟩
    else ⟨"ok " ++ ⟨spec.dst⟩, .idle,
      { db with refs := upsertRef ⟨env.repoId, ⟨spec.dst⟩, .oid oid.id⟩ db.refs }, fails.tail⟩
  := by
  have hlen : spec.src.length ≠ 0 := by simpa using hsrc
  simp only [pushRef, hlen, hres, if_false, Prog.bind_eq, Prog.pure_eq, pqExecParams_bind,
    Prog.run_exec]
  split
  · simp_all [Conn.exec, Conn.idle, PGresult.error]
  · simp_all [Conn.exec, Conn.idle, Query.eval, hexDecode_hexEncode, Outcome.command,
      Outcome.result, Change.apply]

/-- `cmd_push` acts on the force flag nowhere.  The ref updates are the same with every flag
cleared, and a spec whose source resolves to `oid` is one upsert, answered `ok D` exactly when
the statement succeeds, which sets `D` to `oid` whatever `D` held, fast-forward or not. -/
theorem push_ignores_force :
    (∀ (env : HelperEnv) (specs : List PushSpec) (h : Helper),
      pushRefs env specs h = pushRefs env (specs.map fun s => { s with force := false }) h) ∧
    (∀ (env : HelperEnv) (repo : LocalRepo) (spec : PushSpec) (oid : Oid) (db : Db)
      (fails : List Bool), spec.src ≠ [] → resolveSrc repo spec.src = some oid →
      (pushRef env repo spec).run .idle db fails =
        if fails.headD false then
          ⟨"error " ++ ⟨spec.dst⟩ ++ " " ++ pqErrorMessage, .idle, db, fails.tail⟩
        else ⟨"ok " ++ ⟨spec.dst⟩, .idle,
          { db with refs := upsertRef ⟨env.repoId, ⟨spec.dst⟩, .oid oid.id⟩ db.refs }, fails.tail⟩)
  := ⟨pushRefs_force, fun _ _ _ _ db fails hsrc hres => pushRef_run hsrc hres db fails⟩

/-! ### A push that is not a fast-forward -/

/-- The remote's `refs/heads/main` at the commit `aa..aa`. -/
def remoteMain : Db := { Db.empty with refs := [⟨1, "refs/heads/main", .oid (Oid.ofByte 0xaa).id⟩] }

/-- A root commit: a tree line, no parent line, and a message. -/
def rootCommit : Bytes := utf8 "tree 4b825dc642cb6eb9a060e54bf8d69288fbee4904\n\nroot\n"

/-- A local repository whose `refs/heads/main` is the root commit `bb..bb`. -/
def rewrittenRepo : LocalRepo :=
  ⟨[⟨Oid.ofByte 0xbb, 1, rootCommit⟩], [("refs/heads/main", .direct (Oid.ofByte 0xbb))]⟩

/-- The helper of repository 1, whose SHA-1 gives `bb..bb`. -/
def rootPushEnv : HelperEnv := ⟨fun _ => (Oid.ofByte 0xbb).id, 1, false, fun _ => false, fun _ => false⟩

/-- `push refs/heads/main:refs/heads/main`, without `+`, of a root commit over `aa..aa` is
answered `ok`, and the remote `main` moves to the root commit, which does not descend from
`aa..aa`. -/
theorem non_fast_forward_push_accepted :
    ((gitRemoteGitgres rootPushEnv "push refs/heads/main:refs/heads/main\n\n".toList
        rewrittenRepo).run .idle remoteMain []).val.output = "ok refs/heads/main\n\n".toList ∧
    ((gitRemoteGitgres rootPushEnv "push refs/heads/main:refs/heads/main\n\n".toList
        rewrittenRepo).run .idle remoteMain []).db.refsOf 1 "refs/heads/main" =
      [⟨1, "refs/heads/main", .oid (Oid.ofByte 0xbb).id⟩] ∧
    ¬Descends rewrittenRepo.parents (Oid.ofByte 0xbb) (Oid.ofByte 0xaa)
  := ⟨by decide, by decide, fun h => absurd (Descends.eq_of_root (by decide) h) (by decide)⟩

/-! ### Push specs -/

/-- A spec with an empty source is one `DELETE` of the destination, answered `ok D` whether or
not the statement succeeds. -/
theorem pushRef_delete_run (env : HelperEnv) (repo : LocalRepo) (dst : List Char) (force : Bool)
    (db : Db) (fails : List Bool) :
  (pushRef env repo ⟨[], dst, force⟩).run .idle db fails =
    ⟨"ok " ++ ⟨dst⟩, .idle,
      if fails.headD false then db
      else { db with refs := db.refs.filter fun x => !(x.repo = env.repoId ∧ x.name = ⟨dst⟩) },
      fails.tail⟩
  := by
  simp only [pushRef, List.length_nil, if_true, Prog.bind_eq, Prog.pure_eq, pqExecParams_bind,
    Prog.run_exec]
  cases fails.headD false
  · by_cases hr : (db.refsOf env.repoId ⟨dst⟩).isEmpty
    · have hnone : ∀ x ∈ db.refs, ¬(x.repo = env.repoId ∧ x.name = ⟨dst⟩) := by
        simpa [Db.refsOf, List.filter_eq_nil_iff] using hr
      have hfil : db.refs.filter (fun x => !(x.repo = env.repoId ∧ x.name = ⟨dst⟩)) = db.refs :=
        List.filter_eq_self.mpr fun x hx => by
          simpa only [decide_not, Bool.not_eq_true', decide_eq_false_iff_not] using hnone x hx
      rw [hfil]
      simp [Conn.exec, Conn.idle, Query.eval, hr, Outcome.command, Outcome.result]
    · simp [Conn.exec, Conn.idle, Query.eval, hr, Outcome.command, Outcome.result, Change.apply]
  · simp [Conn.exec, Conn.idle, PGresult.error]

/-- An environment in which every object hashes to `aa .. aa` and no local access fails. -/
def pushEnv : HelperEnv := ⟨fun _ => (Oid.ofByte 0xaa).id, 1, false, fun _ => false, fun _ => false⟩

/-- A repository with the direct ref `refs/heads/x` and no `HEAD`. -/
def pushDb : Db := { Db.empty with refs := [⟨1, "refs/heads/x", .oid (Oid.ofByte 0xaa).id⟩] }

/-- A local repository with one blob `aa .. aa` and `refs/heads/main` pointing at it. -/
def pushRepo : LocalRepo :=
  ⟨[⟨Oid.ofByte 0xaa, 3, utf8 "hi"⟩], [("refs/heads/main", .direct (Oid.ofByte 0xaa))]⟩

/-- When the `DELETE` of `push :refs/heads/x` fails, the helper answers `ok refs/heads/x` and
the ref is still there; when the object write of `push refs/heads/main:refs/heads/main` fails,
it answers `ok refs/heads/main` and the store lacks the local blob. -/
theorem push_reports_ok_after_failures :
  ((gitRemoteGitgres pushEnv "push :refs/heads/x\n\n".toList ⟨[], []⟩).run .idle pushDb
      [true]).val.output = "ok refs/heads/x\n\n".toList ∧
    (((gitRemoteGitgres pushEnv "push :refs/heads/x\n\n".toList ⟨[], []⟩).run .idle pushDb
      [true]).db.refsOf 1 "refs/heads/x").length = 1 ∧
    ((gitRemoteGitgres pushEnv "push refs/heads/main:refs/heads/main\n\n".toList pushRepo).run
      .idle Db.empty [false, false, true]).val.output = "ok refs/heads/main\n\n".toList ∧
    ((gitRemoteGitgres pushEnv "push refs/heads/main:refs/heads/main\n\n".toList pushRepo).run
      .idle Db.empty [false, false, true]).db.objects = []
  := by
  decide

/-- `parse_push_spec` splits `[+]s:d` at the first colon and cuts each side to the 511 bytes of
its field, reading a leading `+` as the force flag; a spec without a colon gets an empty
source, and `cmd_push` runs a spec with an empty source as a deletion of its destination, which
when its `DELETE` succeeds removes the destination's ref and is answered `ok D`. -/
theorem push_spec_parse :
    (∀ (f : Bool) (s d : List Char), ':' ∉ s → (f = false → s.head? ≠ some '+') →
      parsePushSpec ((if f then ['+'] else []) ++ s ++ ':' :: d) = ⟨s.take 511, d.take 511, f⟩) ∧
    (∀ (f : Bool) (p : List Char), ':' ∉ p → (f = false → p.head? ≠ some '+') →
      parsePushSpec ((if f then ['+'] else []) ++ p) = ⟨[], p.take 511, f⟩) ∧
    (∀ (env : HelperEnv) (repo : LocalRepo) (dst : List Char) (force : Bool) (db : Db)
      (fails : List Bool), fails.headD false = false →
      (pushRef env repo ⟨[], dst, force⟩).run .idle db fails =
        ⟨"ok " ++ ⟨dst⟩, .idle,
          { db with refs := db.refs.filter fun x => !(x.repo = env.repoId ∧ x.name = ⟨dst⟩) },
          fails.tail⟩)
  := ⟨parsePushSpec_colon, parsePushSpec_no_colon, fun env repo dst force db fails hf => by
    rw [pushRef_delete_run, hf, if_neg Bool.false_ne_true]⟩

theorem push_spec_parse_plain :
  parsePushSpec ['a', ':', 'b'] = ⟨['a'], ['b'], false⟩ ∧
    (pushRef pushEnv ⟨[], []⟩ ⟨[], "refs/heads/x".toList, false⟩).run .idle pushDb [] =
      ⟨"ok refs/heads/x", .idle, { pushDb with refs := [] }, []⟩
  := ⟨push_spec_parse.1 false ['a'] ['b'] (by decide) (by decide), by
    rw [push_spec_parse.2.2 pushEnv ⟨[], []⟩ _ false pushDb [] rfl]
    decide⟩

/-- Three specs that `parse_push_spec` does not split into a flag, a source and a destination
as written: `+a:b` is read as a forced `a:b`, a 512-byte source loses its last byte, and
`push refs/heads/main` is not rejected but deletes the remote's `refs/heads/main` and is
answered `ok`. -/
theorem push_spec_plus_long_and_colonless :
    parsePushSpec "+a:b".toList = ⟨['a'], ['b'], true⟩ ∧
    (parsePushSpec (List.replicate 512 'a' ++ [':', 'b'])).src = List.replicate 511 'a' ∧
    ((gitRemoteGitgres rootPushEnv "push refs/heads/main\n\n".toList rewrittenRepo).run .idle
        remoteMain []).val.output = "ok refs/heads/main\n\n".toList ∧
    ((gitRemoteGitgres rootPushEnv "push refs/heads/main\n\n".toList rewrittenRepo).run .idle
        remoteMain []).db.refsOf 1 "refs/heads/main" = []
  := by
  refine ⟨rfl, ?_, by decide, by decide⟩
  rw [show List.replicate 512 'a' ++ [':', 'b'] =
      (if false then ['+'] else []) ++ List.replicate 512 'a' ++ ':' :: ['b'] from rfl,
    parsePushSpec_colon false _ _ (fun h => absurd (List.eq_of_mem_replicate h) (by decide))
      (fun _ => by rw [List.head?_replicate]; decide), List.take_replicate]
  rfl

end Gitgres
