import Gitgres.Helper.Main
import Gitgres.Refdb.Write
import Gitgres.Sql.Scope

/-!
# Isolation between repositories

Every operation of the backends of repository `r`, and every command of the remote helper for
`r`, sends only statements for `r` (`Prog.Sends (Stmt.ScopedTo r)`): each query's `$1` is the
backend's `repo_id`.  So each is `RepoIsolated r`: it leaves the rows of every other repository
as they were, and its value and its effect on the rows of `r` depend only on the rows of `r`
and on the next value of the reflog id sequence, the one piece of state that all repositories
share.
-/

namespace Gitgres

/-- A program for repository `r` is isolated from the other repositories: run on a connection
whose open transaction has changed only rows of `r`, it leaves the rows of every other
repository as they were, and its value and the rows of `r` afterwards are the same on two
databases that agree on the rows of `r` and on the next reflog id. -/
def RepoIsolated {α : Type} (r : RepoId) (p : Prog α) : Prop :=
  ∀ c : Conn, c.ScopedTo r → ∀ fails : List Bool,
    (∀ (v : Db) (r' : RepoId), r' ≠ r → (p.run c v fails).db.slice r' = v.slice r') ∧
    ∀ v w : Db, v.AgreeOn r w →
      (p.run c v fails).val = (p.run c w fails).val ∧
        (p.run c v fails).db.slice r = (p.run c w fails).db.slice r

theorem Prog.Sends.repoIsolated {α : Type} {r : RepoId} {p : Prog α}
    (hp : p.Sends (Stmt.ScopedTo r)) :
  RepoIsolated r p
  := fun _ hc fails =>
  ⟨fun v _ hr => Prog.run_slice_of_ne hp hc hr v fails,
    fun _ _ h => have H := Prog.run_congr hp hc h fails; ⟨H.1, H.2.2.slice_eq⟩⟩

section Operations

variable (r : RepoId)

/-! ### The object database backend -/

theorem pgOdbRead_scoped (o : Oid) : (pgOdbRead r o).Sends (Stmt.ScopedTo r) := by
  simp [pgOdbRead, Stmt.ScopedTo, Query.repo?]

theorem pgOdbReadHeader_scoped (o : Oid) : (pgOdbReadHeader r o).Sends (Stmt.ScopedTo r) := by
  simp [pgOdbReadHeader, Stmt.ScopedTo, Query.repo?]

theorem pgOdbReadPrefix_scoped (o : Oid) (n : Nat) :
  (pgOdbReadPrefix r o n).Sends (Stmt.ScopedTo r)
  := by
  simp [pgOdbReadPrefix, pgOdbRead, Stmt.ScopedTo, Query.repo?]

theorem pgOdbWrite_scoped (o : Oid) (d : Bytes) (t : Int) :
  (pgOdbWrite r o d t).Sends (Stmt.ScopedTo r)
  := by
  simp [pgOdbWrite, Stmt.ScopedTo, Query.repo?]

theorem pgOdbExists_scoped (o : Oid) : (pgOdbExists r o).Sends (Stmt.ScopedTo r) := by
  simp [pgOdbExists, Stmt.ScopedTo, Query.repo?]

theorem pgOdbExistsPrefix_scoped (o : Oid) (n : Nat) :
  (pgOdbExistsPrefix r o n).Sends (Stmt.ScopedTo r)
  := by
  simp [pgOdbExistsPrefix, pgOdbExists, Stmt.ScopedTo, Query.repo?]

theorem forEachOid_scoped {σ : Type} {cb : σ → Oid → Prog (Int × σ)}
    (hcb : ∀ p o, (cb p o).Sends (Stmt.ScopedTo r)) (p : σ) (os : List Oid) :
  (forEachOid cb p os).Sends (Stmt.ScopedTo r)
  := by
  induction os generalizing p with
  | nil => simp [forEachOid]
  | cons o os ih =>
    refine Prog.Sends.bind (hcb p o) fun ⟨e, p'⟩ => ?_
    simp only [Prog.sends_ite, Prog.pure_eq, Prog.sends_done]
    exact ⟨fun _ => trivial, fun _ => ih p'⟩

theorem pgOdbForeach_scoped {σ : Type} {cb : σ → Oid → Prog (Int × σ)}
    (hcb : ∀ p o, (cb p o).Sends (Stmt.ScopedTo r)) (payload : σ) :
  (pgOdbForeach r cb payload).Sends (Stmt.ScopedTo r)
  := by
  simp only [pgOdbForeach, Prog.bind_eq, pqExecParams_bind, Prog.sends_exec]
  exact ⟨.inr rfl, fun res => by
    split
    · simp
    · exact forEachOid_scoped r hcb _ _⟩

theorem pgWritepackCopy_scoped (pack : List PackObject) :
  (pgWritepackCopy r pack).Sends (Stmt.ScopedTo r)
  := by
  induction pack with
  | nil => simp [pgWritepackCopy]
  | cons o os ih =>
    simp only [pgWritepackCopy, Prog.bind_eq]
    refine Prog.Sends.bind (pgOdbWrite_scoped r _ _ _) fun e => ?_
    split
    · simp
    · exact ih

/-! ### The refdb backend -/

theorem pgRefdbExists_scoped (name : String) : (pgRefdbExists r name).Sends (Stmt.ScopedTo r) := by
  simp [pgRefdbExists, Stmt.ScopedTo, Query.repo?]

theorem pgRefdbLookup_scoped (name : String) : (pgRefdbLookup r name).Sends (Stmt.ScopedTo r) := by
  simp [pgRefdbLookup, Stmt.ScopedTo, Query.repo?]

theorem pgRefdbIterator_scoped (glob : Option String) :
  (pgRefdbIterator r glob).Sends (Stmt.ScopedTo r)
  := by
  simp [pgRefdbIterator, Stmt.ScopedTo, Query.repo?]

theorem rollbackWith_scoped {α : Type} (code : α) :
  (rollbackWith code).Sends (Stmt.ScopedTo r)
  := by
  simp [rollbackWith, Stmt.ScopedTo]

theorem writeReflogEntry_scoped (refName : String) (old new : Option Oid)
    (who : Option Signature) (message : Option String) :
  (writeReflogEntry r refName old new who message).Sends (Stmt.ScopedTo r)
  := by
  cases who <;> simp [writeReflogEntry, Stmt.ScopedTo, Query.repo?]

theorem pgRefdbWrite_scoped (ref : GitReference) (force : Bool) (who : Option Signature)
    (message : Option String) (old : Option Oid) (oldTarget : Option String) :
  (pgRefdbWrite r ref force who message old oldTarget).Sends (Stmt.ScopedTo r)
  := by
  cases old <;> cases oldTarget <;>
    simp [pgRefdbWrite, rollbackWith_scoped, writeReflogEntry_scoped, Prog.Sends.bind,
      Stmt.ScopedTo, Query.repo?]

theorem pgRefdbRename_scoped (oldName newName : String) (force : Bool) :
  (pgRefdbRename r oldName newName force).Sends (Stmt.ScopedTo r)
  := by
  cases force <;> simp [pgRefdbRename, rollbackWith, Stmt.ScopedTo, Query.repo?] <;> intros <;>
    split <;> simp [Stmt.ScopedTo]

theorem pgRefdbDel_scoped (name : String) (oldId : Option Oid) (oldTarget : Option String) :
  (pgRefdbDel r name oldId oldTarget).Sends (Stmt.ScopedTo r)
  := by
  cases oldId <;> cases oldTarget <;>
    simp [pgRefdbDel, rollbackWith_scoped, Prog.Sends.bind, Stmt.ScopedTo, Query.repo?]

theorem pgRefdbLock_scoped (name : String) : (pgRefdbLock r name).Sends (Stmt.ScopedTo r) := by
  simp [pgRefdbLock, rollbackWith_scoped, Prog.Sends.bind, Stmt.ScopedTo, Query.repo?]

theorem pgRefdbUnlock_scoped (lock : RefLock) (success : Int) (updateReflog : Bool)
    (ref : GitReference) (sig : Option Signature) (message : Option String) :
  (pgRefdbUnlock r lock success updateReflog ref sig message).Sends (Stmt.ScopedTo r)
  := by
  simp [pgRefdbUnlock, unlockChanges, writeReflogEntry_scoped, Prog.Sends.bind, Stmt.ScopedTo,
    Query.repo?]

theorem pgRefdbHasLog_scoped (name : String) : (pgRefdbHasLog r name).Sends (Stmt.ScopedTo r) := by
  simp [pgRefdbHasLog, Stmt.ScopedTo, Query.repo?]

theorem pgRefdbReflogRename_scoped (oldName newName : String) :
  (pgRefdbReflogRename r oldName newName).Sends (Stmt.ScopedTo r)
  := by
  simp [pgRefdbReflogRename, Stmt.ScopedTo, Query.repo?]

theorem pgRefdbReflogDelete_scoped (name : String) :
  (pgRefdbReflogDelete r name).Sends (Stmt.ScopedTo r)
  := by
  simp [pgRefdbReflogDelete, Stmt.ScopedTo, Query.repo?]

end Operations

/-! ### The remote helper -/

section Helper

variable (env : HelperEnv)

theorem cmdList_scoped (h : Helper) : (cmdList env h).Sends (Stmt.ScopedTo env.repoId) := by
  simp [cmdList, Stmt.ScopedTo, Query.repo?]

theorem fetchCopyCb_scoped (repo : LocalRepo) (oid : Oid) :
  (fetchCopyCb env repo oid).Sends (Stmt.ScopedTo env.repoId)
  := by
  simp [fetchCopyCb, pgOdbRead, Stmt.ScopedTo, Query.repo?]
  intros
  split <;> simp

theorem fetchAnswer_scoped (h : Helper) : (fetchAnswer env h).Sends (Stmt.ScopedTo env.repoId) := by
  simp only [fetchAnswer, Prog.bind_eq, Prog.pure_eq, Prog.done_bind]
  split
  · simp
  · exact Prog.Sends.bind (pgOdbForeach_scoped _ (fetchCopyCb_scoped env) _) fun _ => by simp

theorem cmdFetch_scoped (h : Helper) : (cmdFetch env h).Sends (Stmt.ScopedTo env.repoId) :=
  fetchAnswer_scoped env _

theorem gitOdbWritePg_scoped (type : Int) (data : Bytes) :
  (gitOdbWritePg env type data).Sends (Stmt.ScopedTo env.repoId)
  := by
  simp only [gitOdbWritePg]
  split
  · simp
  · split
    · simp
    · simp [pgOdbExists, pgOdbWrite, Stmt.ScopedTo, Query.repo?]

theorem pushCopyAll_scoped (repo : LocalRepo) (os : List LocalObject) :
  (pushCopyAll env repo os).Sends (Stmt.ScopedTo env.repoId)
  := by
  induction os with
  | nil => simp [pushCopyAll]
  | cons o os ih =>
    refine Prog.Sends.bind ?_ fun _ => ih
    simp only [pushCopyCb, Prog.bind_eq, Prog.pure_eq, Prog.done_bind]
    refine Prog.Sends.bind (pgOdbExists_scoped _ _) fun e => ?_
    split
    · simp
    · split
      · simp
      · exact Prog.Sends.bind (gitOdbWritePg_scoped env _ _) fun _ => by simp

theorem pushRefs_scoped (specs : List PushSpec) (h : Helper) :
  (pushRefs env specs h).Sends (Stmt.ScopedTo env.repoId)
  := by
  induction specs generalizing h with
  | nil => simp [pushRefs]
  | cons spec specs ih =>
    refine Prog.Sends.bind ?_ fun _ => ih _
    simp only [pushRef, Prog.bind_eq]
    split
    · simp [Stmt.ScopedTo, Query.repo?]
    · split <;> simp [Stmt.ScopedTo, Query.repo?]

theorem pushAnswer_scoped (specs : List PushSpec) (h : Helper) :
  (pushAnswer env specs h).Sends (Stmt.ScopedTo env.repoId)
  := by
  simp only [pushAnswer, Prog.bind_eq, Prog.pure_eq, Prog.done_bind]
  split
  · simp
  · refine Prog.Sends.bind (pushCopyAll_scoped env _ _) fun _ =>
      Prog.Sends.bind (pushRefs_scoped env _ _) fun _ => ?_
    simp [Stmt.ScopedTo, Query.repo?]

theorem cmdPush_scoped (h : Helper) (line : List Char) :
  (cmdPush env h line).Sends (Stmt.ScopedTo env.repoId)
  := pushAnswer_scoped env _ _

theorem helperLoop_scoped (fuel : Nat) (h : Helper) :
  (helperLoop env fuel h).Sends (Stmt.ScopedTo env.repoId)
  := by
  induction fuel generalizing h with
  | zero => simp [helperLoop]
  | succ k ih =>
    have hk (h' : Helper) :
        (if h'.exitCode.isSome then pure h' else helperLoop env k h').Sends (Stmt.ScopedTo env.repoId) :=
      .ite (.done h') (ih h')
    simp only [helperLoop]
    split
    · exact .done _
    · exact .ite (ih _) (.ite ((cmdList_scoped env _).bind hk) (.ite ((cmdFetch_scoped env _).bind hk)
        (.ite ((cmdPush_scoped env _ _).bind hk) (.ite (.done _) (ih _)))))

end Helper


/-- Every operation of the backends of repository `r` and every command of the remote helper
for `r` is isolated from the other repositories: it leaves their rows as they were, and its
result and its effect on the rows of `r` are the same on any two databases that agree on the
rows of `r` and on the next value of the reflog id sequence.  `foreach` is so when its
callback sends only statements for `r`, as the helper's fetch callback does. -/
theorem repository_operations_isolated (r : RepoId) :
    (∀ o, RepoIsolated r (pgOdbRead r o)) ∧
    (∀ o, RepoIsolated r (pgOdbReadHeader r o)) ∧
    (∀ o n, RepoIsolated r (pgOdbReadPrefix r o n)) ∧
    (∀ o d t, RepoIsolated r (pgOdbWrite r o d t)) ∧
    (∀ o, RepoIsolated r (pgOdbExists r o)) ∧
    (∀ o n, RepoIsolated r (pgOdbExistsPrefix r o n)) ∧
    (∀ {σ : Type} (cb : σ → Oid → Prog (Int × σ)) (payload : σ),
      (∀ p o, (cb p o).Sends (Stmt.ScopedTo r)) → RepoIsolated r (pgOdbForeach r cb payload)) ∧
    (∀ pack, RepoIsolated r (pgWritepackCopy r pack)) ∧
    (∀ name, RepoIsolated r (pgRefdbExists r name)) ∧
    (∀ name, RepoIsolated r (pgRefdbLookup r name)) ∧
    (∀ glob, RepoIsolated r (pgRefdbIterator r glob)) ∧
    (∀ ref force who message old oldTarget,
      RepoIsolated r (pgRefdbWrite r ref force who message old oldTarget)) ∧
    (∀ oldName newName force, RepoIsolated r (pgRefdbRename r oldName newName force)) ∧
    (∀ name oldId oldTarget, RepoIsolated r (pgRefdbDel r name oldId oldTarget)) ∧
    (∀ name, RepoIsolated r (pgRefdbLock r name)) ∧
    (∀ lock success updateReflog ref sig message,
      RepoIsolated r (pgRefdbUnlock r lock success updateReflog ref sig message)) ∧
    (∀ name, RepoIsolated r (pgRefdbHasLog r name)) ∧
    (∀ oldName newName, RepoIsolated r (pgRefdbReflogRename r oldName newName)) ∧
    (∀ name, RepoIsolated r (pgRefdbReflogDelete r name)) ∧
    (∀ env : HelperEnv, env.repoId = r → ∀ h : Helper,
      RepoIsolated r (cmdList env h) ∧ RepoIsolated r (cmdFetch env h) ∧
      (∀ line, RepoIsolated r (cmdPush env h line)) ∧
      ∀ fuel, RepoIsolated r (helperLoop env fuel h))
  := ⟨fun o => (pgOdbRead_scoped r o).repoIsolated,
    fun o => (pgOdbReadHeader_scoped r o).repoIsolated,
    fun o n => (pgOdbReadPrefix_scoped r o n).repoIsolated,
    fun o d t => (pgOdbWrite_scoped r o d t).repoIsolated,
    fun o => (pgOdbExists_scoped r o).repoIsolated,
    fun o n => (pgOdbExistsPrefix_scoped r o n).repoIsolated,
    fun _ payload hcb => (pgOdbForeach_scoped r hcb payload).repoIsolated,
    fun pack => (pgWritepackCopy_scoped r pack).repoIsolated,
    fun name => (pgRefdbExists_scoped r name).repoIsolated,
    fun name => (pgRefdbLookup_scoped r name).repoIsolated,
    fun glob => (pgRefdbIterator_scoped r glob).repoIsolated,
    fun ref force who message old oldTarget =>
      (pgRefdbWrite_scoped r ref force who message old oldTarget).repoIsolated,
    fun oldName newName force => (pgRefdbRename_scoped r oldName newName force).repoIsolated,
    fun name oldId oldTarget => (pgRefdbDel_scoped r name oldId oldTarget).repoIsolated,
    fun name => (pgRefdbLock_scoped r name).repoIsolated,
    fun lock success updateReflog ref sig message =>
      (pgRefdbUnlock_scoped r lock success updateReflog ref sig message).repoIsolated,
    fun name => (pgRefdbHasLog_scoped r name).repoIsolated,
    fun oldName newName => (pgRefdbReflogRename_scoped r oldName newName).repoIsolated,
    fun name => (pgRefdbReflogDelete_scoped r name).repoIsolated,
    fun env henv h => henv ▸ ⟨(cmdList_scoped env h).repoIsolated,
      (cmdFetch_scoped env h).repoIsolated, fun line => (cmdPush_scoped env h line).repoIsolated,
      fun fuel => (helperLoop_scoped env fuel h).repoIsolated⟩⟩

/-! ### The shared sequence -/

/-- A signature for reflog rows. -/
def someone : Signature := ⟨"A", "a@example.org", 0, 0⟩

/-- Repository 2's reflog row with id 1: the sequence has moved on. -/
def otherRepoLogged : Db :=
  ⟨[], [], [⟨1, 2, "refs/heads/y", none, none, committerText someone, 0, "+0000", none⟩], 2⟩

/-- `refs/heads/x` at `aa..aa`. -/
def refXAtA : GitReference := ⟨"refs/heads/x", .direct (Oid.ofByte 0xaa)⟩

/-- Two databases with the same rows of repository 1, none, differ only in rows of repository
2 and in the sequence.  Writing `refs/heads/x` with a signature in repository 1 appends a reflog
row whose id is the sequence's next value, so the rows of repository 1 afterwards differ. -/
theorem reflog_ids_shared_across_repositories :
    Db.empty.slice 1 = otherRepoLogged.slice 1 ∧
    ((pgRefdbWrite 1 refXAtA false (some someone) none none none).run .idle
        Db.empty []).db.slice 1 ≠
      ((pgRefdbWrite 1 refXAtA false (some someone) none none none).run .idle
        otherRepoLogged []).db.slice 1
  := by decide

end Gitgres
