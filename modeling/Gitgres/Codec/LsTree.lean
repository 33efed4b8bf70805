import Gitgres.Schema
import Gitgres.Codec.Tree

/-!
# The recursive tree listing

`git_ls_tree_r(p_repo_id, p_tree_oid, p_prefix)` reads the content of the tree object
`p_tree_oid` of the repository, returns no rows when there is none, and otherwise walks the rows
of `git_tree_entries` in order.  An entry of mode `40000` is listed as a `tree` under the path
`p_prefix || name || '/'` and is followed at once by the listing of its own tree under that
path; any other entry is listed as a `blob` under `p_prefix || name`.  The function never looks
for a cycle: only the server's stack limit ends the recursion.  `gitLsTreeR db r depth` counts
that limit as a budget of `depth` nested calls, past which a call raises `stack depth limit
exceeded`; a raise anywhere aborts the whole listing.

A `Dir` is a directory as git stores it, one tree object per level.  It is written first child
and next sibling, so that every definition over it recurses on a plain inductive.
`Dir.StoredIn db r` says that the tree objects of repository `r` hold it as `git_ls_tree_r`
reads them.  On a stored directory, within any budget above its height, the listing is the
preorder walk of the directory.  On every database, a listing that succeeds is the same within
every larger budget, every path extends the prefix, the only errors are the stack limit and
invalid text, and a tree that reaches itself is never listed.
-/

namespace Gitgres

/-- A row of `git_ls_tree_r`: the mode and the path as the bytes of their text, the OID and the
object type. -/
structure LsTreeRow where
  mode : Bytes
  path : Bytes
  oid : Bytes
  objType : String
  deriving DecidableEq

/-- `SELECT o.content INTO v_content FROM objects o WHERE o.repo_id = p_repo_id AND
o.oid = p_tree_oid AND o.type = 2`: the content of the first such row, or `NULL`. -/
def treeContent (db : Db) (r : RepoId) (oid : Bytes) : Option Bytes :=
  (db.objects.find? fun o => o.repo = r ∧ o.oid = oid ∧ o.type = 2).map ObjectRow.content

/-- The mode `'40000'` of a directory entry. -/
def dirMode : Bytes := utf8 "40000"

/-- The `'/'` that ends the path of a directory. -/
def pathSep : Bytes := utf8 "/"

/-- What the server raises when the recursion passes its stack limit. -/
def stackDepthExceeded : String := "stack depth limit exceeded"

/-- The loop `FOR v_entry IN SELECT e.mode, e.name, e.entry_oid FROM git_tree_entries(v_content)
e LOOP` over the rows `rows` under the prefix `pre`, with `recur oid prefix` for the call
`git_ls_tree_r(p_repo_id, oid, prefix)`. -/
def lsTreeEntries (recur : Bytes → Bytes → Except String (List LsTreeRow)) (pre : Bytes) :
    List TreeRow → Except String (List LsTreeRow)
  | [] => .ok []
  | e :: es =>
    if e.mode = dirMode then do
      let sub ← recur e.oid (pre ++ e.name ++ pathSep)
      let rest ← lsTreeEntries recur pre es
      pure (⟨e.mode, pre ++ e.name ++ pathSep, e.oid, "tree"⟩ :: (sub ++ rest))
    else do
      let rest ← lsTreeEntries recur pre es
      pure (⟨e.mode, pre ++ e.name, e.oid, "blob"⟩ :: rest)

/-- `git_ls_tree_r(r, oid, pre)` within a budget of `depth` nested calls. -/
def gitLsTreeR (db : Db) (r : RepoId) : Nat → Bytes → Bytes → Except String (List LsTreeRow)
  | 0, _, _ => .error stackDepthExceeded
  | depth + 1, oid, pre =>
    match treeContent db r oid with
    | none => .ok []
    | some content => do
      let rows ← gitTreeEntries content
      lsTreeEntries (gitLsTreeR db r depth) pre rows

/-! ### One pass of the loop, one call -/

section Steps

variable {recur : Bytes → Bytes → Except String (List LsTreeRow)} {pre : Bytes} {e : TreeRow}
  {es : List TreeRow} {db : Db} {r : RepoId}

theorem lsTreeEntries_cons_dir (h : e.mode = dirMode) :
  lsTreeEntries recur pre (e :: es) =
    recur e.oid (pre ++ e.name ++ pathSep) >>= fun sub => lsTreeEntries recur pre es >>=
      fun rest => pure (⟨e.mode, pre ++ e.name ++ pathSep, e.oid, "tree"⟩ :: (sub ++ rest))
  := if_pos h

theorem lsTreeEntries_cons_file (h : e.mode ≠ dirMode) :
  lsTreeEntries recur pre (e :: es) =
    lsTreeEntries recur pre es >>= fun rest => pure (⟨e.mode, pre ++ e.name, e.oid, "blob"⟩ :: rest)
  := if_neg h

theorem gitLsTreeR_succ_none {depth : Nat} {oid : Bytes} (h : treeContent db r oid = none) :
  gitLsTreeR db r (depth + 1) oid pre = .ok []
  := by simp only [gitLsTreeR, h]

theorem gitLsTreeR_succ_some {depth : Nat} {oid content : Bytes}
    (h : treeContent db r oid = some content) :
  gitLsTreeR db r (depth + 1) oid pre =
    gitTreeEntries content >>= lsTreeEntries (gitLsTreeR db r depth) pre
  := by simp only [gitLsTreeR, h]

/-- A pass over a directory entry succeeds exactly when the nested listing and the rest of the
loop do. -/
theorem lsTreeEntries_cons_dir_ok {rows : List LsTreeRow} (h : e.mode = dirMode) :
  lsTreeEntries recur pre (e :: es) = .ok rows ↔ ∃ sub rest,
    recur e.oid (pre ++ e.name ++ pathSep) = .ok sub ∧ lsTreeEntries recur pre es = .ok rest ∧
      rows = ⟨e.mode, pre ++ e.name ++ pathSep, e.oid, "tree"⟩ :: (sub ++ rest)
  := by
  simp only [lsTreeEntries_cons_dir h, except_bind_eq_ok]
  constructor
  · rintro ⟨sub, hs, rest, hr, hrows⟩
    exact ⟨sub, rest, hs, hr, (Except.ok.inj hrows).symm⟩
  · rintro ⟨sub, rest, hs, hr, rfl⟩
    exact ⟨sub, hs, rest, hr, rfl⟩

/-- A pass over any other entry succeeds exactly when the rest of the loop does. -/
theorem lsTreeEntries_cons_file_ok {rows : List LsTreeRow} (h : e.mode ≠ dirMode) :
  lsTreeEntries recur pre (e :: es) = .ok rows ↔ ∃ rest,
    lsTreeEntries recur pre es = .ok rest ∧ rows = ⟨e.mode, pre ++ e.name, e.oid, "blob"⟩ :: rest
  := by
  simp only [lsTreeEntries_cons_file h, except_bind_eq_ok]
  exact exists_congr fun _ => and_congr_right fun _ => ⟨fun h => (Except.ok.inj h).symm,
    fun h => h ▸ rfl⟩

end Steps

/-! ### Stored directories -/

/-- A directory as git stores it, one tree object per level, written first child and next
sibling: `file e rest` is an entry `e` that is no directory, `missing e rest` a directory entry
whose tree object the repository lacks, `dir e sub rest` a directory entry whose tree holds
`sub`; `rest` holds the entries after `e`. -/
inductive Dir where
  | nil
  | file (e : TreeEntry) (rest : Dir)
  | missing (e : TreeEntry) (rest : Dir)
  | dir (e : TreeEntry) (sub rest : Dir)

namespace Dir

/-- The entries of a directory's tree object. -/
def entries : Dir → List TreeEntry
  | nil => []
  | file e rest | missing e rest | dir e _ rest => e :: rest.entries

/-- The listing of a directory under the prefix `pre`: its entries in order, each subdirectory
followed by its own listing under its path. -/
def walk (pre : Bytes) : Dir → List LsTreeRow
  | nil => []
  | file e rest => ⟨e.mode, pre ++ e.name, e.oid, "blob"⟩ :: rest.walk pre
  | missing e rest => ⟨e.mode, pre ++ e.name ++ pathSep, e.oid, "tree"⟩ :: rest.walk pre
  | dir e sub rest =>
    ⟨e.mode, pre ++ e.name ++ pathSep, e.oid, "tree"⟩ ::
      (sub.walk (pre ++ e.name ++ pathSep) ++ rest.walk pre)

/-- The nested calls that listing a directory's entries makes, counted down to the deepest. -/
def height : Dir → Nat
  | nil => 0
  | file _ rest => rest.height
  | missing _ rest => max 1 rest.height
  | dir _ sub rest => max (sub.height + 1) rest.height

/-- The tree objects of repository `r` hold the directory as `git_ls_tree_r` reads it: every
mode and name is text, the directory entries and only they have mode `40000`, and the OID of a
subdirectory names a tree object holding its entries, or no tree object for a missing one. -/
def StoredIn (db : Db) (r : RepoId) : Dir → Prop
  | nil => True
  | file e rest =>
    pgUtf8Verify e.mode ∧ pgUtf8Verify e.name ∧ e.mode ≠ dirMode ∧ rest.StoredIn db r
  | missing e rest =>
    pgUtf8Verify e.name ∧ e.mode = dirMode ∧ treeContent db r e.oid = none ∧ rest.StoredIn db r
  | dir e sub rest =>
    pgUtf8Verify e.name ∧ e.mode = dirMode ∧ treeContent db r e.oid = some (encodeTree sub.entries) ∧
      sub.StoredIn db r ∧ rest.StoredIn db r

instance decStoredIn (db : Db) (r : RepoId) : (d : Dir) → Decidable (d.StoredIn db r)
  | nil => isTrue trivial
  | file e rest =>
    have := decStoredIn db r rest
    inferInstanceAs (Decidable (pgUtf8Verify e.mode ∧ pgUtf8Verify e.name ∧ e.mode ≠ dirMode ∧ _))
  | missing e rest =>
    have := decStoredIn db r rest
    inferInstanceAs (Decidable (pgUtf8Verify e.name ∧ e.mode = dirMode ∧ treeContent db r e.oid = none ∧ _))
  | dir e sub rest =>
    have := decStoredIn db r sub
    have := decStoredIn db r rest
    inferInstanceAs (Decidable (pgUtf8Verify e.name ∧ e.mode = dirMode ∧
      treeContent db r e.oid = some (encodeTree sub.entries) ∧ _ ∧ _))

theorem pgUtf8Verify_dirMode :
  pgUtf8Verify dirMode = true
  := by decide

/-- The modes and names of a stored directory's entries are text. -/
theorem StoredIn.text {db : Db} {r : RepoId} :
  ∀ {d : Dir}, d.StoredIn db r → ∀ e ∈ d.entries, pgUtf8Verify e.mode = true ∧ pgUtf8Verify e.name = true
  | nil, _, _, h => by cases h
  | file _ _, ⟨hm, hn, _, hrest⟩, x, hx => by
    rcases List.mem_cons.mp hx with rfl | hx
    · exact ⟨hm, hn⟩
    · exact StoredIn.text hrest x hx
  | missing _ _, ⟨hn, hmode, _, hrest⟩, x, hx => by
    rcases List.mem_cons.mp hx with rfl | hx
    · exact ⟨hmode ▸ pgUtf8Verify_dirMode, hn⟩
    · exact StoredIn.text hrest x hx
  | dir _ _ _, ⟨hn, hmode, _, _, hrest⟩, x, hx => by
    rcases List.mem_cons.mp hx with rfl | hx
    · exact ⟨hmode ▸ pgUtf8Verify_dirMode, hn⟩
    · exact StoredIn.text hrest x hx

end Dir

/-- The loop over a stored directory's rows, with nested calls that list every stored directory
lower than their budget, lists the directory. -/
theorem lsTreeEntries_walk {db : Db} {r : RepoId} {k : Nat}
    (ih : ∀ (d : Dir) (oid pre : Bytes), treeContent db r oid = some (encodeTree d.entries) →
      d.StoredIn db r → d.height < k → gitLsTreeR db r k oid pre = .ok (d.walk pre)) :
  ∀ (d : Dir) (pre : Bytes), d.StoredIn db r → d.height ≤ k →
    lsTreeEntries (gitLsTreeR db r k) pre (d.entries.map TreeEntry.row) = .ok (d.walk pre)
  | .nil, _, _, _ => rfl
  | .file e rest, pre, ⟨_, _, hmode, hrest⟩, hk => by
    rw [Dir.entries, List.map_cons, lsTreeEntries_cons_file (e := e.row) hmode,
      lsTreeEntries_walk ih rest pre hrest hk]
    rfl
  | .missing e rest, pre, ⟨_, hmode, hnone, hrest⟩, hk => by
    simp only [Dir.height] at hk
    obtain ⟨j, rfl⟩ : ∃ j, k = j + 1 := ⟨k - 1, by omega⟩
    rw [Dir.entries, List.map_cons, lsTreeEntries_cons_dir (e := e.row) hmode]
    dsimp only [TreeEntry.row]
    rw [gitLsTreeR_succ_none hnone, lsTreeEntries_walk ih rest pre hrest (by omega)]
    rfl
  | .dir e sub rest, pre, ⟨_, hmode, hsub, hsubs, hrest⟩, hk => by
    simp only [Dir.height] at hk
    rw [Dir.entries, List.map_cons, lsTreeEntries_cons_dir (e := e.row) hmode]
    dsimp only [TreeEntry.row]
    rw [ih sub _ _ hsub hsubs (by omega), lsTreeEntries_walk ih rest pre hrest (by omega)]
    rfl

/-- On a directory stored in the repository, within any budget above its height, the listing is
the preorder walk of the directory: every entry in tree order, each subdirectory followed by its
own listing under its path, a missing subdirectory by nothing. -/
theorem ls_tree_walks_stored_directory (db : Db) (r : RepoId) :
  ∀ (depth : Nat) (d : Dir) (oid pre : Bytes), treeContent db r oid = some (encodeTree d.entries) →
    d.StoredIn db r → d.height < depth → gitLsTreeR db r depth oid pre = .ok (d.walk pre)
  | 0, _, _, _, _, _, h => absurd h (Nat.not_lt_zero _)
  | k + 1, d, oid, pre, hroot, hd, hk => by
    rw [gitLsTreeR_succ_some hroot, (treeParsers_agree_on_text d.entries hd.text).1]
    exact lsTreeEntries_walk (ls_tree_walks_stored_directory db r k) d pre hd (Nat.lt_succ_iff.mp hk)

/-- An entry `100644 f` of a blob. -/
def fileF : TreeEntry := ⟨utf8 "100644", utf8 "f", (Oid.ofByte 0xaa).id, by decide, by decide,
  (Oid.ofByte 0xaa).length_id⟩

/-- An entry `100644 g` of a blob. -/
def fileG : TreeEntry := ⟨utf8 "100644", utf8 "g", (Oid.ofByte 0xbb).id, by decide, by decide,
  (Oid.ofByte 0xbb).length_id⟩

/-- An entry `40000 d` of a stored tree. -/
def dirD : TreeEntry := ⟨dirMode, utf8 "d", (Oid.ofByte 0x22).id, by decide, by decide,
  (Oid.ofByte 0x22).length_id⟩

/-- An entry `40000 m` of a tree the repository lacks. -/
def dirM : TreeEntry := ⟨dirMode, utf8 "m", (Oid.ofByte 0x33).id, by decide, by decide,
  (Oid.ofByte 0x33).length_id⟩

/-- The directory `d/g`, `m/`, `f`. -/
def sampleDir : Dir := .dir dirD (.file fileG .nil) (.missing dirM (.file fileF .nil))

/-- Repository 1 with the tree of `sampleDir` and the tree of `d`. -/
def sampleTreeDb : Db :=
  { Db.empty with objects := [⟨1, (Oid.ofByte 0x11).id, 2, (encodeTree sampleDir.entries).length,
    encodeTree sampleDir.entries⟩, ⟨1, (Oid.ofByte 0x22).id, 2, (encodeTree [fileG]).length,
    encodeTree [fileG]⟩] }

theorem ls_tree_walks_stored_directory_of_sample :
  treeContent sampleTreeDb 1 (Oid.ofByte 0x11).id = some (encodeTree sampleDir.entries) ∧
    sampleDir.StoredIn sampleTreeDb 1 ∧ sampleDir.height < 2 ∧
    gitLsTreeR sampleTreeDb 1 2 (Oid.ofByte 0x11).id [] = .ok (sampleDir.walk [])
  := ⟨by decide, by decide, by decide,
    ls_tree_walks_stored_directory _ _ _ _ _ _ (by decide) (by decide) (by decide)⟩

/-! ### Every listing -/

/-- A row listed under the prefix `pre`: its path extends `pre`, and it is a `tree` exactly when
its mode is `40000`. -/
def LsTreeRow.Under (pre : Bytes) (x : LsTreeRow) : Prop :=
  pre <+: x.path ∧ (x.objType = "tree" ↔ x.mode = dirMode)

theorem LsTreeRow.Under.weaken {p q : Bytes} {x : LsTreeRow} (hpq : p <+: q) (h : x.Under q) :
  x.Under p
  := ⟨hpq.trans h.1, h.2⟩

theorem isPrefix_dirPath (pre name : Bytes) :
  pre <+: pre ++ name ++ pathSep
  := ⟨name ++ pathSep, (List.append_assoc _ _ _).symm⟩

section Listing

variable {recur recur' : Bytes → Bytes → Except String (List LsTreeRow)} {pre : Bytes} {db : Db}
  {r : RepoId}

/-- The loop lists its own rows under the prefix, and the nested listings under theirs. -/
theorem lsTreeEntries_under (hsub : ∀ oid p rows, recur oid p = .ok rows → ∀ x ∈ rows, x.Under p) :
  ∀ (es : List TreeRow) (rows : List LsTreeRow), lsTreeEntries recur pre es = .ok rows →
    ∀ x ∈ rows, x.Under pre
  | [], _, h => by cases h; simp
  | e :: es, rows, h => by
    by_cases hd : e.mode = dirMode
    · obtain ⟨sub, rest, hs, hr, rfl⟩ := (lsTreeEntries_cons_dir_ok hd).mp h
      intro x hx
      simp only [List.mem_cons, List.mem_append] at hx
      rcases hx with rfl | hx | hx
      · exact ⟨isPrefix_dirPath _ _, iff_of_true rfl hd⟩
      · exact (hsub _ _ _ hs x hx).weaken (isPrefix_dirPath _ _)
      · exact lsTreeEntries_under hsub es rest hr x hx
    · obtain ⟨rest, hr, rfl⟩ := (lsTreeEntries_cons_file_ok hd).mp h
      intro x hx
      rcases List.mem_cons.mp hx with rfl | hx
      · exact ⟨List.prefix_append _ _, iff_of_false (by decide : ("blob" : String) ≠ "tree") hd⟩
      · exact lsTreeEntries_under hsub es rest hr x hx

/-- The loop raises only what the nested listings raise. -/
theorem lsTreeEntries_error {Q : String → Prop} (hsub : ∀ oid p msg, recur oid p = .error msg → Q msg) :
  ∀ (es : List TreeRow) (msg : String), lsTreeEntries recur pre es = .error msg → Q msg
  | [], _, h => by cases h
  | e :: es, msg, h => by
    by_cases hd : e.mode = dirMode
    · rw [lsTreeEntries_cons_dir hd] at h
      rcases except_bind_eq_error.mp h with h | ⟨_, -, h⟩
      · exact hsub _ _ _ h
      rcases except_bind_eq_error.mp h with h | ⟨_, -, h⟩
      · exact lsTreeEntries_error hsub es msg h
      · cases h
    · rw [lsTreeEntries_cons_file hd] at h
      rcases except_bind_eq_error.mp h with h | ⟨_, -, h⟩
      · exact lsTreeEntries_error hsub es msg h
      · cases h

/-- A loop that succeeds with one recursive call succeeds alike with a call that agrees with it on
every success. -/
theorem lsTreeEntries_mono (hsub : ∀ oid p rows, recur oid p = .ok rows → recur' oid p = .ok rows) :
  ∀ (es : List TreeRow) (rows : List LsTreeRow), lsTreeEntries recur pre es = .ok rows →
    lsTreeEntries recur' pre es = .ok rows
  | [], _, h => h
  | e :: es, rows, h => by
    by_cases hd : e.mode = dirMode
    · obtain ⟨sub, rest, hs, hr, rfl⟩ := (lsTreeEntries_cons_dir_ok hd).mp h
      exact (lsTreeEntries_cons_dir_ok hd).mpr
        ⟨sub, rest, hsub _ _ _ hs, lsTreeEntries_mono hsub es rest hr, rfl⟩
    · obtain ⟨rest, hr, rfl⟩ := (lsTreeEntries_cons_file_ok hd).mp h
      exact (lsTreeEntries_cons_file_ok hd).mpr ⟨rest, lsTreeEntries_mono hsub es rest hr, rfl⟩

/-- A loop over a directory entry whose nested listing never succeeds never succeeds. -/
theorem lsTreeEntries_ne_ok {oid : Bytes} (hnever : ∀ p rows, recur oid p ≠ .ok rows) :
  ∀ (es : List TreeRow), (∃ e ∈ es, e.mode = dirMode ∧ e.oid = oid) →
    ∀ rows, lsTreeEntries recur pre es ≠ .ok rows
  | [], ⟨_, h, _⟩, _ => by cases h
  | e :: es, ⟨e', he', hmode, hoid⟩, rows => by
    intro h
    by_cases hd : e.mode = dirMode
    · obtain ⟨sub, rest, hs, hr, -⟩ := (lsTreeEntries_cons_dir_ok hd).mp h
      rcases List.mem_cons.mp he' with rfl | he'
      · exact hnever _ _ (hoid ▸ hs)
      · exact lsTreeEntries_ne_ok hnever es ⟨e', he', hmode, hoid⟩ rest hr
    · obtain ⟨rest, hr, -⟩ := (lsTreeEntries_cons_file_ok hd).mp h
      rcases List.mem_cons.mp he' with rfl | he'
      · exact hd hmode
      · exact lsTreeEntries_ne_ok hnever es ⟨e', he', hmode, hoid⟩ rest hr

theorem gitLsTreeR_under :
  ∀ (depth : Nat) (oid pre : Bytes) (rows : List LsTreeRow), gitLsTreeR db r depth oid pre = .ok rows →
    ∀ x ∈ rows, x.Under pre
  | 0, _, _, _, h => by cases h
  | k + 1, oid, pre, rows, h => by
    cases hc : treeContent db r oid with
    | none => rw [gitLsTreeR_succ_none hc] at h; cases h; simp
    | some content =>
      obtain ⟨es, -, h⟩ := except_bind_eq_ok.mp ((gitLsTreeR_succ_some hc).symm.trans h)
      exact lsTreeEntries_under (gitLsTreeR_under k) es rows h

theorem gitLsTreeR_error :
  ∀ (depth : Nat) (oid pre : Bytes) (msg : String), gitLsTreeR db r depth oid pre = .error msg →
    msg = stackDepthExceeded ∨ msg = invalidUtf8
  | 0, _, _, _, h => by cases h; exact .inl rfl
  | k + 1, oid, pre, msg, h => by
    cases hc : treeContent db r oid with
    | none => rw [gitLsTreeR_succ_none hc] at h; cases h
    | some content =>
      rw [gitLsTreeR_succ_some hc] at h
      rcases except_bind_eq_error.mp h with h | ⟨es, -, h⟩
      · exact .inr (gitTreeEntries_error _ _ h)
      · exact lsTreeEntries_error (gitLsTreeR_error k) es msg h

/-- One more nested call allowed keeps every listing that succeeds. -/
theorem gitLsTreeR_succ_of_ok :
  ∀ {depth : Nat} {oid pre : Bytes} {rows : List LsTreeRow}, gitLsTreeR db r depth oid pre = .ok rows →
    gitLsTreeR db r (depth + 1) oid pre = .ok rows
  | 0, _, _, _, h => by cases h
  | k + 1, oid, pre, rows, h => by
    cases hc : treeContent db r oid with
    | none => rwa [gitLsTreeR_succ_none hc] at h ⊢
    | some content =>
      rw [gitLsTreeR_succ_some hc, except_bind_eq_ok] at h ⊢
      obtain ⟨es, he, h⟩ := h
      exact ⟨es, he, lsTreeEntries_mono (fun _ _ _ => gitLsTreeR_succ_of_ok) es rows h⟩

end Listing

/-- On every database, every row of a listing lies under the prefix and is a `tree` exactly when
its mode is `40000`, and a listing that fails raises the stack limit or invalid text, nothing
else. -/
theorem ls_tree_rows_under_prefix (db : Db) (r : RepoId) (depth : Nat) (oid pre : Bytes) :
  (∀ rows, gitLsTreeR db r depth oid pre = .ok rows →
    ∀ x ∈ rows, pre <+: x.path ∧ (x.objType = "tree" ↔ x.mode = dirMode)) ∧
  (∀ msg, gitLsTreeR db r depth oid pre = .error msg → msg = stackDepthExceeded ∨ msg = invalidUtf8)
  := ⟨gitLsTreeR_under depth oid pre, gitLsTreeR_error depth oid pre⟩

/-- A listing that succeeds within a budget of nested calls returns the same rows within every
larger budget: the stack limit makes `git_ls_tree_r` raise, never return part of a listing. -/
theorem ls_tree_budget_never_truncates (db : Db) (r : RepoId) (oid pre : Bytes)
    (rows : List LsTreeRow) {depth depth' : Nat} (h : gitLsTreeR db r depth oid pre = .ok rows)
    (hle : depth ≤ depth') :
  gitLsTreeR db r depth' oid pre = .ok rows
  := by
  induction hle with
  | refl => exact h
  | step _ ih => exact gitLsTreeR_succ_of_ok ih

theorem ls_tree_budget_never_truncates_of_sample :
  gitLsTreeR sampleTreeDb 1 2 (Oid.ofByte 0x11).id [] = .ok (sampleDir.walk []) ∧ 2 ≤ 5 ∧
    gitLsTreeR sampleTreeDb 1 5 (Oid.ofByte 0x11).id [] = .ok (sampleDir.walk [])
  := ⟨rfl, by decide, @ls_tree_budget_never_truncates _ _ _ _ _ 2 5 rfl (by decide)⟩

/-- Tree objects `S` each of which holds a directory entry that names a tree of `S`, such as a
tree that names itself: no listing of any of them succeeds, within any budget. -/
theorem ls_tree_cycle_never_lists (db : Db) (r : RepoId) (S : List Bytes)
    (hS : ∀ oid ∈ S, ∃ content es, treeContent db r oid = some content ∧
      gitTreeEntries content = .ok es ∧ ∃ e ∈ es, e.mode = dirMode ∧ e.oid ∈ S) :
  ∀ (depth : Nat), ∀ oid ∈ S, ∀ pre rows, gitLsTreeR db r depth oid pre ≠ .ok rows
  | 0, _, _, _, _, h => by cases h
  | k + 1, oid, hoid, pre, rows, h => by
    obtain ⟨content, es, hc, he, e, hmem, hmode, heS⟩ := hS oid hoid
    rw [gitLsTreeR_succ_some hc, he] at h
    exact lsTreeEntries_ne_ok (ls_tree_cycle_never_lists db r S hS k e.oid heS) es
      ⟨e, hmem, hmode, rfl⟩ rows h

/-- An entry `40000 a` that names the tree it stands in. -/
def loopEntry : TreeEntry := ⟨dirMode, utf8 "a", (Oid.ofByte 0x44).id, by decide, by decide,
  (Oid.ofByte 0x44).length_id⟩

/-- Repository 1 with one tree, whose only entry is a directory naming that tree. -/
def cyclicTreeDb : Db :=
  { Db.empty with objects := [⟨1, (Oid.ofByte 0x44).id, 2, (encodeTree [loopEntry]).length,
    encodeTree [loopEntry]⟩] }

theorem ls_tree_cycle_never_lists_of_loop :
  (∀ oid ∈ [(Oid.ofByte 0x44).id], ∃ content es, treeContent cyclicTreeDb 1 oid = some content ∧
    gitTreeEntries content = .ok es ∧ ∃ e ∈ es, e.mode = dirMode ∧ e.oid ∈ [(Oid.ofByte 0x44).id]) ∧
  ∀ depth pre rows, gitLsTreeR cyclicTreeDb 1 depth (Oid.ofByte 0x44).id pre ≠ .ok rows
  := by
  have hS : ∀ oid ∈ [(Oid.ofByte 0x44).id], ∃ content es, treeContent cyclicTreeDb 1 oid = some content ∧
      gitTreeEntries content = .ok es ∧ ∃ e ∈ es, e.mode = dirMode ∧ e.oid ∈ [(Oid.ofByte 0x44).id] := by
    simp only [List.mem_singleton, forall_eq]
    exact ⟨_, [loopEntry.row], rfl, rfl, loopEntry.row, List.mem_singleton_self _, rfl, rfl⟩
  exact ⟨hS, fun depth => ls_tree_cycle_never_lists cyclicTreeDb 1 _ hS depth _
    (List.mem_singleton_self _)⟩

end Gitgres
