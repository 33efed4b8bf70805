import Gitgres.Refdb.Read

/-!
# Globs of the ref iterator

`pg_refdb_iterator` turns a glob into a `LIKE` pattern by writing `%` for each `*`, and escapes
nothing else.  For a glob without `_`, `%` and `\`, the pattern's tokens are the glob's own
(`likeTokens_globToLike`), and `LIKE` matches a name exactly when the glob does, `*` matching
any string and every other character itself (`matchTokens_map_globToken`).  The result the
iterator walks then holds the refs of the repository whose names match, in name order, and
`next_name` yields their names (`RefIterator.names_rows`).  An empty glob is no filter at all,
and a `_` or `%` of the glob is a `LIKE` wildcard.
-/

namespace Gitgres

/-- Glob matching for globs of literal characters and `*`: a `*` matches any string, possibly
empty, and every other character only itself. -/
def globMatches : List Char → List Char → Bool
  | [], s => s.isEmpty
  | '*' :: g, s => (List.range (s.length + 1)).any fun i => globMatches g (s.drop i)
  | c :: g, s => match s with
    | [] => false
    | d :: s => c == d && globMatches g s

/-- The refs of repository `b` whose names match the glob `g`, in name order. -/
def Db.refsMatching (db : Db) (b : RepoId) (g : String) : List RefRow :=
  byName (db.refs.filter fun x => x.repo = b ∧ globMatches g.toList x.name.toList)

/-- The `LIKE` token of a character of a glob that is no `LIKE` metacharacter. -/
def globToken (c : Char) : LikeToken := if c = '*' then .anySeq else .lit c

/-- The names `next_name` yields, one call after another, until it returns `GIT_ITEROVER`;
at most `fuel` calls. -/
def RefIterator.names (it : RefIterator) : Nat → List String
  | 0 => []
  | fuel + 1 => match pgRefdbIterNextName it with
    | (.ok name, it') => name :: it'.names fuel
    | (.error _, _) => []

/-! ### The pattern -/

theorem likeTokens_globToLike {g : String} (h : ∀ c ∈ g.data, c ≠ '_' ∧ c ≠ '%' ∧ c ≠ '\\') :
  likeTokens (globToLike g).data = some (g.data.map globToken)
  := by
  obtain ⟨g⟩ := g
  show likeTokens (g.map fun c => if c = '*' then '%' else c) = some (g.map globToken)
  induction g with
  | nil => rfl
  | cons c g ih =>
    obtain ⟨hu, hp, hb⟩ := h c (List.mem_cons_self c g)
    have ih := ih fun d hd => h d (List.mem_cons_of_mem c hd)
    by_cases hc : c = '*'
    · simp [hc, likeTokens, ih, globToken]
    · simp [hc, hu, hp, hb, likeTokens, ih, globToken]

theorem matchTokens_map_globToken (g s : List Char) :
  matchTokens (g.map globToken) s = globMatches g s
  := by
  induction g generalizing s with
  | nil => rfl
  | cons c g ih =>
    by_cases hc : c = '*'
    · subst hc
      simp [globToken, matchTokens, globMatches, ih]
    · cases s <;> simp [globToken, hc, matchTokens, globMatches, ih]

/-! ### The names the iterator yields -/

/-- From row `k` of a result whose count it holds, `next_name` yields the first cell of every
remaining row, when it may be called as often as there are rows left. -/
theorem RefIterator.names_rows (res : PGresult) (k fuel : Nat) (hfuel : res.ntuples ≤ k + fuel) :
  (⟨res, k, res.ntuples⟩ : RefIterator).names fuel =
    (res.rows.drop k).map fun row => (row.getD 0 .null).str res.format
  := by
  induction fuel generalizing k with
  | zero =>
    rw [List.drop_of_length_le (by simpa [PGresult.ntuples] using hfuel)]
    rfl
  | succ fuel ih =>
    by_cases hk : k < res.ntuples
    · have hrow : res.rows.drop k = res.rows.getD k [] :: res.rows.drop (k + 1) := by
        rw [List.getD_eq_getElem?_getD, List.getElem?_eq_getElem hk]
        exact List.drop_eq_getElem_cons hk
      rw [names, pgRefdbIterNextName, if_neg (show ¬k ≥ res.ntuples by omega), hrow,
        List.map_cons]
      exact congrArg _ (ih (k + 1) (by omega))
    · rw [names, pgRefdbIterNextName, if_pos (show k ≥ res.ntuples by omega),
        List.drop_of_length_le (by simpa [PGresult.ntuples] using hk)]
      rfl

/-- On a result of ref rows, `next_name` yields the refs' names, in the result's order. -/
theorem RefIterator.names_refRows (xs : List RefRow) (n : Nat) :
  (⟨⟨.tuplesOk, xs.map RefRow.cells, n, .text⟩, 0, (xs.map RefRow.cells).length⟩ : RefIterator).names
      (xs.map RefRow.cells).length = xs.map (·.name)
  := by
  refine (RefIterator.names_rows ⟨.tuplesOk, xs.map RefRow.cells, n, .text⟩ 0 _
    (Nat.le_add_left _ _)).trans ?_
  rw [List.drop_zero, List.map_map]
  rfl

/-! ### The iterator -/

/-- With a glob free of `LIKE` metacharacters, the iterator walks a text result holding the
matching refs, in name order. -/
theorem pgRefdbIterator_glob {b : RepoId} {g : String} (hne : g ≠ "")
    (hg : ∀ c ∈ g.toList, c ≠ '_' ∧ c ≠ '%' ∧ c ≠ '\\') (db : Db) {fails : List Bool}
    (hf : fails.headD false = false) :
  ((pgRefdbIterator b (some g)).run .idle db fails).val =
    .ok ⟨⟨.tuplesOk, (db.refsMatching b g).map RefRow.cells, (db.refsMatching b g).length, .text⟩,
      0, ((db.refsMatching b g).map RefRow.cells).length⟩
  := by
  simp only [pgRefdbIterator, hne, if_false, Prog.bind_eq, pqExecParams_bind, Prog.run_exec, hf]
  simp [Conn.exec, Conn.idle, Query.eval, likeTokens_globToLike hg, Outcome.select,
    Outcome.result, matchTokens_map_globToken, Db.refsMatching, PGresult.ntuples]

/-- With the empty glob, the iterator walks every ref of the repository, in name order. -/
theorem pgRefdbIterator_empty_glob (b : RepoId) (db : Db) {fails : List Bool}
    (hf : fails.headD false = false) :
  ((pgRefdbIterator b (some "")).run .idle db fails).val =
    .ok ⟨⟨.tuplesOk, (byName (db.refs.filter (·.repo = b))).map RefRow.cells,
      (byName (db.refs.filter (·.repo = b))).length, .text⟩,
      0, ((byName (db.refs.filter (·.repo = b))).map RefRow.cells).length⟩
  := by
  simp only [pgRefdbIterator, if_true, Prog.bind_eq, pqExecParams_bind, Prog.run_exec, hf]
  simp [Conn.exec, Conn.idle, Query.eval, Outcome.select, Outcome.result, PGresult.ntuples]

/-- For every non-empty glob of characters other than `_`, `%` and `\`, the iterator the
statement's server answers holds exactly the refs of the repository whose names match the
glob, in name order, and `next_name` yields their names; the empty glob gives every ref. -/
theorem ref_iterator_glob_names (b : RepoId) (db : Db) (fails : List Bool)
    (hf : fails.headD false = false) :
  (∀ g : String, g ≠ "" → (∀ c ∈ g.toList, c ≠ '_' ∧ c ≠ '%' ∧ c ≠ '\\') →
    ∃ it : RefIterator, ((pgRefdbIterator b (some g)).run .idle db fails).val = .ok it ∧
      it.result.rows = (db.refsMatching b g).map RefRow.cells ∧
      it.names it.total = (db.refsMatching b g).map (·.name)) ∧
  ∃ it : RefIterator, ((pgRefdbIterator b (some "")).run .idle db fails).val = .ok it ∧
    it.result.rows = (byName (db.refs.filter (·.repo = b))).map RefRow.cells ∧
    it.names it.total = (byName (db.refs.filter (·.repo = b))).map (·.name)
  := ⟨fun _ hne hg => ⟨_, pgRefdbIterator_glob hne hg db hf, rfl, RefIterator.names_refRows _ _⟩,
    ⟨_, pgRefdbIterator_empty_glob b db hf, rfl, RefIterator.names_refRows _ _⟩⟩

/-- Repository 1 with the one ref `refs/heads/axb`, symbolic to `refs/heads/main`. -/
def axbRefDb : Db := { Db.empty with refs := [⟨1, "refs/heads/axb", .symbolic "refs/heads/main"⟩] }

theorem ref_iterator_glob_names_heads :
  [].headD false = false ∧
    ∃ it : RefIterator, ((pgRefdbIterator 1 (some "refs/heads/*")).run .idle axbRefDb []).val = .ok it ∧
      it.result.rows = (axbRefDb.refsMatching 1 "refs/heads/*").map RefRow.cells ∧
      it.names it.total = (axbRefDb.refsMatching 1 "refs/heads/*").map (·.name)
  := ⟨rfl, (ref_iterator_glob_names 1 axbRefDb [] rfl).1 "refs/heads/*" (by decide) (by decide)⟩

/-- The empty glob, which matches no ref name, yields `refs/heads/axb`, and so does the glob
`refs/heads/a_b`, which does not match it either. -/
theorem ref_iterator_empty_and_underscore_globs :
  (axbRefDb.refsMatching 1 "").map (·.name) = [] ∧
    (((pgRefdbIterator 1 (some "")).run .idle axbRefDb []).val.map fun it => it.names it.total) =
      .ok ["refs/heads/axb"] ∧
    (axbRefDb.refsMatching 1 "refs/heads/a_b").map (·.name) = [] ∧
    (((pgRefdbIterator 1 (some "refs/heads/a_b")).run .idle axbRefDb []).val.map
      fun it => it.names it.total) = .ok ["refs/heads/axb"]
  := by
  decide

end Gitgres
