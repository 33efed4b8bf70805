import Gitgres.Helper.FastForward
import Mathlib.Data.List.Forall2

/-!
# The command loop, line by line

The loop of `main` and the block readers of `cmd_fetch` and `cmd_push` read their input with
`fgets` into a 1024-byte buffer and read each buffer as a C string.  On a stream of lines that
are each shorter than 1023 bytes and hold no NUL (`GoodLine`), every `fgets` returns one whole
line, and the loop is `transcript`: each command or command block answered once, in the order
of the lines, a block being the lines up to its blank line (`splitBlock`).  A push block is
answered with the specs of its first 128 push lines, one status text each, and a blank line.

The loop does not keep to that beyond such streams.  A line of 1023 bytes or more fills the
buffer: `fgets` returns its first 1023 bytes as a line and the rest, newline included, as the
next, so a fragment can be answered as a command and a lone newline read as the blank line that
ends the loop (`helperLoop_long_line`).  A status text `error D <reason>` carries the server's
message, which ends with a newline, so `printf("%s\n")` puts a blank line inside the status
block.
-/

namespace Gitgres

/-- A line that `fgets` into `line[1024]` reads whole with its newline, and that reads back as
a C string without loss. -/
def GoodLine (l : List Char) : Prop := '\n' ∉ l ∧ '\x00' ∉ l ∧ l.length < 1023

instance : DecidablePred GoodLine := fun _ => inferInstanceAs (Decidable (_ ∧ _ ∧ _))

/-- The stream of the lines `ls`, each ended by a newline. -/
def render : List (List Char) → List Char
  | [] => []
  | l :: ls => l ++ '\n' :: render ls

/-- What `printf("%s\n", s)` prints for each `s` of `ss` in turn. -/
def printed (ss : List String) : List Char := render (ss.map String.toList)

/-- The lines of a block before its blank line, and the lines after that blank line. -/
def splitBlock : List (List Char) → List (List Char) × List (List Char)
  | [] => ([], [])
  | l :: ls => if l = [] then ([], ls) else
    let r := splitBlock ls
    (l :: r.1, r.2)

/-- The push specs of the push lines of a block, in order. -/
def pushSpecsOf (block : List (List Char)) : List PushSpec :=
  block.filterMap fun l => if "push ".toList.isPrefixOf l then some (parsePushSpec (l.drop 5)) else none

theorem length_le_render (ls : List (List Char)) :
  ls.length ≤ (render ls).length
  := by
  induction ls with
  | nil => simp [render]
  | cons l ls ih => simp only [render, List.length_cons, List.length_append]; omega

theorem render_append (ls ls' : List (List Char)) :
  render (ls ++ ls') = render ls ++ render ls'
  := by
  induction ls with
  | nil => rfl
  | cons l ls ih => simp [render, ih]

theorem splitBlock_snd_length (ls : List (List Char)) :
  (splitBlock ls).2.length ≤ ls.length
  := by
  induction ls with
  | nil => simp [splitBlock]
  | cons l ls ih => unfold splitBlock; split <;> simp only [List.length_cons] <;> omega

theorem splitBlock_snd_mem {ls : List (List Char)} {l : List Char} (h : l ∈ (splitBlock ls).2) :
  l ∈ ls
  := by
  induction ls with
  | nil => simp [splitBlock] at h
  | cons l' ls ih =>
    unfold splitBlock at h
    split at h
    · exact List.mem_cons_of_mem _ h
    · exact List.mem_cons_of_mem _ (ih h)

/-! ### One line at a time -/

theorem fgetsTake_line {l : List Char} (hl : '\n' ∉ l) (s : List Char) {k : Nat}
    (hk : l.length < k) :
  fgetsTake k (l ++ '\n' :: s) = (l ++ ['\n'], s)
  := by
  induction l generalizing k with
  | nil => cases k <;> simp_all [fgetsTake]
  | cons c l ih =>
    obtain ⟨k, rfl⟩ : ∃ k', k = k' + 1 := ⟨k - 1, by simp at hk; omega⟩
    simp only [List.mem_cons, not_or] at hl
    rw [List.cons_append, fgetsTake, if_neg (Ne.symm hl.1), ih hl.2 (by simpa using hk)]
    rfl

/-- `fgets` reads a line whole, with its newline. -/
theorem fgets_render_cons {l : List Char} (hl : GoodLine l) (ls : List (List Char)) :
  fgets 1024 (render (l :: ls)) = some (l ++ ['\n'], render ls)
  := by
  have hne : render (l :: ls) ≠ [] := by simp [render]
  rw [fgets.eq_def]
  split
  · contradiction
  · exact congrArg some (fgetsTake_line hl.1 _ (by have := hl.2.2; omega))

/-- `chomp` gives the line back. -/
theorem chomp_line {l : List Char} (hl : '\x00' ∉ l) :
  chomp (l ++ ['\n']) = l
  := by
  have hc : cString (l ++ ['\n']) = l ++ ['\n'] :=
    List.takeWhile_eq_self_iff.2 fun c hc => by
      simp only [List.mem_append, List.mem_singleton] at hc
      rcases hc with hc | rfl
      · have hnul : c ≠ '\x00' := by rintro rfl; exact hl hc
        simpa using hnul
      · decide
  simp [chomp, hc, List.getLast?_concat]

/-- `fgets` stops at its bound when no newline comes first. -/
theorem fgetsTake_long : ∀ {k : Nat} {l : List Char}, k ≤ l.length → '\n' ∉ l.take k →
    ∀ s, fgetsTake k (l ++ s) = (l.take k, l.drop k ++ s)
  | 0, _, _, _, _ => by rw [fgetsTake]; rfl
  | k + 1, c :: l, hk, hl, s => by
    have hc : c ≠ '\n' := fun h => hl (h ▸ List.mem_cons_self _ _)
    rw [List.cons_append, fgetsTake, if_neg hc,
      fgetsTake_long (Nat.le_of_succ_le_succ hk) (fun h => hl (List.mem_cons_of_mem _ h)) s]
    rfl

/-- `chomp` keeps a buffer without a newline or a NUL as it is. -/
theorem chomp_of_plain {l : List Char} (hn : '\n' ∉ l) (h0 : '\x00' ∉ l) :
  chomp l = l
  := by
  have hc : cString l = l := List.takeWhile_eq_self_iff.2 fun c hc => by
    have : c ≠ '\x00' := by rintro rfl; exact h0 hc
    simpa using this
  simp only [chomp, hc]
  split
  · exact absurd (List.mem_of_getLast?_eq_some ‹_›) hn
  · rfl

/-! ### The block readers -/

section Blocks

variable {ls : List (List Char)} (hls : ∀ l ∈ ls, GoodLine l)
include hls

/-- The fetch block reader stops after the block's blank line. -/
theorem skipBlock_render {k : Nat} (hk : ls.length ≤ k) :
  skipBlock k (render ls) = render (splitBlock ls).2
  := by
  induction ls generalizing k with
  | nil => cases k <;> rfl
  | cons l ls ih =>
    obtain ⟨k, rfl⟩ : ∃ k', k = k' + 1 := ⟨k - 1, by simp at hk; omega⟩
    have hl := hls l (List.mem_cons_self _ _)
    simp only [skipBlock, fgets_render_cons hl, chomp_line hl.2.1, splitBlock]
    split
    · rfl
    · exact ih (fun l' h' => hls l' (List.mem_cons_of_mem _ h')) (by simpa using hk)

/-- The push block reader collects the specs of the block's push lines while it has fewer than
128, and stops after the block's blank line. -/
theorem readPushSpecs_render {k : Nat} (hk : ls.length ≤ k) {specs : List PushSpec}
    (hs : specs.length ≤ 128) :
  readPushSpecs k (render ls) specs =
    ((specs ++ pushSpecsOf (splitBlock ls).1).take 128, render (splitBlock ls).2)
  := by
  induction ls generalizing k specs with
  | nil =>
    cases k <;>
      simp [readPushSpecs, fgets, splitBlock, pushSpecsOf, render, List.take_of_length_le hs]
  | cons l ls ih =>
    obtain ⟨k, rfl⟩ : ∃ k', k = k' + 1 := ⟨k - 1, by simp at hk; omega⟩
    have hl := hls l (List.mem_cons_self _ _)
    have hls' : ∀ l' ∈ ls, GoodLine l' := fun l' h' => hls l' (List.mem_cons_of_mem _ h')
    have hk' : ls.length ≤ k := by simpa using hk
    simp only [readPushSpecs, fgets_render_cons hl, chomp_line hl.2.1, splitBlock]
    by_cases hb : l = []
    · simp [hb, pushSpecsOf, List.take_of_length_le hs]
    by_cases hp : "push ".toList.isPrefixOf l = true
    · by_cases hn : specs.length < 128
      · have hs' : (specs ++ [parsePushSpec (l.drop 5)]).length ≤ 128 := by simp; omega
        simp only [hb, hp, hn, decide_True, Bool.and_self, if_true, if_false,
          ih hls' hk' hs', pushSpecsOf, List.filterMap_cons, List.append_assoc,
          List.singleton_append]
      · have h128 : specs.length = 128 := by omega
        simp only [hb, hp, hn, decide_False, Bool.and_false, if_false, ih hls' hk' hs,
          List.take_left' h128, Bool.false_eq_true]
    · simp only [hb, hp, Bool.false_and, if_false, ih hls' hk' hs, pushSpecsOf,
        List.filterMap_cons, Bool.false_eq_true]

end Blocks

/-! ### The answers -/

/-- A status text for a push spec: `ok D`, or `error D` and a reason, `D` its destination. -/
def StatusFor (spec : PushSpec) (s : String) : Prop :=
  s.toList = "ok ".toList ++ spec.dst ∨ ∃ reason, s.toList = "error ".toList ++ spec.dst ++ ' ' :: reason

theorem foldl_printLn (ss : List String) (h : Helper) :
  ss.foldl Helper.printLn h = { h with output := h.output ++ printed ss }
  := by
  induction ss generalizing h with
  | nil => simp [printed, render]
  | cons s ss ih => simp [ih, Helper.printLn, printed, render]

theorem printLn_printed (h : Helper) (s : String) (ss : List String) :
  { h.printLn s with output := (h.printLn s).output ++ printed ss } =
    { h with output := h.output ++ printed (s :: ss) }
  := by
  simp [Helper.printLn, printed, render]

/-- Each ref update answers with a status text for its spec. -/
theorem pushRef_status (env : HelperEnv) (repo : LocalRepo) (spec : PushSpec) :
  (pushRef env repo spec).Returns (StatusFor spec)
  := by
  unfold pushRef
  simp only [Prog.bind_eq, Prog.pure_eq, pqExecParams_bind, Prog.ite_bind, Prog.done_bind]
  split
  · simp [StatusFor, String.toList]
  · split
    · simp [StatusFor, String.toList]
    · simp only [Prog.returns_exec]
      intro res
      split <;> simp [StatusFor, String.toList]

/-- The ref updates print one status line per spec, in order. -/
theorem pushRefs_status (env : HelperEnv) (specs : List PushSpec) (h : Helper) :
  (pushRefs env specs h).Returns fun h' => ∃ sts, List.Forall₂ StatusFor specs sts ∧
    h' = { h with output := h.output ++ printed sts }
  := by
  induction specs generalizing h with
  | nil => exact .done ⟨[], .nil, by simp [printed, render]⟩
  | cons spec specs ih =>
    refine (pushRef_status env h.repo spec).bind fun line hline => (ih _).mono ?_
    rintro _ ⟨sts, hsts, rfl⟩
    exact ⟨line :: sts, .cons hline hsts, printLn_printed h line sts⟩

/-- A push block, once the local repository opens, is answered with one status line per spec
and a blank line. -/
theorem pushAnswer_status {env : HelperEnv} (hopen : env.openFails = false)
    (specs : List PushSpec) (h : Helper) :
  (pushAnswer env specs h).Returns fun h' => ∃ sts, List.Forall₂ StatusFor specs sts ∧
    h' = { h with output := h.output ++ printed sts ++ ['\n'] }
  := by
  simp only [pushAnswer, hopen, Bool.false_eq_true, if_false, Prog.bind_eq, Prog.pure_eq,
    Prog.done_bind]
  refine Prog.returns_bind_of _ fun _ => (pushRefs_status env specs h).bind ?_
  rintro _ ⟨sts, hsts, rfl⟩
  simp only [pqExecParams_bind, Prog.returns_exec]
  intro res
  have hdone : ∃ sts', List.Forall₂ StatusFor specs sts' ∧
      { h with output := h.output ++ printed sts }.printLn "" =
        { h with output := h.output ++ printed sts' ++ ['\n'] } :=
    ⟨sts, hsts, by simp [Helper.printLn]⟩
  split
  · exact .exec fun _ => .done hdone
  · exact .done hdone

/-- A fetch block, once the local repository opens, is answered with a blank line. -/
theorem fetchAnswer_blank {env : HelperEnv} (hopen : env.openFails = false) (h : Helper) :
  (fetchAnswer env h).Returns fun h' => ∃ repo, h' = { h with repo := repo, output := h.output ++ ['\n'] }
  := by
  simp only [fetchAnswer, hopen, Bool.false_eq_true, if_false, Prog.bind_eq, Prog.pure_eq,
    Prog.done_bind]
  exact Prog.returns_bind_of _ fun r => .done ⟨r.2, by simp [Helper.printLn]⟩

/-- `list` is answered with its listing and a blank line, or stops the helper. -/
theorem cmdList_listing (env : HelperEnv) (h : Helper) :
  (cmdList env h).Returns fun h' => h' = h.die ∨
    ∃ ss, h' = { h with output := h.output ++ printed ss ++ ['\n'] }
  := by
  simp only [cmdList, Prog.bind_eq, Prog.pure_eq, pqExecParams_bind, Prog.returns_exec]
  intro res
  split
  · exact .done (.inl rfl)
  · refine .done (.inr ?_)
    split
    · rename_i line _
      exact ⟨(listRows res (List.range res.ntuples)).1 ++ [line],
        by simp [foldl_printLn, Helper.printLn, printed, render_append, render]⟩
    · exact ⟨(listRows res (List.range res.ntuples)).1,
        by simp [foldl_printLn, Helper.printLn]⟩

/-- Every command leaves the rest of the input to the loop. -/
theorem cmdList_input (env : HelperEnv) (h : Helper) :
  (cmdList env h).Returns fun h' => h'.input = h.input
  := (cmdList_listing env h).mono fun _ hh' => by rcases hh' with rfl | ⟨_, rfl⟩ <;> rfl

theorem fetchAnswer_input (env : HelperEnv) (h : Helper) :
  (fetchAnswer env h).Returns fun h' => h'.input = h.input
  := by
  cases hopen : env.openFails
  · exact (fetchAnswer_blank hopen h).mono fun _ ⟨_, hh'⟩ => hh' ▸ rfl
  · simp [fetchAnswer, hopen, Helper.die]

theorem pushAnswer_input (env : HelperEnv) (specs : List PushSpec) (h : Helper) :
  (pushAnswer env specs h).Returns fun h' => h'.input = h.input
  := by
  cases hopen : env.openFails
  · exact (pushAnswer_status hopen specs h).mono fun _ ⟨_, _, hh'⟩ => hh' ▸ rfl
  · simp [pushAnswer, hopen, Helper.die]

/-! ### The loop over whole lines -/

/-- The loop of `main` over a stream of whole lines: each command answered in the order of the
lines, a `fetch` or `push` block once its blank line is read, a push block with the specs of its
first 128 push lines; the loop stops at a blank line, at the end of the lines, or when the
helper dies.  The helper's input is always the stream of the lines not read yet. -/
def transcript (env : HelperEnv) (ls : List (List Char)) (h : Helper) : Prog Helper :=
  match ls with
  | [] => pure h
  | l :: ls =>
    let block := splitBlock ls
    if l = "capabilities".toList then transcript env ls (cmdCapabilities { h with input := render ls })
    else if l = "list".toList ∨ l = "list for-push".toList then do
      let h ← cmdList env { h with input := render ls }
      if h.exitCode.isSome then return h
      transcript env ls h
    else if "fetch ".toList.isPrefixOf l then do
      let h ← fetchAnswer env { h with input := render block.2 }
      if h.exitCode.isSome then return h
      transcript env block.2 h
    else if "push ".toList.isPrefixOf l then do
      let h ← pushAnswer env ((pushSpecsOf (l :: block.1)).take 128) { h with input := render block.2 }
      if h.exitCode.isSome then return h
      transcript env block.2 h
    else if l = [] then pure { h with input := render ls }
    else transcript env ls { h with input := render ls }
termination_by ls.length
decreasing_by
  all_goals simp_wf
  all_goals first | omega | exact Nat.lt_succ_of_le (splitBlock_snd_length _)

/-- On a stream of whole lines, the loop of `main` is `transcript`, given a round of fuel for
each line. -/
theorem helperLoop_render (env : HelperEnv) {fuel : Nat} :
    ∀ {ls : List (List Char)}, (∀ l ∈ ls, GoodLine l) → ls.length ≤ fuel →
    ∀ {h : Helper}, h.input = render ls →
  helperLoop env fuel h = transcript env ls h
  := by
  induction fuel with
  | zero =>
    intro ls _ hfuel h _
    rw [List.eq_nil_of_length_eq_zero (Nat.le_zero.1 hfuel), transcript]
    rfl
  | succ k ih =>
    intro ls hls hfuel h hin
    rcases ls with _ | ⟨l, ls⟩
    · rw [transcript, helperLoop, hin]
      rfl
    have hl := hls l (List.mem_cons_self _ _)
    have hls' : ∀ l' ∈ ls, GoodLine l' := fun l' h' => hls l' (List.mem_cons_of_mem _ h')
    have hk : ls.length ≤ k := by simpa using hfuel
    have hrest : (splitBlock ls).2.length ≤ k := (splitBlock_snd_length ls).trans hk
    have hrest' : ∀ l' ∈ (splitBlock ls).2, GoodLine l' :=
      fun l' h' => hls' l' (splitBlock_snd_mem h')
    rw [transcript, helperLoop, hin, fgets_render_cons hl]
    simp only [chomp_line hl.2.1, Prog.bind_eq]
    refine ite_congr rfl (fun _ => ih hls' hk rfl) fun _ => ?_
    refine ite_congr rfl (fun _ => Prog.Returns.bind_congr (cmdList_input env _)
      fun h' hh' => by rw [ih hls' hk hh']) fun _ => ?_
    refine ite_congr rfl (fun _ => ?_) fun _ => ite_congr rfl (fun hpush => ?_) fun _ =>
      ite_congr rfl (fun _ => rfl) fun _ => ih hls' hk rfl
    · simp only [cmdFetch, skipBlock_render hls' (length_le_render ls)]
      exact Prog.Returns.bind_congr (fetchAnswer_input env _) fun h' hh' => by
        rw [ih hrest' hrest hh']
    · have hfirst : [parsePushSpec (l.drop 5)].length ≤ 128 := by simp
      simp only [cmdPush, hpush, if_true, List.singleton_append, pushSpecsOf, List.filterMap_cons,
        readPushSpecs_render hls' (length_le_render ls) hfirst]
      exact Prog.Returns.bind_congr (pushAnswer_input env _ _) fun h' hh' => by
        rw [ih hrest' hrest hh']

/-- The helper on a stream of whole lines is `transcript` from its start. -/
theorem gitRemoteGitgres_render (env : HelperEnv) {ls : List (List Char)}
    (hls : ∀ l ∈ ls, GoodLine l) (repo : LocalRepo) :
  gitRemoteGitgres env (render ls) repo = transcript env ls ⟨render ls, [], repo, none⟩
  := helperLoop_render env hls (Nat.le_succ_of_le (length_le_render ls)) rfl

/-- On every stream of lines shorter than 1023 bytes and without NUL, the helper is the loop
over whole lines that answers each command or block once, in order; a push block is answered
with a status text for each of its specs and a blank line, a fetch block with a blank line, and
`list` with its listing and a blank line. -/
theorem helper_answers_whole_lines :
    (∀ (env : HelperEnv) (ls : List (List Char)) (repo : LocalRepo), (∀ l ∈ ls, GoodLine l) →
      gitRemoteGitgres env (render ls) repo = transcript env ls ⟨render ls, [], repo, none⟩) ∧
    (∀ (env : HelperEnv) (specs : List PushSpec) (h : Helper), env.openFails = false →
      (pushAnswer env specs h).Returns fun h' => ∃ sts, List.Forall₂ StatusFor specs sts ∧
        h' = { h with output := h.output ++ printed sts ++ ['\n'] }) ∧
    (∀ (env : HelperEnv) (h : Helper), env.openFails = false →
      (fetchAnswer env h).Returns fun h' =>
        ∃ repo, h' = { h with repo := repo, output := h.output ++ ['\n'] }) ∧
    (∀ (env : HelperEnv) (h : Helper), (cmdList env h).Returns fun h' => h' = h.die ∨
      ∃ ss, h' = { h with output := h.output ++ printed ss ++ ['\n'] })
  := ⟨fun env _ repo hls => gitRemoteGitgres_render env hls repo,
    fun _ specs h hopen => pushAnswer_status hopen specs h,
    fun _ h hopen => fetchAnswer_blank hopen h, cmdList_listing⟩

/-! ### Lines the buffer cannot hold -/

/-- A round of the loop on a stream whose next 1023 bytes hold no newline and no NUL reads those
bytes as a line; when they start no command, the loop goes on with the rest of the stream, the
rest of that line first. -/
theorem helperLoop_long_line (env : HelperEnv) (k : Nat) {h : Helper} {l s : List Char}
    (hin : h.input = l ++ s) (hlen : l.length = 1023) (hn : '\n' ∉ l) (h0 : '\x00' ∉ l)
    (hfetch : "fetch ".toList.isPrefixOf l = false) (hpush : "push ".toList.isPrefixOf l = false) :
  helperLoop env (k + 1) h = helperLoop env k { h with input := s }
  := by
  have hread : fgets 1024 h.input = some (l, s) := by
    have hl := fgetsTake_long (k := 1023) hlen.ge (by rw [← hlen, List.take_length]; exact hn) s
    rw [← hlen, List.take_length, List.drop_length, List.nil_append, hlen] at hl
    obtain ⟨c, l', rfl⟩ : ∃ c l', l = c :: l' := by
      cases l with
      | nil => cases hlen
      | cons c l' => exact ⟨c, l', rfl⟩
    rw [hin]
    exact congrArg some hl
  have hne (c : List Char) (hc : c.length ≠ 1023) : l ≠ c := fun h => hc (h ▸ hlen)
  rw [helperLoop, hread]
  simp only [chomp_of_plain hn h0, hfetch, hpush, Bool.false_eq_true, if_false,
    hne "capabilities".toList (by decide), hne "list".toList (by decide),
    hne "list for-push".toList (by decide), hne [] (by decide), or_self]

/-- Four streams whose commands the loop does not answer line by line.  The line of 1023 `a`s
followed by `capabilities` is read as two lines, and its end is answered as `capabilities`.
After the line of 1023 `a`s, its newline is read as a blank line, which ends the loop before
`capabilities`.  A failed upsert's status `error D` ends with the server's message and its
newline, which puts a blank line inside the status block.  A push block of 129 lines is
answered with 128 status lines. -/
theorem helper_breaks_line_protocol :
  ((gitRemoteGitgres pushEnv (List.replicate 1023 'a' ++ render ["capabilities".toList, []])
      ⟨[], []⟩).run .idle Db.empty []).val.output = printed ["fetch", "push", ""] ∧
    ((gitRemoteGitgres pushEnv (List.replicate 1023 'a' ++ render [[], "capabilities".toList, []])
      ⟨[], []⟩).run .idle Db.empty []).val.output = [] ∧
    ((gitRemoteGitgres pushEnv (render ["push refs/heads/main:refs/heads/main".toList,
      "push refs/heads/main:refs/heads/y".toList, []]) pushRepo).run .idle Db.empty
      [false, false, false, true]).val.output =
      printed ["error refs/heads/main ERROR:  statement failed", "", "ok refs/heads/y", ""] ∧
    ((gitRemoteGitgres pushEnv (render (List.replicate 129 "push :a".toList ++ [[]])) ⟨[], []⟩).run
      .idle Db.empty []).val.output = printed (List.replicate 128 "ok a") ++ ['\n']
  := by
  have hn : '\n' ∉ List.replicate 1023 'a' := fun h => absurd (List.eq_of_mem_replicate h) (by decide)
  have h0 : '\x00' ∉ List.replicate 1023 'a' :=
    fun h => absurd (List.eq_of_mem_replicate h) (by decide)
  refine ⟨?_, ?_, by decide, by set_option maxRecDepth 40000 in decide⟩ <;>
  · rw [gitRemoteGitgres, helperLoop_long_line pushEnv _ rfl (List.length_replicate _ _) hn h0
      (by decide) (by decide), List.length_append, List.length_replicate]
    decide

end Gitgres
