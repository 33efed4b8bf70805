import Gitgres.Sql.Text
import Gitgres.Sql.Utf8

/-!
# Commit objects

`git_commit_parse` reads the content of a commit object as text with `convert_from`, splits it
at the first empty line into header lines and the message, and walks the header lines: a line
`tree <hex>` sets the tree, each `parent <hex>` adds a parent, and `author <ident>` and
`committer <ident>` set the four columns of an identity, read from `<ident>` by the pattern
`<([^>]+)>` for the e-mail, the text before the first `<` trimmed for the name, and the pattern
`> (\d+) ([+-]\d{4})$` for the timestamp and the time zone.  Other lines are skipped.  The
character class `\d` is read as the ASCII digits.

A `CommitRecord` is what git writes in a commit object: a tree, parents, an author and a
committer, extra headers with their continuation lines, and a message; `CommitRecord.serialize`
is its canonical text.  On the bytes of that text `git_commit_parse` raises the error of
`convert_from` when a name, an e-mail or an extra header holds a NUL
(`gitCommitParse_serialize_of_nul`), and otherwise returns the record's fields, except that an
empty e-mail comes back `NULL`, since `[^>]+` needs one character (`gitCommitParse_serialize`).
-/

namespace Gitgres

/-! ### `git_commit_parse` -/

/-- The four columns of an identity in a row of `git_commit_parse`, `NULL` as `none`. -/
structure IdentRow where
  name : Option String
  email : Option String
  timestamp : Option Int
  tz : Option String
  deriving DecidableEq

/-- A row of `git_commit_parse`. -/
structure CommitRow where
  treeOid : Option Bytes
  parentOids : List Bytes
  author : IdentRow
  committer : IdentRow
  message : String
  deriving DecidableEq

/-- The variables of `git_commit_parse` before its loop: every column `NULL` and no parent. -/
def CommitRow.empty : CommitRow :=
  ⟨none, [], ⟨none, none, none, none⟩, ⟨none, none, none, none⟩, ""⟩

/-- `substring(ident FROM '<([^>]+)>')`: after the first `<` that is followed by at least one
character other than `>` and then a `>`, the characters up to that `>`; `NULL` when there is
none. -/
def emailGroup : List Char → Option (List Char)
  | [] => none
  | c :: rest =>
    if c = '<' ∧ rest.takeWhile (· ≠ '>') ≠ [] ∧ '>' ∈ rest then
      some (rest.takeWhile (· ≠ '>'))
    else emailGroup rest

/-- A time zone as `[+-]\d{4}$` reads it: a sign and four digits, up to the end. -/
def isTzText (tz : List Char) : Bool :=
  tz.length = 5 && (tz.head? = some '+' || tz.head? = some '-') && (tz.drop 1).all Char.isDigit

/-- The two groups of `> (\d+) ([+-]\d{4})$` when it matches at a `>` followed by `rest`: a SP,
the digits, which run up to a SP, and after that SP a time zone up to the end. -/
def tsTzGroups (rest : List Char) : Option (List Char × List Char) :=
  let digits := (rest.drop 1).takeWhile Char.isDigit
  let after := (rest.drop 1).dropWhile Char.isDigit
  if rest.head? = some ' ' ∧ digits ≠ [] ∧ after.head? = some ' ' ∧
      isTzText (after.drop 1) then
    some (digits, after.drop 1)
  else none

/-- `regexp_matches(ident, '> (\d+) ([+-]\d{4})$')`: the groups at the first `>` where the
pattern matches; no row, so `NULL`, when it matches nowhere. -/
def tsTzMatch : List Char → Option (List Char × List Char)
  | [] => none
  | c :: rest => if c = '>' ∧ (tsTzGroups rest).isSome then tsTzGroups rest else tsTzMatch rest

/-- The identity columns read from the text after `author ` or `committer `. -/
def parseIdent (ident : String) : Except String IdentRow := do
  let email := (emailGroup ident.data).map String.mk
  let name ← substrFor ident 1 ((textPosition "<" ident : Int) - 1)
  let parts := tsTzMatch ident.data
  let timestamp ← match parts with
    | some (digits, _) => some <$> bigintIn ⟨digits⟩
    | none => pure none
  pure ⟨some (btrim name), email, timestamp, parts.map fun p => ⟨p.2⟩⟩

/-- One pass of the loop of `git_commit_parse` over the header lines. -/
def commitLine (row : CommitRow) (line : String) : Except String CommitRow :=
  if likeMatch "tree %" line = some true then do
    let oid ← decodeHex (substrFrom line 6)
    pure { row with treeOid := some oid }
  else if likeMatch "parent %" line = some true then do
    let oid ← decodeHex (substrFrom line 8)
    pure { row with parentOids := row.parentOids ++ [oid] }
  else if likeMatch "author %" line = some true then do
    let ident ← parseIdent (substrFrom line 8)
    pure { row with author := ident }
  else if likeMatch "committer %" line = some true then do
    let ident ← parseIdent (substrFrom line 11)
    pure { row with committer := ident }
  else pure row

/-- The error of `FOR v_i IN 1..array_length(v_lines, 1)` when `v_lines` is empty. -/
def forLoopNullBound : String := "upper bound of FOR loop cannot be null"

/-- `git_commit_parse(p_content)`: the header lines before the first empty line, or all lines
when there is none, and the message after it. -/
def gitCommitParse (content : Bytes) : Except String CommitRow := do
  let text := textOfBytes (← convertFrom content)
  let headerEnd := textPosition "\n\n" text
  let message := if headerEnd = 0 then "" else substrFrom text (headerEnd + 2)
  let lines ← if headerEnd = 0 then pure (stringToArray text '\n')
    else (stringToArray · '\n') <$> substrFor text 1 ((headerEnd : Int) - 1)
  if lines = [] then throw forLoopNullBound
  let row ← lines.foldlM commitLine CommitRow.empty
  pure { row with message := message }

/-! ### Commit records -/

/-- An identity as a commit records it: a name without `<`, `>` or LF and without white space at
either end, an e-mail without `<`, `>` or LF, a timestamp below `2 ^ 63`, and a time zone
`[+-]DDDD`. -/
structure Ident where
  name : String
  email : String
  timestamp : Nat
  tz : String
  name_chars : ∀ c ∈ name.data, c ≠ '<' ∧ c ≠ '>' ∧ c ≠ '\n'
  name_trimmed :
    (∀ c ∈ name.data.head?, ¬c.isWhitespace) ∧ ∀ c ∈ name.data.getLast?, ¬c.isWhitespace
  email_chars : ∀ c ∈ email.data, c ≠ '<' ∧ c ≠ '>' ∧ c ≠ '\n'
  timestamp_lt : timestamp < 2 ^ 63
  tz_form : isTzText tz.data = true

/-- A header line that `git_commit_parse` does not read, such as `encoding` or `gpgsig`: a key
without SP or LF other than the four it reads, a value, and continuation lines, each written
after a SP. -/
structure ExtraHeader where
  key : String
  value : String
  continuation : List String
  key_other : key ≠ "tree" ∧ key ≠ "parent" ∧ key ≠ "author" ∧ key ≠ "committer"
  key_chars : ∀ c ∈ key.data, c ≠ ' ' ∧ c ≠ '\n'
  value_chars : '\n' ∉ value.data
  continuation_chars : ∀ l ∈ continuation, '\n' ∉ l.data

/-- A commit: a tree, parents, an author, a committer, extra headers, and a message without
NUL. -/
structure CommitRecord where
  tree : Oid
  parents : List Oid
  author : Ident
  committer : Ident
  extra : List ExtraHeader
  message : String
  message_chars : '\x00' ∉ message.data

/-- An identity after its key: `name <email> timestamp tz`. -/
def Ident.text (i : Ident) : String :=
  i.name ++ " <" ++ i.email ++ "> " ++ toString i.timestamp ++ " " ++ i.tz

/-- The lines of an extra header: the key and the value, then each continuation after a SP. -/
def ExtraHeader.lines (h : ExtraHeader) : List String :=
  (h.key ++ " " ++ h.value) :: h.continuation.map (" " ++ ·)

/-- The header lines of a commit, in the order git writes them. -/
def CommitRecord.headerLines (r : CommitRecord) : List String :=
  ("tree " ++ hexEncode r.tree.id) :: r.parents.map (fun p => "parent " ++ hexEncode p.id) ++
    ("author " ++ r.author.text) :: ("committer " ++ r.committer.text) ::
      r.extra.flatMap ExtraHeader.lines

/-- The canonical text of a commit: each header line ended by LF, an empty line, the message. -/
def CommitRecord.serialize (r : CommitRecord) : String :=
  ⟨(r.headerLines.map fun l => l.data ++ ['\n']).flatten ++ '\n' :: r.message.data⟩

/-- No name, e-mail or extra header of the commit holds a NUL. -/
def CommitRecord.NulFree (r : CommitRecord) : Prop :=
  '\x00' ∉ r.author.name.data ∧ '\x00' ∉ r.author.email.data ∧
    '\x00' ∉ r.committer.name.data ∧ '\x00' ∉ r.committer.email.data ∧
    ∀ h ∈ r.extra, ∀ l ∈ h.lines, '\x00' ∉ l.data

/-- The columns an identity gives: its fields, the e-mail `NULL` when it is empty. -/
def Ident.parsedRow (i : Ident) : IdentRow :=
  ⟨some i.name, if i.email.data = [] then none else some i.email, some i.timestamp, some i.tz⟩

/-- The row `git_commit_parse` returns on the text of a commit without NUL. -/
def CommitRecord.parsedRow (r : CommitRecord) : CommitRow :=
  ⟨some r.tree.id, r.parents.map Oid.id, r.author.parsedRow, r.committer.parsedRow, r.message⟩

instance (r : CommitRecord) : Decidable r.NulFree :=
  inferInstanceAs
    (Decidable (_ ∧ _ ∧ _ ∧ _ ∧ ∀ h ∈ r.extra, ∀ l ∈ h.lines, '\x00' ∉ l.data))

/-! ### Splitting the text -/

theorem flatten_map_append_sep {ls : List (List Char)} (h : ls ≠ []) (x : Char) :
  (ls.map (· ++ [x])).flatten = [x].intercalate ls ++ [x]
  := by
  induction ls with
  | nil => exact absurd rfl h
  | cons l ls ih =>
    cases ls with
    | nil => simp [List.intercalate]
    | cons l' ls =>
      rw [List.map_cons, List.flatten_cons, ih (List.cons_ne_nil _ _)]
      simp [List.intercalate, List.intersperse_cons_cons]

/-- The first empty line after lines that are not empty and hold no LF is the one after the
last of them. -/
theorem indexOfSub_lines {ls : List (List Char)} (hne : ls ≠ [])
    (hl : ∀ l ∈ ls, l ≠ [] ∧ '\n' ∉ l) (m : List Char) :
  indexOfSub ['\n', '\n'] ((ls.map (· ++ ['\n'])).flatten ++ '\n' :: m) =
    some ((ls.map (· ++ ['\n'])).flatten.length - 1)
  := by
  induction ls with
  | nil => exact absurd rfl hne
  | cons l ls ih =>
    have hl₀ := hl l (List.mem_cons_self l ls)
    rw [List.map_cons, List.flatten_cons, List.append_assoc, List.append_assoc,
      List.singleton_append, indexOfSub_append_of_not_mem hl₀.2]
    cases ls with
    | nil =>
      rw [indexOfSub_eq_zero_of_isPrefix (by simp)]
      simp
    | cons l' ls =>
      obtain ⟨c, l'', rfl⟩ := List.exists_cons_of_ne_nil (hl l' (by simp)).1
      have hc : c ≠ '\n' := fun hc =>
        (hl (c :: l'') (by simp)).2 (by rw [← hc]; exact List.mem_cons_self c l'')
      have hrest := ih (List.cons_ne_nil _ _) fun l hm => hl l (List.mem_cons_of_mem _ hm)
      rw [indexOfSub, if_neg (by simp [List.isPrefixOf, Ne.symm hc]), hrest]
      simp only [List.map_cons, List.flatten_cons, List.length_append, List.length_cons,
        List.length_nil, Option.map_some']
      congr 1
      omega

/-! ### Identities -/

theorem emailGroup_append_of_not_mem {l : List Char} (h : '<' ∉ l) (t : List Char) :
  emailGroup (l ++ t) = emailGroup t
  := by
  induction l with
  | nil => rfl
  | cons c l ih =>
    rw [List.cons_append, emailGroup,
      if_neg (by rintro ⟨rfl, -⟩; exact h (List.mem_cons_self _ _)),
      ih fun hm => h (List.mem_cons_of_mem c hm)]

theorem tsTzMatch_append_of_not_mem {l : List Char} (h : '>' ∉ l) (t : List Char) :
  tsTzMatch (l ++ t) = tsTzMatch t
  := by
  induction l with
  | nil => rfl
  | cons c l ih =>
    rw [List.cons_append, tsTzMatch,
      if_neg (by rintro ⟨rfl, -⟩; exact h (List.mem_cons_self _ _)),
      ih fun hm => h (List.mem_cons_of_mem c hm)]

theorem isTzText_chars {tz : List Char} (h : isTzText tz = true) :
  ∀ c ∈ tz, c = '+' ∨ c = '-' ∨ c.isDigit
  := by
  obtain ⟨s, ds, rfl⟩ := List.exists_cons_of_ne_nil (show tz ≠ [] by rintro rfl; cases h)
  simp only [isTzText, Bool.and_eq_true, List.head?_cons, Option.some.injEq, Bool.or_eq_true,
    decide_eq_true_eq, List.drop_succ_cons, List.drop_zero, List.all_eq_true] at h
  intro c hc
  rcases List.mem_cons.mp hc with rfl | hc
  · exact h.1.2.elim .inl (.inr ∘ .inl)
  · exact .inr (.inr (h.2 c hc))

/-- The text of an identity, character by character. -/
theorem Ident.text_data (i : Ident) :
  i.text.data = i.name.data ++ ' ' :: '<' ::
    (i.email.data ++ '>' :: ' ' :: ((toString i.timestamp).data ++ ' ' :: i.tz.data))
  := by
  simp [Ident.text]

/-- A character after the e-mail of an identity is a SP, a digit or a sign. -/
theorem Ident.mem_stamp {i : Ident} {c : Char}
    (h : c ∈ (toString i.timestamp).data ++ ' ' :: i.tz.data) :
  c = ' ' ∨ c = '+' ∨ c = '-' ∨ c.isDigit
  := by
  simp only [List.mem_append, List.mem_cons] at h
  rcases h with h | rfl | h
  · exact .inr (.inr (.inr ((toString_digits _).2.1 c h)))
  · exact .inl rfl
  · rcases isTzText_chars i.tz_form c h with rfl | rfl | h
    exacts [.inr (.inl rfl), .inr (.inr (.inl rfl)), .inr (.inr (.inr h))]

/-- A character of the text of an identity is of its name or its e-mail, or one of the
separators, digits and signs around them. -/
theorem Ident.mem_text {i : Ident} {c : Char} (h : c ∈ i.text.data) :
  c ∈ i.name.data ∨ c ∈ i.email.data ∨
    c = '<' ∨ c = '>' ∨ c = ' ' ∨ c = '+' ∨ c = '-' ∨ c.isDigit
  := by
  rw [i.text_data] at h
  simp only [List.mem_append, List.mem_cons] at h
  rcases h with h | rfl | rfl | h | rfl | h
  · exact .inl h
  · simp
  · simp
  · exact .inr (.inl h)
  · simp
  · rcases h with rfl | h
    · simp
    · rcases Ident.mem_stamp (by simp only [List.mem_append, List.mem_cons]; exact h) with
        rfl | rfl | rfl | h <;> simp [h]

theorem Ident.emailGroup_text (i : Ident) :
  emailGroup i.text.data = if i.email.data = [] then none else some i.email.data
  := by
  have hrest : '<' ∉ '>' :: ' ' :: ((toString i.timestamp).data ++ ' ' :: i.tz.data) := by
    rintro (_ | ⟨_, _ | ⟨_, h⟩⟩)
    rcases Ident.mem_stamp h with h | h | h | h <;> revert h <;> decide
  rw [i.text_data, emailGroup_append_of_not_mem fun hm => (i.name_chars _ hm).1 rfl, emailGroup,
    if_neg fun h => absurd h.1 (by decide), emailGroup,
    takeWhile_ne_append fun hm => (i.email_chars _ hm).2.1 rfl]
  by_cases he : i.email.data = []
  · rw [if_neg fun h => h.2.1 he, if_pos he, he, List.nil_append,
      ← List.append_nil ('>' :: _), emailGroup_append_of_not_mem hrest]
    rfl
  · rw [if_pos ⟨rfl, he, List.mem_append_right _ (List.mem_cons_self _ _)⟩, if_neg he]

theorem Ident.textPosition_text (i : Ident) :
  textPosition "<" i.text = i.name.data.length + 2
  := by
  have h := @indexOfSub_append_of_not_mem '<' [] (i.name.data ++ [' '])
    (fun hm => (List.mem_append.mp hm).elim (fun hm => (i.name_chars _ hm).1 rfl)
      fun hm => absurd hm (by decide))
    ('<' :: (i.email.data ++ '>' :: ' ' :: ((toString i.timestamp).data ++ ' ' :: i.tz.data)))
  rw [List.append_assoc, List.singleton_append, ← i.text_data,
    indexOfSub_eq_zero_of_isPrefix ((List.prefix_cons_inj '<').mpr List.nil_prefix)] at h
  simp only [textPosition, show "<".data = ['<'] from rfl, h, Option.map_some', List.length_append,
    List.length_singleton]

theorem Ident.tsTzMatch_text (i : Ident) :
  tsTzMatch i.text.data = some ((toString i.timestamp).data, i.tz.data)
  := by
  obtain ⟨hne, hall, -⟩ := toString_digits i.timestamp
  have hgroups : tsTzGroups (' ' :: ((toString i.timestamp).data ++ ' ' :: i.tz.data)) =
      some ((toString i.timestamp).data, i.tz.data) := by
    simp only [tsTzGroups, List.drop_succ_cons, List.drop_zero,
      @takeWhile_append_of_stop _ Char.isDigit _ ' ' hall (by decide),
      @dropWhile_append_of_stop _ Char.isDigit _ ' ' hall (by decide)]
    exact if_pos ⟨rfl, hne, rfl, i.tz_form⟩
  have hprefix : '>' ∉ i.name.data ++ ' ' :: '<' :: i.email.data := by
    simp only [List.mem_append, List.mem_cons, not_or]
    exact ⟨fun hm => (i.name_chars _ hm).2.1 rfl, by decide, by decide,
      fun hm => (i.email_chars _ hm).2.1 rfl⟩
  rw [i.text_data, show ∀ l : List Char, i.name.data ++ ' ' :: '<' :: (i.email.data ++ l) =
    (i.name.data ++ ' ' :: '<' :: i.email.data) ++ l by simp,
    tsTzMatch_append_of_not_mem hprefix, tsTzMatch, hgroups]
  rfl

/-- `git_commit_parse` reads an identity back: its fields, the e-mail `NULL` when it is empty. -/
theorem parseIdent_text (i : Ident) :
  parseIdent i.text = .ok i.parsedRow
  := by
  have hname : substrFor i.text 1 ((textPosition "<" i.text : Int) - 1) =
      .ok ⟨i.name.data ++ [' ']⟩ := by
    rw [i.textPosition_text, substrFor, if_neg (by omega), i.text_data, Nat.sub_self,
      List.drop_zero, List.append_cons i.name.data ' ',
      List.take_left' (by simp only [List.length_append, List.length_singleton]; omega)]
  have hbtrim : btrim ⟨i.name.data ++ [' ']⟩ = i.name :=
    btrim_append_space _ (fun h => i.name_trimmed.1 ' ' h (by decide))
      (fun h => i.name_trimmed.2 ' ' h (by decide))
  have hts : bigintIn ⟨(toString i.timestamp).data⟩ = .ok i.timestamp := by
    simpa [bigintIn, (toString_digits _).2.2] using i.timestamp_lt
  simp only [parseIdent, hname, i.tsTzMatch_text, i.emailGroup_text, hts, bind, Except.bind,
    hbtrim, Functor.map, Except.map, pure, Except.pure, Option.map_some', Ident.parsedRow]
  split_ifs <;> rfl

/-! ### The loop over the header lines -/

/-- The four `LIKE` tests of the loop, each the test that its word and a SP start the line. -/
theorem likeMatch_words (line : String) :
  likeMatch "tree %" line = some ("tree ".data.isPrefixOf line.data) ∧
    likeMatch "parent %" line = some ("parent ".data.isPrefixOf line.data) ∧
    likeMatch "author %" line = some ("author ".data.isPrefixOf line.data) ∧
    likeMatch "committer %" line = some ("committer ".data.isPrefixOf line.data)
  := ⟨likeMatch_eq_isPrefixOf "tree " rfl line, likeMatch_eq_isPrefixOf "parent " rfl line,
    likeMatch_eq_isPrefixOf "author " rfl line, likeMatch_eq_isPrefixOf "committer " rfl line⟩

theorem substrFrom_append (w t : String) (n : Nat) (hn : w.data.length + 1 = n) :
  substrFrom (w ++ t) n = t
  := by
  rw [substrFrom, ← hn, Nat.add_sub_cancel, String.data_append, List.drop_left]

theorem isPrefixOf_append_self (w t : String) :
  w.data.isPrefixOf (w ++ t).data = true
  := by
  rw [String.data_append, List.isPrefixOf_iff_prefix]
  exact List.prefix_append _ _

theorem commitLine_tree (row : CommitRow) (o : Oid) :
  commitLine row ("tree " ++ hexEncode o.id) = .ok { row with treeOid := some o.id }
  := by
  obtain ⟨ht, -⟩ := likeMatch_words ("tree " ++ hexEncode o.id)
  rw [commitLine, ht, isPrefixOf_append_self, if_pos rfl, substrFrom_append "tree " _ 6 rfl,
    decodeHex, hexDecode_hexEncode]
  rfl

theorem commitLine_parent (row : CommitRow) (o : Oid) :
  commitLine row ("parent " ++ hexEncode o.id) =
    .ok { row with parentOids := row.parentOids ++ [o.id] }
  := by
  obtain ⟨ht, hp, -⟩ := likeMatch_words ("parent " ++ hexEncode o.id)
  rw [commitLine, ht, if_neg (by simp [List.isPrefixOf]), hp, isPrefixOf_append_self, if_pos rfl,
    substrFrom_append "parent " _ 8 rfl, decodeHex, hexDecode_hexEncode]
  rfl

theorem commitLine_author (row : CommitRow) (i : Ident) :
  commitLine row ("author " ++ i.text) = .ok { row with author := i.parsedRow }
  := by
  obtain ⟨ht, hp, ha, -⟩ := likeMatch_words ("author " ++ i.text)
  rw [commitLine, ht, if_neg (by simp [List.isPrefixOf]), hp, if_neg (by simp [List.isPrefixOf]),
    ha, isPrefixOf_append_self, if_pos rfl, substrFrom_append "author " _ 8 rfl, parseIdent_text]
  rfl

theorem commitLine_committer (row : CommitRow) (i : Ident) :
  commitLine row ("committer " ++ i.text) = .ok { row with committer := i.parsedRow }
  := by
  obtain ⟨ht, hp, ha, hc⟩ := likeMatch_words ("committer " ++ i.text)
  rw [commitLine, ht, if_neg (by simp [List.isPrefixOf]), hp, if_neg (by simp [List.isPrefixOf]),
    ha, if_neg (by simp [List.isPrefixOf]), hc, isPrefixOf_append_self, if_pos rfl,
    substrFrom_append "committer " _ 11 rfl, parseIdent_text]
  rfl

/-- A line that none of the four words with a SP starts leaves the row as it is. -/
theorem commitLine_other (row : CommitRow) (line : String)
    (h : ∀ w ∈ ["tree ", "parent ", "author ", "committer "],
      w.data.isPrefixOf line.data = false) :
  commitLine row line = .ok row
  := by
  obtain ⟨ht, hp, ha, hc⟩ := likeMatch_words line
  simp [commitLine, ht, hp, ha, hc, h, pure, Except.pure]

/-- A word and a SP start a line that starts with a key without SP only if the word is the key. -/
theorem prefix_space_eq {w k v : List Char} (hw : ' ' ∉ w) (hk : ' ' ∉ k)
    (h : w ++ [' '] <+: k ++ ' ' :: v) :
  w = k
  := by
  induction w generalizing k with
  | nil =>
    cases k with
    | nil => rfl
    | cons b k =>
      exact absurd (by rw [(List.cons_prefix_cons.mp h).1]; exact List.mem_cons_self b k) hk
  | cons a w ih =>
    cases k with
    | nil =>
      exact absurd (by rw [← (List.cons_prefix_cons.mp h).1]; exact List.mem_cons_self a w) hw
    | cons b k =>
      obtain ⟨rfl, h'⟩ := List.cons_prefix_cons.mp h
      rw [ih (fun hm => hw (List.mem_cons_of_mem a hm)) (fun hm => hk (List.mem_cons_of_mem a hm))
        h']

theorem ExtraHeader.isPrefixOf_keyLine (e : ExtraHeader) {word : String}
    (hword : ' ' ∉ word.data) (hne : e.key ≠ word) :
  (word.data ++ [' ']).isPrefixOf (e.key ++ " " ++ e.value).data = false
  := by
  refine Bool.eq_false_iff.mpr fun hp => hne (String.ext (@prefix_space_eq _ _ e.value.data hword
    (fun hk => (e.key_chars ' ' hk).1 rfl) ?_).symm)
  simpa [List.isPrefixOf_iff_prefix] using hp

/-- No line of an extra header starts with one of the four words and a SP. -/
theorem ExtraHeader.lines_other (e : ExtraHeader) :
  ∀ line ∈ e.lines, ∀ w ∈ ["tree ", "parent ", "author ", "committer "],
    w.data.isPrefixOf line.data = false
  := by
  intro line hline w hw
  simp only [List.mem_cons, List.mem_singleton, List.not_mem_nil, or_false] at hw
  rcases List.mem_cons.mp hline with rfl | hline
  · rcases hw with rfl | rfl | rfl | rfl
    · exact e.isPrefixOf_keyLine (by decide) e.key_other.1
    · exact e.isPrefixOf_keyLine (by decide) e.key_other.2.1
    · exact e.isPrefixOf_keyLine (by decide) e.key_other.2.2.1
    · exact e.isPrefixOf_keyLine (by decide) e.key_other.2.2.2
  · obtain ⟨c, -, rfl⟩ := List.mem_map.mp hline
    rcases hw with rfl | rfl | rfl | rfl <;> rfl

theorem foldlM_commitLine_other (row : CommitRow) (lines : List String)
    (h : ∀ line ∈ lines, ∀ w ∈ ["tree ", "parent ", "author ", "committer "],
      w.data.isPrefixOf line.data = false) :
  lines.foldlM commitLine row = .ok row
  := by
  induction lines with
  | nil => rfl
  | cons line lines ih =>
    rw [List.foldlM_cons, commitLine_other row line (h line (List.mem_cons_self _ _))]
    exact ih fun l hl => h l (List.mem_cons_of_mem _ hl)

theorem foldlM_commitLine_parents (row : CommitRow) (ps : List Oid) :
  (ps.map fun p => "parent " ++ hexEncode p.id).foldlM commitLine row =
    .ok { row with parentOids := row.parentOids ++ ps.map Oid.id }
  := by
  induction ps generalizing row with
  | nil => rw [List.map_nil, List.map_nil, List.append_nil]; rfl
  | cons p ps ih =>
    rw [List.map_cons, List.foldlM_cons, commitLine_parent]
    exact (ih _).trans (by simp)

/-- The loop of `git_commit_parse` over the header lines of a commit. -/
theorem foldlM_headerLines (r : CommitRecord) :
  r.headerLines.foldlM commitLine CommitRow.empty = .ok { r.parsedRow with message := "" }
  := by
  have hextra : ∀ line ∈ r.extra.flatMap ExtraHeader.lines,
      ∀ w ∈ ["tree ", "parent ", "author ", "committer "],
        w.data.isPrefixOf line.data = false :=
    fun line hline => by
      obtain ⟨e, -, hl⟩ := List.mem_flatMap.mp hline
      exact e.lines_other line hl
  simp only [CommitRecord.headerLines, List.foldlM_cons, List.foldlM_append, commitLine_tree,
    foldlM_commitLine_parents, commitLine_author, commitLine_committer,
    foldlM_commitLine_other _ _ hextra, bind, Except.bind]
  rfl

/-! ### The text of a commit -/

/-- A character that is not a separator, a digit or a sign is in the text of an identity only if
it is in its name or its e-mail. -/
theorem Ident.not_mem_text {i : Ident} {c : Char}
    (hsep : c ≠ '<' ∧ c ≠ '>' ∧ c ≠ ' ' ∧ c ≠ '+' ∧ c ≠ '-' ∧ c.isDigit = false)
    (hname : c ∉ i.name.data) (hemail : c ∉ i.email.data) :
  c ∉ i.text.data
  := fun hm => by
  rcases Ident.mem_text hm with h | h | h | h | h | h | h | h
  exacts [hname h, hemail h, hsep.1 h, hsep.2.1 h, hsep.2.2.1 h, hsep.2.2.2.1 h, hsep.2.2.2.2.1 h,
    Bool.false_ne_true (hsep.2.2.2.2.2 ▸ h)]

theorem Ident.nul_mem_text_iff (i : Ident) :
  '\x00' ∈ i.text.data ↔ '\x00' ∈ i.name.data ∨ '\x00' ∈ i.email.data
  := by
  refine ⟨fun h => ?_, fun h => ?_⟩
  · by_contra hn
    exact Ident.not_mem_text (by decide) (fun h' => hn (.inl h')) (fun h' => hn (.inr h')) h
  · rw [i.text_data]
    rcases h with h | h <;> simp [h]

theorem newline_not_mem_hexEncode (b : Bytes) : '\n' ∉ (hexEncode b).data :=
  fun h => absurd (mem_hexEncode h) (by decide)

theorem nul_not_mem_hexEncode (b : Bytes) : '\x00' ∉ (hexEncode b).data :=
  fun h => absurd (mem_hexEncode h) (by decide)

/-- Every header line of a commit holds a SP and no LF. -/
theorem CommitRecord.headerLines_chars (r : CommitRecord) :
  ∀ l ∈ r.headerLines, ' ' ∈ l.data ∧ '\n' ∉ l.data
  := by
  have hword : ∀ (w s : String), ' ' ∈ w.data → '\n' ∉ w.data → '\n' ∉ s.data →
      ' ' ∈ (w ++ s).data ∧ '\n' ∉ (w ++ s).data := fun w s hw hw' hs =>
    ⟨by simp [hw], by simp [hw', hs]⟩
  have hident : ∀ i : Ident, '\n' ∉ i.text.data := fun i =>
    Ident.not_mem_text (by decide) (fun h => (i.name_chars _ h).2.2 rfl)
      (fun h => (i.email_chars _ h).2.2 rfl)
  intro l hl
  simp only [CommitRecord.headerLines, List.mem_cons, List.mem_append, List.mem_map,
    List.mem_flatMap] at hl
  rcases hl with (rfl | ⟨p, -, rfl⟩) | rfl | rfl | ⟨e, -, hl⟩
  · exact hword _ _ (by decide) (by decide) (newline_not_mem_hexEncode _)
  · exact hword _ _ (by decide) (by decide) (newline_not_mem_hexEncode _)
  · exact hword _ _ (by decide) (by decide) (hident _)
  · exact hword _ _ (by decide) (by decide) (hident _)
  · rcases List.mem_cons.mp hl with rfl | hl
    · refine hword _ _ ?_ ?_ e.value_chars
      · simp
      · simpa using fun h => (e.key_chars _ h).2 rfl
    · obtain ⟨c, hc, rfl⟩ := List.mem_map.mp hl
      exact hword _ _ (by decide) (by decide) (e.continuation_chars c hc)

/-- A NUL is in the text of a commit exactly when it is in one of its header lines. -/
theorem CommitRecord.nul_mem_serialize_iff_headerLines (r : CommitRecord) :
  '\x00' ∈ r.serialize.data ↔ ∃ l ∈ r.headerLines, '\x00' ∈ l.data
  := by
  simp [CommitRecord.serialize, r.message_chars]

/-- The text of a commit holds a NUL exactly when a name, an e-mail or an extra header does. -/
theorem CommitRecord.nul_mem_serialize_iff (r : CommitRecord) :
  '\x00' ∈ r.serialize.data ↔ ¬r.NulFree
  := by
  rw [r.nul_mem_serialize_iff_headerLines]
  simp [CommitRecord.headerLines, CommitRecord.NulFree, nul_not_mem_hexEncode,
    Ident.nul_mem_text_iff, or_and_right, exists_or]
  tauto

/-- The text of a commit: its header lines joined by LF, a LF, an empty line, the message. -/
theorem CommitRecord.serialize_data (r : CommitRecord) :
  r.serialize.data =
    (['\n'].intercalate (r.headerLines.map String.data) ++ ['\n']) ++ '\n' :: r.message.data
  := by
  rw [← @flatten_map_append_sep (r.headerLines.map String.data) (List.cons_ne_nil _ _),
    List.map_map]
  rfl

/-- `git_commit_parse` reads back the text of a commit without NUL in a name, an e-mail or an
extra header: the tree, the parents in order, the two identities and the message. -/
theorem gitCommitParse_serialize (r : CommitRecord) (h : r.NulFree) :
  gitCommitParse (utf8 r.serialize) = .ok r.parsedRow
  := by
  have hne : r.headerLines.map String.data ≠ [] := List.cons_ne_nil _ _
  have hlines : ∀ l ∈ r.headerLines.map String.data, l ≠ [] ∧ '\n' ∉ l := by
    simp only [List.mem_map]
    rintro _ ⟨l, hl, rfl⟩
    exact ⟨List.ne_nil_of_mem (r.headerLines_chars l hl).1, (r.headerLines_chars l hl).2⟩
  obtain ⟨I, hI⟩ : ∃ I, ['\n'].intercalate (r.headerLines.map String.data) = I := ⟨_, rfl⟩
  have hdata := r.serialize_data
  rw [hI] at hdata
  have hpos : textPosition "\n\n" r.serialize = I.length + 1 := by
    have := indexOfSub_lines hne hlines r.message.data
    rw [flatten_map_append_sep hne, hI, ← hdata] at this
    simp only [textPosition, show "\n\n".data = ['\n', '\n'] from rfl, this, List.length_append,
      List.length_singleton, Nat.add_sub_cancel]
  have hmessage : substrFrom r.serialize (I.length + 1 + 2) = r.message := by
    rw [substrFrom, hdata, List.append_cons _ '\n',
      List.drop_left' (by simp only [List.length_append, List.length_singleton]; omega)]
  have hsplit := List.splitOn_intercalate _ '\n' (fun l hl => (hlines l hl).2) hne
  rw [hI] at hsplit
  have hI_ne : I ≠ [] := by
    rintro rfl
    rw [List.splitOn_nil] at hsplit
    exact (hlines [] (hsplit ▸ List.mem_singleton_self _)).1 rfl
  have hheader : substrFor r.serialize 1 (((I.length + 1 : Nat) : Int) - 1) = .ok ⟨I⟩ := by
    rw [substrFor, if_neg (by omega), hdata, Nat.sub_self, List.drop_zero, List.append_assoc,
      List.take_left' (by omega)]
  have hlinesText : stringToArray ⟨I⟩ '\n' = r.headerLines := by
    rw [stringToArray, if_neg hI_ne, hsplit, List.map_map]
    exact List.map_id'' (fun _ => rfl) _
  have hnul : '\x00' ∉ r.serialize.data := fun hm => r.nul_mem_serialize_iff.mp hm h
  have hheaderLines : r.headerLines ≠ [] := List.cons_ne_nil _ _
  rw [gitCommitParse, convertFrom_utf8 hnul]
  dsimp only [bind, Except.bind]
  rw [textOfBytes_utf8, hpos, if_neg (Nat.add_one_ne_zero _), if_neg (Nat.add_one_ne_zero _),
    hmessage, hheader]
  dsimp only [Functor.map, Except.map]
  rw [hlinesText, if_neg hheaderLines, foldlM_headerLines]
  rfl

/-- On the text of a commit with a NUL in a name, an e-mail or an extra header,
`git_commit_parse` raises the error of `convert_from`. -/
theorem gitCommitParse_serialize_of_nul (r : CommitRecord) (h : ¬r.NulFree) :
  gitCommitParse (utf8 r.serialize) = .error invalidUtf8
  := by
  rw [gitCommitParse, convertFrom_utf8_of_mem (r.nul_mem_serialize_iff.mpr h)]
  rfl

/-! ### The commits of the tests -/

/-- The identity of the commits of `CommitParseTest`. -/
def testIdent : Ident where
  name := "Test User"
  email := "test@test.com"
  timestamp := 1234567890
  tz := "+0000"
  name_chars := by decide
  name_trimmed := by decide
  email_chars := by decide
  timestamp_lt := by decide
  tz_form := by decide

/-- The first commit of `CommitParseTest`, with a tree of twenty `0xaa` bytes. -/
def testCommit : CommitRecord :=
  ⟨Oid.ofByte 0xaa, [], testIdent, testIdent, [], "initial commit\n", by decide⟩

theorem commit_parse_round_trip (r : CommitRecord) (h : r.NulFree) (ha : r.author.email ≠ "")
    (hc : r.committer.email ≠ "") :
  gitCommitParse (utf8 r.serialize) =
    .ok ⟨some r.tree.id, r.parents.map Oid.id,
      ⟨some r.author.name, some r.author.email, some r.author.timestamp, some r.author.tz⟩,
      ⟨some r.committer.name, some r.committer.email, some r.committer.timestamp,
        some r.committer.tz⟩, r.message⟩
  := by
  rw [gitCommitParse_serialize r h, CommitRecord.parsedRow, Ident.parsedRow, Ident.parsedRow,
    if_neg fun he => ha (String.ext he), if_neg fun he => hc (String.ext he)]

theorem commit_parse_round_trip_test :
  testCommit.NulFree ∧ testCommit.author.email ≠ "" ∧ testCommit.committer.email ≠ "" ∧
    gitCommitParse (utf8 testCommit.serialize) =
      .ok ⟨some (Oid.ofByte 0xaa).id, [],
        ⟨some "Test User", some "test@test.com", some 1234567890, some "+0000"⟩,
        ⟨some "Test User", some "test@test.com", some 1234567890, some "+0000"⟩,
        "initial commit\n"⟩
  := ⟨by decide, by decide, by decide,
    commit_parse_round_trip testCommit (by decide) (by decide) (by decide)⟩

theorem commit_parse_empty_email_and_nul :
  gitCommitParse (utf8 { testCommit with
      author := { testIdent with email := "", email_chars := (by decide) } }.serialize) =
    .ok ⟨some (Oid.ofByte 0xaa).id, [],
      ⟨some "Test User", none, some 1234567890, some "+0000"⟩,
      ⟨some "Test User", some "test@test.com", some 1234567890, some "+0000"⟩,
      "initial commit\n"⟩ ∧
  gitCommitParse (utf8 { testCommit with
      author := { testIdent with
        name := "Test\x00User", name_chars := (by decide),
        name_trimmed := (by decide) } }.serialize) =
    .error invalidUtf8
  := ⟨gitCommitParse_serialize _ (by decide), gitCommitParse_serialize_of_nul _ (by decide)⟩

end Gitgres
