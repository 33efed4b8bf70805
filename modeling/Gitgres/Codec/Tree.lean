import Gitgres.Git
import Gitgres.Sql.Utf8

/-!
# Tree entries

A tree object is a run of entries `<mode> SP <name> NUL <20-byte oid>`.  The extension's
`git_tree_entries_c` walks the content with a position `pos`: it scans for the first SP from
`pos`, then for the first NUL after it, checks that twenty bytes follow, returns the entry and
moves `pos` past the OID; it raises one of three errors when a scan runs off the end or the OID
is short.  The SQL function `git_tree_entries` walks the content with the same scans, one-based,
but never checks that they found anything, and converts the mode and the name to text with
`convert_from(..., 'UTF8')`.

A `TreeEntry` is what the C scans find: a mode without SP, a name without NUL and twenty bytes
of OID.  `git_tree_entries_c` accepts exactly the concatenations of encoded entries
(`treeEntriesC_encode`, `treeEntriesC_ok`), and raises nothing but its three errors
(`treeEntriesC_error`).  It returns the mode through `CStringGetTextDatum`, which stops at a NUL,
so an entry whose mode holds a NUL comes back with a shorter mode.  The SQL function returns
the same rows on every tree whose modes and names are text (`gitTreeEntries_encode`), and raises
only when a mode or a name is not valid text (`gitTreeEntries_error`).
-/

namespace Gitgres

/-- A row of `git_tree_entries` and `git_tree_entries_c`: the mode and the name as the bytes of
their text, and the entry's OID. -/
structure TreeRow where
  mode : Bytes
  name : Bytes
  oid : Bytes
  deriving DecidableEq

/-- An entry as the scans of `git_tree_entries_c` read it: a mode without SP, a name without
NUL, and an OID of twenty bytes. -/
structure TreeEntry where
  mode : Bytes
  name : Bytes
  oid : Bytes
  mode_no_space : (0x20 : UInt8) ∉ mode
  name_no_nul : (0 : UInt8) ∉ name
  oid_length : oid.length = 20

/-- The bytes of an entry: `<mode> SP <name> NUL <oid>`. -/
def TreeEntry.encode (e : TreeEntry) : Bytes := e.mode ++ 0x20 :: (e.name ++ 0 :: e.oid)

/-- The bytes of a run of entries. -/
def encodeTree (es : List TreeEntry) : Bytes := (es.map TreeEntry.encode).flatten

@[simp]
theorem encodeTree_nil :
  encodeTree [] = []
  := rfl

@[simp]
theorem encodeTree_cons (e : TreeEntry) (es : List TreeEntry) :
  encodeTree (e :: es) = e.encode ++ encodeTree es
  := rfl

/-- The row of an entry, its mode and name as they are. -/
def TreeEntry.row (e : TreeEntry) : TreeRow := ⟨e.mode, e.name, e.oid⟩

/-- The bytes of rows read back as entries: the tree the rows describe. -/
def encodeRows (rows : List TreeRow) : Bytes :=
  (rows.map fun r => r.mode ++ 0x20 :: (r.name ++ 0 :: r.oid)).flatten

/-- `CStringGetTextDatum` of a buffer: the bytes before its first NUL. -/
def cstringText (b : Bytes) : Bytes := b.takeWhile (· ≠ 0)

/-- The row `git_tree_entries_c` returns for an entry: its mode and name through
`CStringGetTextDatum`. -/
def TreeEntry.cRow (e : TreeEntry) : TreeRow := ⟨cstringText e.mode, cstringText e.name, e.oid⟩

/-! ### `git_tree_entries_c` -/

/-- `while (i < len && data[i] != b) i++`, at most `fuel` steps. -/
def scanTo (data : Bytes) (b : UInt8) : Nat → Nat → Nat
  | 0, i => i
  | fuel + 1, i => if i < data.length ∧ data.getD i 0 ≠ b then scanTo data b fuel (i + 1) else i

/-- The error when no SP follows `pos`. -/
def noSpaceFound : String := "malformed tree entry: no space found"

/-- The error when no NUL follows the SP. -/
def noNulFound : String := "malformed tree entry: no null terminator found"

/-- The error when fewer than twenty bytes follow the NUL. -/
def truncatedOidError : String := "malformed tree entry: truncated OID"

/-- One call of `git_tree_entries_c` with `state->pos < state->len`: the row of the entry at
`pos` and the position after its OID. -/
def treeEntryC (data : Bytes) (pos : Nat) : Except String (TreeRow × Nat) :=
  let len := data.length
  let spacePos := scanTo data 0x20 len pos
  if spacePos ≥ len then .error noSpaceFound
  else
    let nullPos := scanTo data 0 len (spacePos + 1)
    if nullPos ≥ len then .error noNulFound
    else if nullPos + 20 ≥ len ∧ nullPos + 21 > len then .error truncatedOidError
    else
      let mode := cstringText ((data.drop pos).take (spacePos - pos))
      let name := cstringText ((data.drop (spacePos + 1)).take (nullPos - spacePos - 1))
      let oid := (data.drop (nullPos + 1)).take 20
      .ok (⟨mode, name, oid⟩, nullPos + 21)

/-- The calls of `git_tree_entries_c` from `pos` on, a row each while `pos < len`, at most
`fuel` of them; an error in any call is the error of the query. -/
def treeEntriesCFrom (data : Bytes) : Nat → Nat → Except String (List TreeRow)
  | 0, _ => .ok []
  | fuel + 1, pos =>
    if pos < data.length then do
      let (row, pos') ← treeEntryC data pos
      let rows ← treeEntriesCFrom data fuel pos'
      pure (row :: rows)
    else .ok []

/-- `git_tree_entries_c(content)`: every entry takes at least one byte, so `len` calls
suffice. -/
def gitTreeEntriesC (content : Bytes) : Except String (List TreeRow) :=
  treeEntriesCFrom content content.length 0

/-! ### `git_tree_entries` -/

/-- `substring(b FROM start FOR count)` of a `bytea`, for the `start ≥ 1` the function
passes. -/
def byteaSubstring (b : Bytes) (start count : Nat) : Bytes := (b.drop (start - 1)).take count

/-- `WHILE i <= v_len AND get_byte(p_content, i - 1) != b LOOP i := i + 1`, at most `fuel`
steps. -/
def scanToSql (content : Bytes) (b : UInt8) : Nat → Nat → Nat
  | 0, i => i
  | fuel + 1, i =>
    if i ≤ content.length ∧ content.getD (i - 1) 0 ≠ b then scanToSql content b fuel (i + 1) else i

/-- One pass of the loop of `git_tree_entries` at `v_pos`: the row it returns and the next
`v_pos`. -/
def treeEntrySql (content : Bytes) (pos : Nat) : Except String (TreeRow × Nat) := do
  let len := content.length
  let spacePos := scanToSql content 32 (len + 1) pos
  let nullPos := scanToSql content 0 (len + 1) (spacePos + 1)
  let mode ← convertFrom (byteaSubstring content pos (spacePos - pos))
  let name ← convertFrom (byteaSubstring content (spacePos + 1) (nullPos - spacePos - 1))
  let oid := byteaSubstring content (nullPos + 1) 20
  pure (⟨mode, name, oid⟩, nullPos + 21)

/-- The loop of `git_tree_entries` from `v_pos` on, while `v_pos <= v_len`, at most `fuel`
passes. -/
def treeEntriesSqlFrom (content : Bytes) : Nat → Nat → Except String (List TreeRow)
  | 0, _ => .ok []
  | fuel + 1, pos =>
    if pos ≤ content.length then do
      let (row, pos') ← treeEntrySql content pos
      let rows ← treeEntriesSqlFrom content fuel pos'
      pure (row :: rows)
    else .ok []

/-- `git_tree_entries(p_content)`: every pass moves `v_pos` on, so `len` passes suffice. -/
def gitTreeEntries (content : Bytes) : Except String (List TreeRow) :=
  treeEntriesSqlFrom content content.length 1

/-! ### The scans -/

theorem drop_eq_getD_cons {l : Bytes} {i : Nat} (h : i < l.length) :
  l.drop i = l.getD i 0 :: l.drop (i + 1)
  := by rw [List.drop_eq_getElem_cons h, List.getD_eq_getElem?_getD, List.getElem?_eq_getElem h,
    Option.getD_some]

/-- The C scan stops at the first `b` from `i` on, or at the end. -/
theorem scanTo_eq (data : Bytes) (b : UInt8) (fuel i : Nat) (hfuel : data.length ≤ i + fuel) :
  scanTo data b fuel i = i + ((data.drop i).takeWhile (· ≠ b)).length
  := by
  induction fuel generalizing i with
  | zero => simp [scanTo, List.drop_eq_nil_of_le (show data.length ≤ i by omega)]
  | succ k ih =>
    by_cases hi : i < data.length
    · rw [drop_eq_getD_cons hi, List.takeWhile_cons]
      by_cases hb : data.getD i 0 = b
      · simp only [scanTo, hb, ne_eq, not_true_eq_false, and_false, if_false, decide_False,
          Bool.false_eq_true, List.length_nil]
        omega
      · simp only [scanTo, hi, hb, ne_eq, not_false_eq_true, and_self, if_true,
          ih (i + 1) (by omega), decide_True, List.length_cons]
        omega
    · simp [scanTo, hi, List.drop_eq_nil_of_le (show data.length ≤ i by omega)]

/-- The SQL scan is the C scan, one-based. -/
theorem scanToSql_succ (content : Bytes) (b : UInt8) (fuel i : Nat) :
  scanToSql content b fuel (i + 1) = scanTo content b fuel i + 1
  := by
  induction fuel generalizing i with
  | zero => rfl
  | succ k ih =>
    simp only [scanToSql, scanTo, Nat.add_sub_cancel, Nat.add_one_le_iff, ih]
    split <;> rfl

/-! ### One call, on the rest of the content -/

/-- What one call of `git_tree_entries_c` reads from the rest `rest` of the content: the mode up
to the first SP, the name up to the first NUL after it, and twenty bytes of OID; the row and the
number of bytes the entry takes. -/
def treeEntryRest (rest : Bytes) : Except String (TreeRow × Nat) :=
  match rest.dropWhile (· ≠ 0x20) with
  | [] => .error noSpaceFound
  | _ :: afterSpace =>
    match afterSpace.dropWhile (· ≠ 0) with
    | [] => .error noNulFound
    | _ :: afterNul =>
      if afterNul.length < 20 then .error truncatedOidError
      else .ok (⟨cstringText (rest.takeWhile (· ≠ 0x20)), cstringText (afterSpace.takeWhile (· ≠ 0)),
          afterNul.take 20⟩,
        (rest.takeWhile (· ≠ 0x20)).length + (afterSpace.takeWhile (· ≠ 0)).length + 22)

theorem eq_takeWhile_append_of_dropWhile {p : UInt8 → Bool} {l r : Bytes} {x : UInt8}
    (h : l.dropWhile p = x :: r) :
  l = l.takeWhile p ++ x :: r ∧ p x = false
  := by
  refine ⟨by rw [← h, List.takeWhile_append_dropWhile], ?_⟩
  have := List.head_dropWhile_not p l (by simp [h])
  simpa [h] using this

theorem takeWhile_eq_self_of_dropWhile {p : UInt8 → Bool} {l : Bytes} (h : l.dropWhile p = []) :
  l.takeWhile p = l
  := by
  conv_rhs => rw [← List.takeWhile_append_dropWhile p l, h, List.append_nil]

/-- A call of `git_tree_entries_c` at `pos` is the step on the rest of the content. -/
theorem treeEntryC_eq (data : Bytes) (pos : Nat) :
  treeEntryC data pos = (treeEntryRest (data.drop pos)).map fun r => (r.1, pos + r.2)
  := by
  have hlen : (data.drop pos).length = data.length - pos := List.length_drop _ _
  have hsp := scanTo_eq data 0x20 data.length pos (by omega)
  unfold treeEntryC treeEntryRest
  rcases hA : (data.drop pos).dropWhile (· ≠ 0x20) with _ | ⟨x, afterSpace⟩
  · rw [takeWhile_eq_self_of_dropWhile hA] at hsp
    simp only [hsp, if_pos (show data.length ≤ pos + (data.drop pos).length by omega), hA]
    rfl
  · obtain ⟨hrest, -⟩ := eq_takeWhile_append_of_dropWhile hA
    set mode := (data.drop pos).takeWhile (· ≠ 0x20)
    have hmodeLen : pos + mode.length + 1 + afterSpace.length = data.length := by
      have := congrArg List.length hrest
      simp only [List.length_append, List.length_cons] at this
      omega
    have hafter : data.drop (pos + mode.length + 1) = afterSpace := by
      rw [show pos + mode.length + 1 = pos + (mode.length + 1) by omega, ← List.drop_drop, hrest]
      simp [List.drop_append_of_le_length]
    have hnp := scanTo_eq data 0 data.length (pos + mode.length + 1) (by omega)
    rw [hafter] at hnp
    simp only [hsp, if_neg (show ¬(data.length ≤ pos + mode.length) by omega), hnp, hA]
    rcases hB : afterSpace.dropWhile (· ≠ 0) with _ | ⟨y, afterNul⟩
    · rw [takeWhile_eq_self_of_dropWhile hB]
      simp only [if_pos (show data.length ≤ pos + mode.length + 1 + afterSpace.length by omega), hB]
      rfl
    · obtain ⟨hafterSpace, -⟩ := eq_takeWhile_append_of_dropWhile hB
      set name := afterSpace.takeWhile (· ≠ 0)
      have hnameLen : name.length + 1 + afterNul.length = afterSpace.length := by
        have := congrArg List.length hafterSpace
        simp only [List.length_append, List.length_cons] at this
        omega
      have hoid : data.drop (pos + mode.length + 1 + name.length + 1) = afterNul := by
        rw [show pos + mode.length + 1 + name.length + 1 = pos + mode.length + 1 + (name.length + 1)
          by omega, ← List.drop_drop, hafter, hafterSpace]
        simp [List.drop_append_of_le_length]
      simp only [hB]
      rw [if_neg (by omega)]
      by_cases hshort : afterNul.length < 20
      · rw [if_pos (by omega), if_pos hshort]
        rfl
      · rw [if_neg (by omega), if_neg hshort, hoid, hafter, hrest,
          show pos + mode.length - pos = mode.length by omega,
          show pos + mode.length + 1 + name.length - (pos + mode.length) - 1 = name.length by omega]
        conv_lhs => rw [hafterSpace]
        simp only [List.take_left, Except.map, Prod.mk.injEq]
        exact congrArg Except.ok (Prod.ext rfl (by simp only; omega))

/-- What one pass of the loop of `git_tree_entries` reads from the rest `rest` of the content:
the mode up to the first SP or the end, the name up to the next NUL or the end, and at most twenty
bytes of OID after it; the row and the number of bytes the pass moves on. -/
def treeEntrySqlRest (rest : Bytes) : Except String (TreeRow × Nat) := do
  let afterSpace := (rest.dropWhile (· ≠ 32)).drop 1
  let mode ← convertFrom (rest.takeWhile (· ≠ 32))
  let name ← convertFrom (afterSpace.takeWhile (· ≠ 0))
  pure (⟨mode, name, ((afterSpace.dropWhile (· ≠ 0)).drop 1).take 20⟩,
    (rest.takeWhile (· ≠ 32)).length + (afterSpace.takeWhile (· ≠ 0)).length + 22)

theorem take_length_takeWhile (p : UInt8 → Bool) (l : Bytes) :
  l.take (l.takeWhile p).length = l.takeWhile p
  := calc
    l.take (l.takeWhile p).length = (l.takeWhile p ++ l.dropWhile p).take (l.takeWhile p).length := by
      rw [List.takeWhile_append_dropWhile]
    _ = l.takeWhile p := List.take_left _ _

theorem drop_length_takeWhile (p : UInt8 → Bool) (l : Bytes) (k : Nat) :
  l.drop ((l.takeWhile p).length + k) = (l.dropWhile p).drop k
  := calc
    l.drop ((l.takeWhile p).length + k) =
        (l.takeWhile p ++ l.dropWhile p).drop ((l.takeWhile p).length + k) := by
      rw [List.takeWhile_append_dropWhile]
    _ = (l.dropWhile p).drop k := by rw [← List.drop_drop, List.drop_left]

/-- A pass of the loop of `git_tree_entries` at `v_pos = i + 1` is the step on the rest of the
content from byte `i`. -/
theorem treeEntrySql_eq (content : Bytes) (i : Nat) :
  treeEntrySql content (i + 1) =
    (treeEntrySqlRest (content.drop i)).map fun r => (r.1, i + 1 + r.2)
  := by
  unfold treeEntrySql treeEntrySqlRest
  set rest := content.drop i
  set mode := rest.takeWhile (· ≠ 32)
  set afterSpace := (rest.dropWhile (· ≠ 32)).drop 1
  set name := afterSpace.takeWhile (· ≠ 0)
  have hsp : scanToSql content 32 (content.length + 1) (i + 1) = i + mode.length + 1 := by
    rw [scanToSql_succ, scanTo_eq _ _ _ _ (by omega)]
  have hafter : content.drop (i + mode.length + 1) = afterSpace := by
    rw [show i + mode.length + 1 = i + (mode.length + 1) by omega, ← List.drop_drop,
      drop_length_takeWhile]
  have hnp : scanToSql content 0 (content.length + 1) (i + mode.length + 1 + 1) =
      i + mode.length + 1 + name.length + 1 := by
    rw [scanToSql_succ, scanTo_eq _ _ _ _ (by omega), hafter]
  have hoid : byteaSubstring content (i + mode.length + 1 + name.length + 1 + 1) 20 =
      ((afterSpace.dropWhile (· ≠ 0)).drop 1).take 20 := by
    rw [byteaSubstring, show i + mode.length + 1 + name.length + 1 + 1 - 1 =
      i + mode.length + 1 + (name.length + 1) by omega, ← List.drop_drop, hafter,
      drop_length_takeWhile]
  have hmode : byteaSubstring content (i + 1) (i + mode.length + 1 - (i + 1)) = mode := by
    rw [byteaSubstring, Nat.add_sub_cancel, show i + mode.length + 1 - (i + 1) = mode.length by omega]
    exact take_length_takeWhile _ _
  have hname : byteaSubstring content (i + mode.length + 1 + 1)
      (i + mode.length + 1 + name.length + 1 - (i + mode.length + 1) - 1) = name := by
    rw [byteaSubstring, Nat.add_sub_cancel, hafter,
      show i + mode.length + 1 + name.length + 1 - (i + mode.length + 1) - 1 = name.length by omega]
    exact take_length_takeWhile _ _
  simp only [hsp, hnp, hmode, hname, hoid]
  have hnameLen : name.length = (afterSpace.takeWhile (· ≠ 0)).length := rfl
  cases convertFrom mode <;> cases convertFrom (afterSpace.takeWhile (· ≠ 0)) <;>
    simp only [bind, Except.bind, pure, Except.pure, Except.map, Except.ok.injEq, Prod.mk.injEq,
      true_and]
  omega

/-! ### One entry -/

theorem TreeEntry.length_encode (e : TreeEntry) :
  e.encode.length = e.mode.length + e.name.length + 22
  := by simp [encode, e.oid_length]; omega

/-- The step reads an encoded entry back, through `CStringGetTextDatum`. -/
theorem treeEntryRest_encode (e : TreeEntry) (post : Bytes) :
  treeEntryRest (e.encode ++ post) = .ok (e.cRow, e.encode.length)
  := by
  have henc : e.encode ++ post = e.mode ++ 0x20 :: (e.name ++ 0 :: (e.oid ++ post)) := by
    simp [TreeEntry.encode]
  have hoid : ¬(e.oid ++ post).length < 20 := by simp [e.oid_length]
  simp only [henc, treeEntryRest, dropWhile_ne_append e.mode_no_space,
    dropWhile_ne_append e.name_no_nul, hoid, if_false, takeWhile_ne_append e.mode_no_space,
    takeWhile_ne_append e.name_no_nul, List.take_left' e.oid_length, e.length_encode,
    TreeEntry.cRow]

/-- The step succeeds only on an encoded entry, and takes exactly its bytes. -/
theorem treeEntryRest_ok {rest : Bytes} {row : TreeRow} {n : Nat}
    (h : treeEntryRest rest = .ok (row, n)) :
  ∃ e : TreeEntry, rest = e.encode ++ rest.drop n ∧ row = e.cRow ∧ n = e.encode.length
  := by
  unfold treeEntryRest at h
  rcases hA : rest.dropWhile (· ≠ 0x20) with _ | ⟨x, afterSpace⟩ <;> simp only [hA] at h
  · cases h
  obtain ⟨hrest, hx⟩ := eq_takeWhile_append_of_dropWhile hA
  rcases hB : afterSpace.dropWhile (· ≠ 0) with _ | ⟨y, afterNul⟩ <;> simp only [hB] at h
  · cases h
  obtain ⟨hafter, hy⟩ := eq_takeWhile_append_of_dropWhile hB
  split at h
  · cases h
  rename_i hlong
  simp only [Except.ok.injEq, Prod.mk.injEq] at h
  obtain ⟨rfl, rfl⟩ := h
  simp only [ne_eq, decide_eq_false_iff_not, not_not] at hx hy
  subst hx hy
  let e : TreeEntry := ⟨rest.takeWhile (· ≠ 0x20), afterSpace.takeWhile (· ≠ 0), afterNul.take 20,
    fun hm => by simpa using List.mem_takeWhile_imp hm,
    fun hm => by simpa using List.mem_takeWhile_imp hm,
    by simp; omega⟩
  have hencode : e.encode ++ (afterNul.drop 20) = rest := by
    conv_rhs => rw [hrest, hafter, ← List.take_append_drop 20 afterNul]
    simp [e, TreeEntry.encode]
  have hlen : (rest.takeWhile (· ≠ 0x20)).length + (afterSpace.takeWhile (· ≠ 0)).length + 22 =
      e.encode.length := e.length_encode.symm
  refine ⟨e, ?_, rfl, hlen⟩
  rw [hlen, ← hencode, List.drop_left]

/-- The step raises nothing but the three errors of `git_tree_entries_c`. -/
theorem treeEntryRest_error {rest : Bytes} {msg : String} (h : treeEntryRest rest = .error msg) :
  msg = noSpaceFound ∨ msg = noNulFound ∨ msg = truncatedOidError
  := by
  unfold treeEntryRest at h
  split at h
  · cases h; exact .inl rfl
  · split at h
    · cases h; exact .inr (.inl rfl)
    · split at h
      · cases h; exact .inr (.inr rfl)
      · cases h

/-! ### The loops -/

theorem except_bind_eq_ok {ε α β : Type} {x : Except ε α} {f : α → Except ε β} {b : β} :
  x >>= f = .ok b ↔ ∃ a, x = .ok a ∧ f a = .ok b
  := by cases x <;> simp [bind, Except.bind]

theorem except_bind_eq_error {ε α β : Type} {x : Except ε α} {f : α → Except ε β} {e : ε} :
  x >>= f = .error e ↔ x = .error e ∨ ∃ a, x = .ok a ∧ f a = .error e
  := by cases x <;> simp [bind, Except.bind]

theorem length_le_length_encodeTree (es : List TreeEntry) :
  es.length ≤ (encodeTree es).length
  := by
  induction es with
  | nil => simp
  | cons e es ih => simp only [encodeTree_cons, List.length_append, e.length_encode]; simp; omega

/-- From a position where the encodings of `es` begin and run to the end, the calls of
`git_tree_entries_c` return the rows of `es`, one call an entry. -/
theorem treeEntriesCFrom_encode (data : Bytes) (es : List TreeEntry) (fuel pos : Nat)
    (h : data.drop pos = encodeTree es) (hfuel : es.length ≤ fuel) :
  treeEntriesCFrom data fuel pos = .ok (es.map TreeEntry.cRow)
  := by
  have hlen := congrArg List.length h
  rw [List.length_drop] at hlen
  induction es generalizing fuel pos with
  | nil =>
    cases fuel with
    | zero => rfl
    | succ k => simp [treeEntriesCFrom, show ¬pos < data.length by simp at hlen; omega]
  | cons e es ih =>
    obtain ⟨k, rfl⟩ : ∃ k, fuel = k + 1 := ⟨fuel - 1, by simp at hfuel; omega⟩
    have hpos : pos < data.length := by
      simp only [encodeTree_cons, List.length_append, e.length_encode] at hlen; omega
    have hstep : treeEntryC data pos = .ok (e.cRow, pos + e.encode.length) := by
      rw [treeEntryC_eq, h, encodeTree_cons, treeEntryRest_encode]; rfl
    have hrest : data.drop (pos + e.encode.length) = encodeTree es := by
      rw [← List.drop_drop, h, encodeTree_cons, List.drop_left]
    have hrestLen := congrArg List.length hrest
    rw [List.length_drop] at hrestLen
    simp only [treeEntriesCFrom, if_pos hpos, hstep]
    show (treeEntriesCFrom data k (pos + e.encode.length) >>= fun rows => pure (e.cRow :: rows)) = _
    rw [ih k _ hrest (by simpa using hfuel) hrestLen]
    rfl

/-- The calls of `git_tree_entries_c` return rows, with enough calls to reach the end, only
from a position where encodings of entries run to the end, and then their rows. -/
theorem treeEntriesCFrom_ok (data : Bytes) (fuel pos : Nat) (rows : List TreeRow)
    (h : treeEntriesCFrom data fuel pos = .ok rows) (hfuel : data.length ≤ pos + fuel) :
  ∃ es : List TreeEntry, data.drop pos = encodeTree es ∧ rows = es.map TreeEntry.cRow
  := by
  induction fuel generalizing pos rows with
  | zero =>
    cases h
    exact ⟨[], List.drop_eq_nil_of_le (by omega), rfl⟩
  | succ k ih =>
    simp only [treeEntriesCFrom] at h
    split at h
    · obtain ⟨⟨row, pos'⟩, hstep, h⟩ := except_bind_eq_ok.mp h
      obtain ⟨rows', hrows', h⟩ := except_bind_eq_ok.mp h
      cases h
      rw [treeEntryC_eq] at hstep
      rcases hrest : treeEntryRest (data.drop pos) with msg | ⟨row₀, n⟩ <;> rw [hrest] at hstep <;>
        cases hstep
      obtain ⟨e, hdata, rfl, rfl⟩ := treeEntryRest_ok hrest
      obtain ⟨es, hes, rfl⟩ := ih (pos + e.encode.length) rows' hrows'
        (by have := e.length_encode; omega)
      refine ⟨e :: es, ?_, rfl⟩
      calc data.drop pos = e.encode ++ (data.drop pos).drop e.encode.length := hdata
        _ = encodeTree (e :: es) := by rw [List.drop_drop, hes, encodeTree_cons]
    · cases h
      exact ⟨[], List.drop_eq_nil_of_le (by omega), rfl⟩

/-- The calls of `git_tree_entries_c` raise nothing but its three errors. -/
theorem treeEntriesCFrom_error (data : Bytes) (fuel pos : Nat) (msg : String)
    (h : treeEntriesCFrom data fuel pos = .error msg) :
  msg = noSpaceFound ∨ msg = noNulFound ∨ msg = truncatedOidError
  := by
  induction fuel generalizing pos with
  | zero => cases h
  | succ k ih =>
    simp only [treeEntriesCFrom] at h
    split at h
    · rcases except_bind_eq_error.mp h with hstep | ⟨⟨row, pos'⟩, -, h⟩
      · rw [treeEntryC_eq] at hstep
        rcases hrest : treeEntryRest (data.drop pos) with m | r <;> rw [hrest] at hstep <;>
          cases hstep
        exact treeEntryRest_error hrest
      · rcases except_bind_eq_error.mp h with h | ⟨rows, -, h⟩
        · exact ih pos' h
        · cases h
    · cases h

/-- `git_tree_entries_c` returns rows exactly on a concatenation of encoded entries, and then
their rows. -/
theorem gitTreeEntriesC_ok_iff (content : Bytes) (rows : List TreeRow) :
  gitTreeEntriesC content = .ok rows ↔
    ∃ es : List TreeEntry, content = encodeTree es ∧ rows = es.map TreeEntry.cRow
  := by
  constructor
  · intro h
    simpa using treeEntriesCFrom_ok content content.length 0 rows h (by omega)
  · rintro ⟨es, rfl, rfl⟩
    exact treeEntriesCFrom_encode _ es _ 0 rfl (length_le_length_encodeTree es)

/-- Every error of `git_tree_entries_c` is one of its three. -/
theorem gitTreeEntriesC_error (content : Bytes) (msg : String)
    (h : gitTreeEntriesC content = .error msg) :
  msg = noSpaceFound ∨ msg = noNulFound ∨ msg = truncatedOidError
  := treeEntriesCFrom_error _ _ _ msg h

theorem cstringText_of_zero_not_mem {b : Bytes} (h : (0 : UInt8) ∉ b) :
  cstringText b = b
  := List.takeWhile_eq_self_iff.mpr fun x hx => decide_eq_true fun h0 : x = 0 => h (h0 ▸ hx)

/-- `CStringGetTextDatum` keeps a mode without NUL whole. -/
theorem TreeEntry.cRow_eq_row {e : TreeEntry} (h : (0 : UInt8) ∉ e.mode) :
  e.cRow = e.row
  := by rw [cRow, cstringText_of_zero_not_mem h, cstringText_of_zero_not_mem e.name_no_nul]; rfl

theorem map_cRow_eq_map_row {es : List TreeEntry} (h : ∀ e ∈ es, (0 : UInt8) ∉ e.mode) :
  es.map TreeEntry.cRow = es.map TreeEntry.row
  := List.map_congr_left fun e he => TreeEntry.cRow_eq_row (h e he)

/-- The rows of entries, read back, are the tree of the entries. -/
theorem encodeRows_row (es : List TreeEntry) :
  encodeRows (es.map TreeEntry.row) = encodeTree es
  := by rw [encodeRows, List.map_map]; rfl

/-- A mode with a NUL before its SP passes the scans of `git_tree_entries_c`, and comes back cut
at the NUL: the rows returned describe another tree, and the content is no concatenation of
entries whose modes hold no NUL. -/
theorem nul_in_mode_accepted_and_cut :
  gitTreeEntriesC ([0x31, 0, 0x20, 0x6e, 0] ++ List.replicate 20 0xaa) =
      .ok [⟨[0x31], [0x6e], List.replicate 20 0xaa⟩] ∧
    encodeRows [⟨[0x31], [0x6e], List.replicate 20 0xaa⟩] ≠
      [0x31, 0, 0x20, 0x6e, 0] ++ List.replicate 20 0xaa ∧
    ¬∃ es : List TreeEntry, (∀ e ∈ es, (0 : UInt8) ∉ e.mode) ∧
      [0x31, 0, 0x20, 0x6e, 0] ++ List.replicate 20 0xaa = encodeTree es
  := by
  have hok : gitTreeEntriesC ([0x31, 0, 0x20, 0x6e, 0] ++ List.replicate 20 0xaa) =
      .ok [⟨[0x31], [0x6e], List.replicate 20 0xaa⟩] := by decide
  have hne : encodeRows [⟨[0x31], [0x6e], List.replicate 20 0xaa⟩] ≠
      [0x31, 0, 0x20, 0x6e, 0] ++ List.replicate 20 0xaa := by decide
  refine ⟨hok, hne, ?_⟩
  rintro ⟨es, hmodes, hes⟩
  have hrows := (gitTreeEntriesC_ok_iff _ _).mpr ⟨es, hes, rfl⟩
  rw [hok, map_cRow_eq_map_row hmodes, Except.ok.injEq] at hrows
  exact hne (by rw [hrows, encodeRows_row, hes])

/-! ### The loop of `git_tree_entries` -/

/-- A pass of the loop of `git_tree_entries` reads an encoded entry back whole when its mode and
name are text. -/
theorem treeEntrySqlRest_encode (e : TreeEntry) (post : Bytes) (hmode : pgUtf8Verify e.mode = true)
    (hname : pgUtf8Verify e.name = true) :
  treeEntrySqlRest (e.encode ++ post) = .ok (e.row, e.encode.length)
  := by
  have henc : e.encode ++ post = e.mode ++ 0x20 :: (e.name ++ 0 :: (e.oid ++ post)) := by
    simp [TreeEntry.encode]
  simp only [henc, treeEntrySqlRest, dropWhile_ne_append e.mode_no_space, List.drop_one,
    List.tail_cons, dropWhile_ne_append e.name_no_nul, takeWhile_ne_append e.mode_no_space,
    takeWhile_ne_append e.name_no_nul, convertFrom_of_verify hmode, convertFrom_of_verify hname,
    List.take_left' e.oid_length, e.length_encode]
  rfl

/-- From `v_pos = i + 1`, where the encodings of `es` begin and run to the end, the loop of
`git_tree_entries` returns the entries as they are, when their modes and names are text. -/
theorem treeEntriesSqlFrom_encode (content : Bytes) (es : List TreeEntry) (fuel i : Nat)
    (h : content.drop i = encodeTree es)
    (htext : ∀ e ∈ es, pgUtf8Verify e.mode = true ∧ pgUtf8Verify e.name = true)
    (hfuel : es.length ≤ fuel) :
  treeEntriesSqlFrom content fuel (i + 1) = .ok (es.map TreeEntry.row)
  := by
  have hlen := congrArg List.length h
  rw [List.length_drop] at hlen
  induction es generalizing fuel i with
  | nil =>
    cases fuel with
    | zero => rfl
    | succ k => simp [treeEntriesSqlFrom, show ¬i + 1 ≤ content.length by simp at hlen; omega]
  | cons e es ih =>
    obtain ⟨k, rfl⟩ : ∃ k, fuel = k + 1 := ⟨fuel - 1, by simp at hfuel; omega⟩
    simp only [List.mem_cons, forall_eq_or_imp] at htext
    have hpos : i + 1 ≤ content.length := by
      simp only [encodeTree_cons, List.length_append, e.length_encode] at hlen; omega
    have hstep : treeEntrySql content (i + 1) = .ok (e.row, i + e.encode.length + 1) := by
      rw [treeEntrySql_eq, h, encodeTree_cons, treeEntrySqlRest_encode _ _ htext.1.1 htext.1.2,
        Nat.add_right_comm]
      rfl
    have hrest : content.drop (i + e.encode.length) = encodeTree es := by
      rw [← List.drop_drop, h, encodeTree_cons, List.drop_left]
    have hrestLen := congrArg List.length hrest
    rw [List.length_drop] at hrestLen
    simp only [treeEntriesSqlFrom, if_pos hpos, hstep]
    show (treeEntriesSqlFrom content k (i + e.encode.length + 1) >>= fun rows =>
      pure (e.row :: rows)) = _
    rw [ih k _ hrest htext.2 (by simpa using hfuel) hrestLen]
    rfl

/-- A pass of the loop of `git_tree_entries` raises only what `convert_from` raises. -/
theorem treeEntrySql_error (content : Bytes) (pos : Nat) (msg : String)
    (h : treeEntrySql content pos = .error msg) :
  msg = invalidUtf8
  := by
  unfold treeEntrySql at h
  rcases except_bind_eq_error.mp h with h | ⟨_, -, h⟩
  · exact convertFrom_error h
  rcases except_bind_eq_error.mp h with h | ⟨_, -, h⟩
  · exact convertFrom_error h
  cases h

/-- The loop of `git_tree_entries` raises only what `convert_from` raises. -/
theorem treeEntriesSqlFrom_error (content : Bytes) (fuel pos : Nat) (msg : String)
    (h : treeEntriesSqlFrom content fuel pos = .error msg) :
  msg = invalidUtf8
  := by
  induction fuel generalizing pos with
  | zero => cases h
  | succ k ih =>
    simp only [treeEntriesSqlFrom] at h
    split at h
    · rcases except_bind_eq_error.mp h with hstep | ⟨⟨row, pos'⟩, -, h⟩
      · exact treeEntrySql_error _ _ _ hstep
      · rcases except_bind_eq_error.mp h with h | ⟨rows, -, h⟩
        · exact ih pos' h
        · cases h
    · cases h

/-- `git_tree_entries` raises nothing but the error of `convert_from`: none of the three errors
of `git_tree_entries_c`. -/
theorem gitTreeEntries_error (content : Bytes) (msg : String)
    (h : gitTreeEntries content = .error msg) :
  msg = invalidUtf8
  := treeEntriesSqlFrom_error _ _ _ msg h

/-- On a tree whose modes and names are text, `git_tree_entries` and `git_tree_entries_c` both
return the entries as they are. -/
theorem treeParsers_agree_on_text (es : List TreeEntry)
    (htext : ∀ e ∈ es, pgUtf8Verify e.mode = true ∧ pgUtf8Verify e.name = true) :
  gitTreeEntries (encodeTree es) = .ok (es.map TreeEntry.row) ∧
    gitTreeEntriesC (encodeTree es) = .ok (es.map TreeEntry.row)
  := by
  refine ⟨treeEntriesSqlFrom_encode _ es _ 0 rfl htext (length_le_length_encodeTree es), ?_⟩
  rw [← map_cRow_eq_map_row fun e he => zero_not_mem_of_pgUtf8Verify (htext e he).1]
  exact (gitTreeEntriesC_ok_iff _ _).mpr ⟨es, rfl, rfl⟩

/-- Content with no SP, with no NUL after the SP, and with two bytes after the NUL:
`git_tree_entries_c` raises its three errors, `git_tree_entries` returns a row each time.  A
well-formed entry whose name is the byte `0xff`: `git_tree_entries_c` returns it, and
`git_tree_entries` raises. -/
theorem sql_tree_parser_accepts_malformed :
  gitTreeEntriesC [0x61, 0x62, 0x63] = .error noSpaceFound ∧
    gitTreeEntries [0x61, 0x62, 0x63] = .ok [⟨[0x61, 0x62, 0x63], [], []⟩] ∧
    gitTreeEntriesC [0x31, 0x20, 0x6e] = .error noNulFound ∧
    gitTreeEntries [0x31, 0x20, 0x6e] = .ok [⟨[0x31], [0x6e], []⟩] ∧
    gitTreeEntriesC [0x31, 0x20, 0x6e, 0, 0x61, 0x62] = .error truncatedOidError ∧
    gitTreeEntries [0x31, 0x20, 0x6e, 0, 0x61, 0x62] = .ok [⟨[0x31], [0x6e], [0x61, 0x62]⟩] ∧
    gitTreeEntriesC ([0x31, 0x20, 0xff, 0] ++ List.replicate 20 0xaa) =
      .ok [⟨[0x31], [0xff], List.replicate 20 0xaa⟩] ∧
    gitTreeEntries ([0x31, 0x20, 0xff, 0] ++ List.replicate 20 0xaa) = .error invalidUtf8
  := by decide

end Gitgres
