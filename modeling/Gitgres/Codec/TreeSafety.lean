import Gitgres.Codec.Tree

/-!
# Memory and `int` safety of the C tree parser

`git_tree_entries_c` keeps the content in a buffer `data` of `len` bytes and computes its
positions in `int`s.  `treeEntryCChecked` is one call of the function with each read
`data[i]`, each `memcpy` out of `data`, and each `int` computation checked: a read outside
`[0, len)` is the fault `outOfBounds`, an `int` value outside `[-2^31, 2^31)` is the fault
`overflow`, and the errors the code raises are `ereport`.  `gitTreeEntriesCChecked` is the
whole scan, a call while `pos < len`.

For every content of fewer than `2^30` bytes, the largest a `bytea` holds, the checked scan
never faults and returns what `gitTreeEntriesC` returns (`treeEntriesCFromChecked_eq`): every
index the parser reads lies in `[0, len)`, and no `int` it computes overflows.  The test for a
truncated OID, `null_pos + 20 >= len && null_pos + 21 > len`, rejects exactly the entries with
`null_pos + 21 > len` (`treeEntryC_truncated_iff`).
-/

namespace Gitgres

/-- What a call of the C function can end in besides its result: an error it raises, a read
outside the buffer, or an `int` computation that overflows. -/
inductive CFault where
  | ereport (msg : String)
  | outOfBounds (i : Int)
  | overflow (v : Int)
  deriving DecidableEq

/-- An `int` computation of value `v`. -/
def int32 (v : Int) : Except CFault Int :=
  if -2 ^ 31 ≤ v ∧ v < 2 ^ 31 then .ok v else .error (.overflow v)

/-- `data[i]`. -/
def load (data : Bytes) (i : Int) : Except CFault UInt8 :=
  if 0 ≤ i ∧ i < data.length then .ok (data.getD i.toNat 0) else .error (.outOfBounds i)

/-- `memcpy(dst, data + start, count)`: the bytes `data[start] .. data[start + count - 1]`. -/
def loadRange (data : Bytes) (start count : Int) : Except CFault Bytes :=
  if 0 ≤ start ∧ 0 ≤ count ∧ start + count ≤ data.length then
    .ok ((data.drop start.toNat).take count.toNat)
  else .error (.outOfBounds (start + count - 1))

/-- `while (i < len && data[i] != b) i++`, checked, at most `fuel` steps. -/
def scanChecked (data : Bytes) (b : UInt8) : Nat → Int → Except CFault Int
  | 0, i => .ok i
  | fuel + 1, i =>
    if i < data.length then do
      let x ← load data i
      if x ≠ b then scanChecked data b fuel (← int32 (i + 1)) else pure i
    else pure i

/-- One call of `git_tree_entries_c` with `state->pos < state->len`, checked: the row of the
entry at `pos` and the next `state->pos`. -/
def treeEntryCChecked (data : Bytes) (pos : Int) : Except CFault (TreeRow × Int) := do
  let len : Int := data.length
  let spacePos ← scanChecked data 0x20 data.length pos
  if spacePos ≥ len then throw (.ereport noSpaceFound)
  let nullPos ← scanChecked data 0 data.length (← int32 (spacePos + 1))
  if nullPos ≥ len then throw (.ereport noNulFound)
  if (← int32 (nullPos + 20)) ≥ len then
    if (← int32 (nullPos + 21)) > len then throw (.ereport truncatedOidError)
  let modeLen ← int32 (spacePos - pos)
  let _ ← int32 (modeLen + 1)
  let mode ← loadRange data pos modeLen
  let nameLen ← int32 ((← int32 (nullPos - spacePos)) - 1)
  let _ ← int32 (nameLen + 1)
  let name ← loadRange data (spacePos + 1) nameLen
  let oid ← loadRange data (nullPos + 1) 20
  let next ← int32 (nullPos + 21)
  pure (⟨cstringText mode, cstringText name, oid⟩, next)

/-- The calls of `git_tree_entries_c` from `pos` on, checked, at most `fuel` of them. -/
def treeEntriesCFromChecked (data : Bytes) : Nat → Int → Except CFault (List TreeRow)
  | 0, _ => .ok []
  | fuel + 1, pos =>
    if pos < data.length then do
      let (row, pos') ← treeEntryCChecked data pos
      let rows ← treeEntriesCFromChecked data fuel pos'
      pure (row :: rows)
    else .ok []

/-- `git_tree_entries_c(content)`, checked. -/
def gitTreeEntriesCChecked (content : Bytes) : Except CFault (List TreeRow) :=
  treeEntriesCFromChecked content content.length 0

/-! ### Checked operations in range -/

theorem except_ok_bind {ε α β : Type} (a : α) (f : α → Except ε β) :
  (Except.ok a >>= f) = f a
  := rfl

theorem int32_of_lt {v : Int} (h0 : 0 ≤ v) (h : v < 2 ^ 31) :
  int32 v = .ok v
  := if_pos ⟨by omega, h⟩

theorem load_of_lt (data : Bytes) (i : Nat) (h : i < data.length) :
  load data i = .ok (data.getD i 0)
  := if_pos ⟨Int.natCast_nonneg i, Int.ofNat_lt.mpr h⟩

theorem loadRange_of_le (data : Bytes) (start count : Nat) (h : start + count ≤ data.length) :
  loadRange data start count = .ok ((data.drop start).take count)
  := if_pos ⟨Int.natCast_nonneg _, Int.natCast_nonneg _, by omega⟩

/-! ### The scans -/

theorem le_scanTo (data : Bytes) (b : UInt8) (fuel i : Nat) :
  i ≤ scanTo data b fuel i
  := by
  induction fuel generalizing i with
  | zero => exact le_refl i
  | succ k ih =>
    rw [scanTo]
    split
    · exact Nat.le_of_succ_le (ih (i + 1))
    · exact le_refl i

theorem scanTo_le_length (data : Bytes) (b : UInt8) (fuel i : Nat) (h : i ≤ data.length) :
  scanTo data b fuel i ≤ data.length
  := by
  induction fuel generalizing i with
  | zero => exact h
  | succ k ih =>
    rw [scanTo]
    split
    · next hlt => exact ih (i + 1) hlt.1
    · exact h

/-- The checked scan from a position in the buffer never faults, and stops where the scan of
`Gitgres.Codec.Tree` stops. -/
theorem scanChecked_eq (data : Bytes) (b : UInt8) (fuel i : Nat) (h : i ≤ data.length)
    (hlen : data.length < 2 ^ 30) :
  scanChecked data b fuel i = .ok (scanTo data b fuel i : Int)
  := by
  induction fuel generalizing i with
  | zero => rfl
  | succ k ih =>
    rw [scanChecked, scanTo]
    by_cases hi : i < data.length
    · rw [if_pos (Int.ofNat_lt.mpr hi)]
      by_cases hb : data.getD i 0 = b
      · rw [if_neg fun h' => h'.2 hb, load_of_lt data i hi, except_ok_bind,
          if_neg (not_not.mpr hb)]
        rfl
      · rw [if_pos ⟨hi, hb⟩, ← ih (i + 1) hi, load_of_lt data i hi, except_ok_bind, if_pos hb,
          show ((i : Int) + 1) = ((i + 1 : Nat) : Int) by push_cast; rfl,
          int32_of_lt (Int.natCast_nonneg _) (by omega), except_ok_bind]
    · rw [if_neg (by omega), if_neg fun h' => hi h'.1]
      rfl

/-! ### One call -/

/-- A call from a position in the buffer never faults, and returns what `treeEntryC`
returns. -/
theorem treeEntryCChecked_eq (data : Bytes) (pos : Nat) (hpos : pos ≤ data.length)
    (hlen : data.length < 2 ^ 30) :
  treeEntryCChecked data pos =
    ((treeEntryC data pos).mapError CFault.ereport).map fun r => (r.1, (r.2 : Int))
  := by
  have hsp₁ := le_scanTo data 0x20 data.length pos
  have hsp₂ := scanTo_le_length data 0x20 data.length pos hpos
  rw [treeEntryCChecked, treeEntryC, scanChecked_eq data _ _ pos hpos hlen, except_ok_bind]
  generalize scanTo data 0x20 data.length pos = sp at hsp₁ hsp₂ ⊢
  by_cases hsp : data.length ≤ sp
  · rw [if_pos (Int.ofNat_le.mpr hsp), if_pos hsp]
    rfl
  · dsimp only
    rw [if_neg (by omega), if_neg hsp, pure_bind, int32_of_lt (by omega) (by omega),
      except_ok_bind, show ((sp : Int) + 1) = ((sp + 1 : Nat) : Int) by push_cast; rfl,
      scanChecked_eq data 0 _ (sp + 1) (by omega) hlen, except_ok_bind]
    have hnp₁ := le_scanTo data 0 data.length (sp + 1)
    have hnp₂ := scanTo_le_length data 0 data.length (sp + 1) (by omega)
    generalize scanTo data 0 data.length (sp + 1) = np at hnp₁ hnp₂ ⊢
    by_cases hnp : data.length ≤ np
    · rw [if_pos (Int.ofNat_le.mpr hnp), if_pos hnp]
      rfl
    · rw [if_neg (by omega), if_neg hnp, pure_bind, int32_of_lt (by omega) (by omega),
        except_ok_bind]
      by_cases htr : np + 21 > data.length
      · rw [if_pos (by omega), int32_of_lt (by omega) (by omega), except_ok_bind,
          if_pos (by omega), if_pos ⟨by omega, htr⟩]
        rfl
      · have hnp₃ : np + 21 ≤ data.length := by omega
        rw [if_neg (by omega), pure_bind, if_neg fun h => htr h.2,
          show ((sp : Int) - pos) = ((sp - pos : Nat) : Int) by omega,
          show ((np : Int) - sp) = ((np - sp : Nat) : Int) by omega,
          show ((np : Int) + 1) = ((np + 1 : Nat) : Int) by push_cast; rfl,
          show ((np : Int) + 21) = ((np + 21 : Nat) : Int) by push_cast; rfl,
          int32_of_lt (by omega) (by omega), except_ok_bind, int32_of_lt (by omega) (by omega),
          except_ok_bind, loadRange_of_le data pos (sp - pos) (by omega), except_ok_bind,
          int32_of_lt (by omega) (by omega), except_ok_bind,
          show ((np - sp : Nat) : Int) - 1 = ((np - sp - 1 : Nat) : Int) by omega,
          int32_of_lt (by omega) (by omega), except_ok_bind, int32_of_lt (by omega) (by omega),
          except_ok_bind, loadRange_of_le data (sp + 1) (np - sp - 1) (by omega), except_ok_bind,
          show (20 : Int) = ((20 : Nat) : Int) from rfl,
          loadRange_of_le data (np + 1) 20 (by omega), except_ok_bind,
          int32_of_lt (by omega) (by omega), except_ok_bind]
        rfl

/-- A call that returns a row moves `state->pos` to at most `len`. -/
theorem treeEntryC_next_le {data : Bytes} {pos : Nat} {row : TreeRow} {pos' : Nat}
    (hpos : pos ≤ data.length) (h : treeEntryC data pos = .ok (row, pos')) :
  pos' ≤ data.length
  := by
  rw [treeEntryC_eq] at h
  rcases hr : treeEntryRest (data.drop pos) with e | ⟨row', n⟩
  · rw [hr] at h
    cases h
  · rw [hr] at h
    cases h
    obtain ⟨e, hrest, -, rfl⟩ := treeEntryRest_ok hr
    have := congrArg List.length hrest
    simp only [List.length_drop, List.length_append] at this
    omega

/-- The test `null_pos + 20 >= len && null_pos + 21 > len` rejects exactly the entries whose
NUL is followed by fewer than twenty bytes. -/
theorem treeEntryC_truncated_iff (data : Bytes) (pos : Nat) :
  treeEntryC data pos = .error truncatedOidError ↔
    scanTo data 0x20 data.length pos < data.length ∧
      scanTo data 0 data.length (scanTo data 0x20 data.length pos + 1) < data.length ∧
      data.length < scanTo data 0 data.length (scanTo data 0x20 data.length pos + 1) + 21
  := by
  rw [treeEntryC]
  generalize scanTo data 0x20 data.length pos = sp
  dsimp only
  generalize scanTo data 0 data.length (sp + 1) = np
  by_cases hsp : sp ≥ data.length
  · rw [if_pos hsp, Except.error.injEq]
    exact ⟨fun h => absurd h (by decide), fun h => absurd h.1 (by omega)⟩
  · rw [if_neg hsp]
    by_cases hnp : np ≥ data.length
    · rw [if_pos hnp, Except.error.injEq]
      exact ⟨fun h => absurd h (by decide), fun h => absurd h.2.1 (by omega)⟩
    · rw [if_neg hnp]
      by_cases htr : np + 20 ≥ data.length ∧ np + 21 > data.length
      · rw [if_pos htr]
        exact ⟨fun _ => ⟨by omega, by omega, htr.2⟩, fun _ => rfl⟩
      · rw [if_neg htr]
        exact ⟨fun h => (by cases h), fun h => (htr ⟨by omega, h.2.2⟩).elim⟩

/-! ### The whole scan -/

theorem treeEntriesCFromChecked_eq (data : Bytes) (hlen : data.length < 2 ^ 30) (fuel pos : Nat)
    (hpos : pos ≤ data.length) :
  treeEntriesCFromChecked data fuel pos = (treeEntriesCFrom data fuel pos).mapError CFault.ereport
  := by
  induction fuel generalizing pos with
  | zero => rfl
  | succ k ih =>
    rw [treeEntriesCFromChecked, treeEntriesCFrom]
    by_cases hp : pos < data.length
    · rw [if_pos (Int.ofNat_lt.mpr hp), if_pos hp, treeEntryCChecked_eq data pos hpos hlen]
      rcases h : treeEntryC data pos with e | ⟨row, pos'⟩
      · rfl
      · dsimp only [Except.map, Except.mapError]
        rw [except_ok_bind, except_ok_bind, ih pos' (treeEntryC_next_le hpos h)]
        cases treeEntriesCFrom data k pos' <;> rfl
    · rw [if_neg (by omega), if_neg hp]
      rfl

/-- For every content of fewer than `2^30` bytes, `git_tree_entries_c` reads `data` only in
`[0, len)`, computes no `int` outside `[-2^31, 2^31)`, and returns what `gitTreeEntriesC`
returns; and in every call its test for a truncated OID rejects exactly the entries with
`null_pos + 21 > len`. -/
theorem tree_parser_reads_in_bounds (content : Bytes) (hlen : content.length < 2 ^ 30) :
  gitTreeEntriesCChecked content = (gitTreeEntriesC content).mapError CFault.ereport ∧
    (∀ i : Int, gitTreeEntriesCChecked content ≠ .error (.outOfBounds i)) ∧
    (∀ v : Int, gitTreeEntriesCChecked content ≠ .error (.overflow v)) ∧
    ∀ pos < content.length, (treeEntryC content pos = .error truncatedOidError ↔
      scanTo content 0x20 content.length pos < content.length ∧
        scanTo content 0 content.length (scanTo content 0x20 content.length pos + 1) <
          content.length ∧
        content.length <
          scanTo content 0 content.length (scanTo content 0x20 content.length pos + 1) + 21)
  := by
  have heq : gitTreeEntriesCChecked content = (gitTreeEntriesC content).mapError CFault.ereport :=
    treeEntriesCFromChecked_eq content hlen content.length 0 (Nat.zero_le _)
  refine ⟨heq, fun i => ?_, fun v => ?_, fun pos _ => treeEntryC_truncated_iff content pos⟩ <;>
  · rw [heq]
    cases gitTreeEntriesC content <;> simp [Except.mapError]

theorem tree_parser_reads_in_bounds_truncated :
  ([0x31, 0x20, 0x61, 0] : Bytes).length < 2 ^ 30 ∧
    gitTreeEntriesCChecked [0x31, 0x20, 0x61, 0] =
      (gitTreeEntriesC [0x31, 0x20, 0x61, 0]).mapError CFault.ereport ∧
    (∀ i : Int, gitTreeEntriesCChecked [0x31, 0x20, 0x61, 0] ≠ .error (.outOfBounds i)) ∧
    (∀ v : Int, gitTreeEntriesCChecked [0x31, 0x20, 0x61, 0] ≠ .error (.overflow v)) ∧
    ∀ pos < ([0x31, 0x20, 0x61, 0] : Bytes).length,
      (treeEntryC [0x31, 0x20, 0x61, 0] pos = .error truncatedOidError ↔
        scanTo [0x31, 0x20, 0x61, 0] 0x20 4 pos < 4 ∧
          scanTo [0x31, 0x20, 0x61, 0] 0 4 (scanTo [0x31, 0x20, 0x61, 0] 0x20 4 pos + 1) < 4 ∧
          4 < scanTo [0x31, 0x20, 0x61, 0] 0 4 (scanTo [0x31, 0x20, 0x61, 0] 0x20 4 pos + 1) + 21)
  := ⟨by decide, tree_parser_reads_in_bounds [0x31, 0x20, 0x61, 0] (by decide)⟩

end Gitgres
