import Gitgres.Refdb.Write

/-!
# The three read paths of a ref

`pgRefdbLookup`, the iterator's `pgRefdbIterNext` and the reference `pgRefdbRename` returns all
decode a row `(name, oid, symbolic)` with `refFromResult`.  Lookup asks for a binary result, in
which a `bytea` cell is its raw bytes; the iterator and rename ask for a text result, in which
the same cell is the text `\x` followed by two hex digits a byte.  A 20-byte OID then has
length 42, and `refFromResult` refuses the row: on a direct ref the iterator stops with `-1`
and rename rolls back, while lookup returns the ref.
-/

namespace Gitgres

theorem Cell.length_bytea_text (b : Bytes) :
  (Cell.bytea b).length .text = 2 + 2 * b.length
  := utf8ByteSize_byteaTextOut b

/-- In a text result, `refFromResult` refuses every row whose `oid` column holds 20 bytes. -/
theorem refFromResult_text_oid {res : PGresult} {row : Nat} {b : Bytes}
    (name : Option String) (hfmt : res.format = .text) (hcell : res.cell row 1 = .bytea b)
    (hlen : b.length = 20) :
  refFromResult res row name = .error gitError
  := by
  have hl : res.getlength row 1 = 42 := by
    rw [PGresult.getlength, hcell, hfmt, Cell.length_bytea_text, hlen]
  simp [refFromResult, PGresult.getisnull, hcell, hl]

/-- In a binary result, `refFromResult` decodes a direct row with a 20-byte OID. -/
theorem refFromResult_binary_oid {res : PGresult} {row : Nat} {b : Bytes}
    (name : Option String) (hfmt : res.format = .binary) (hcell : res.cell row 1 = .bytea b)
    (hlen : b.length = 20) :
  refFromResult res row name = .ok ⟨name.getD (res.getstr row 0), .direct (Oid.fromraw b)⟩
  := by
  have hl : res.getlength row 1 = 20 := by
    rw [PGresult.getlength, hcell, hfmt]
    exact hlen
  simp [refFromResult, PGresult.getisnull, PGresult.getvalue, hcell, hl, hfmt, Cell.raw]

/-- The iterator is stuck on a direct ref: when its current row has a 20-byte OID, `next`
returns `-1` and does not move. -/
theorem pgRefdbIterNext_oid {it : RefIterator} {b : Bytes} (hcur : it.current < it.total)
    (hfmt : it.result.format = .text) (hcell : it.result.cell it.current 1 = .bytea b)
    (hlen : b.length = 20) :
  pgRefdbIterNext it = (.error gitError, it)
  := by
  simp [pgRefdbIterNext, Nat.not_le.mpr hcur, refFromResult_text_oid none hfmt hcell hlen]

/-- A repository with one direct ref, `refs/heads/main`. -/
def mainRefDb : Db := { Db.empty with refs := [⟨1, "refs/heads/main", .oid (Oid.ofByte 0xaa).id⟩] }

/-- On `refs/heads/main` of `mainRefDb`, lookup returns the direct ref, the iterator's first
`next` returns `-1`, and renaming it to an unused name returns `-1` and changes nothing. -/
theorem read_paths_disagree_on_direct_ref :
  ((pgRefdbLookup 1 "refs/heads/main").run .idle mainRefDb []).val
      = .ok ⟨"refs/heads/main", .direct (Oid.ofByte 0xaa)⟩ ∧
    ((pgRefdbIterator 1 none).run .idle mainRefDb []).val.map (fun it => (pgRefdbIterNext it).1)
      = .ok (.error gitError) ∧
    ((pgRefdbIterator 1 (some "refs/heads/*")).run .idle mainRefDb []).val.map
        (fun it => (pgRefdbIterNext it).1) = .ok (.error gitError) ∧
    (pgRefdbRename 1 "refs/heads/main" "refs/heads/other" false).run .idle mainRefDb [] =
      ⟨.error gitError, .idle, mainRefDb, []⟩
  := by
  decide

end Gitgres
