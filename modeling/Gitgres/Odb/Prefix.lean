import Gitgres.Odb.Backend
import Gitgres.Sql.Text

/-!
# Prefix lookups

`pgOdbReadPrefix` and `pgOdbExistsPrefix` select the stored OIDs whose first
`(prefix_len + 1) / 2` bytes equal those of the short OID.  For an even `prefix_len` that is
the set of OIDs whose first `prefix_len` hex digits are those of the short OID.  For an odd
`prefix_len` the last byte compared also holds the digit after the prefix, which is zero in the
short OID libgit2 passes, so an OID whose digit there is not zero is missed.

The SQL function `git_object_read_prefix` compares `p_prefix_len / 2` whole bytes instead, so
for an odd length it ignores the last digit of the prefix, and it returns every row it selects:
its header's "returns error if ambiguous" has no code behind it.
-/

namespace Gitgres

/-- The stored OIDs of repository `r` whose first `p` hex digits are those of `s`. -/
def Db.hexMatches (db : Db) (r : RepoId) (s : Oid) (p : Nat) : List Bytes :=
  (db.objects.filter fun o => o.repo = r ∧ (nibbles o.oid).take p = (nibbles s.id).take p).map
    (·.oid)

theorem nibbles_take (a : Bytes) (n : Nat) :
  nibbles (a.take n) = (nibbles a).take (2 * n)
  := by
  induction a generalizing n with
  | nil => simp [nibbles]
  | cons x a ih =>
    cases n with
    | zero => rfl
    | succ n =>
      simp only [List.take_succ_cons, nibbles, List.flatMap_cons] at ih ⊢
      rw [ih, show 2 * (n + 1) = 2 * n + 1 + 1 by omega]
      simp only [List.cons_append, List.nil_append, List.take_succ_cons]

/-- A byte string is determined by its hex digits. -/
theorem nibbles_injective {a b : Bytes} (h : nibbles a = nibbles b) :
  a = b
  := by
  induction a generalizing b with
  | nil => cases b <;> simp_all [nibbles]
  | cons x a ih =>
    cases b with
    | nil => simp [nibbles] at h
    | cons y b =>
      simp only [nibbles, List.flatMap_cons, List.cons_append, List.nil_append,
        List.cons.injEq] at h
      obtain ⟨h1, h2, h3⟩ := h
      have hxy : x = y := UInt8.toNat.inj (by omega)
      rw [hxy, ih h3]

/-- Comparing the first `n` bytes is comparing the first `2 n` hex digits. -/
theorem take_eq_iff_nibbles (a b : Bytes) (n : Nat) :
  a.take n = b.take n ↔ (nibbles a).take (2 * n) = (nibbles b).take (2 * n)
  := by
  rw [← nibbles_take, ← nibbles_take]
  exact ⟨congrArg nibbles, nibbles_injective⟩

/-- For an even prefix length `2 n`, the rows the prefix query selects are the stored OIDs whose
first `2 n` hex digits are those of the short OID. -/
theorem objectsPrefixed_even (db : Db) (r : RepoId) (s : Oid) (n : Nat) :
  (db.objectsPrefixed r ((2 * n + 1) / 2) (s.id.take ((2 * n + 1) / 2))).map (·.oid)
    = db.hexMatches r s (2 * n)
  := by
  have hn : (2 * n + 1) / 2 = n := by omega
  simp only [hn, Db.objectsPrefixed, Db.hexMatches]
  congr 1
  apply List.filter_congr
  intro o _
  simp only [take_eq_iff_nibbles]

/-- The short OID `10 00 .. 00`, which libgit2 passes for the one-digit prefix `1`. -/
def shortOne : Oid := ⟨0x10 :: List.replicate 19 0, rfl⟩

/-- The OID `12 00 .. 00`. -/
def oidOneTwo : Oid := ⟨0x12 :: List.replicate 19 0, rfl⟩

/-- A repository whose one object has the OID `12 00 .. 00`. -/
def prefixDb : Db := { Db.empty with objects := [⟨1, oidOneTwo.id, 3, 5, utf8 "hello"⟩] }

/-- The OID `12 00 .. 00` starts with the one hex digit `1`, yet read_prefix and exists_prefix
of `10 00 .. 00` with `prefix_len = 1` find nothing. -/
theorem read_prefix_misses_odd_prefix :
  (nibbles oidOneTwo.id).take 1 = (nibbles shortOne.id).take 1 ∧
    ((pgOdbReadPrefix 1 shortOne 1).run .idle prefixDb []).val = .error gitEnotfound ∧
    ((pgOdbExistsPrefix 1 shortOne 1).run .idle prefixDb []).val = .error gitEnotfound
  := by
  decide

/-! ### The SQL function `git_object_read_prefix` -/

/-- `git_object_read_prefix(p_repo_id, p_prefix, p_prefix_len)`: the rows `oid, type, size,
content` of the objects of the repository whose first `p_prefix_len / 2` bytes (the integer
division of PostgreSQL, towards zero) are those of `p_prefix`; `substring` raises on the
negative length of a `p_prefix_len` below `-1`. -/
def gitObjectReadPrefix (db : Db) (r : RepoId) (pre : Bytes) (prefixLen : Int) :
    Except String (List (List Cell)) := do
  let prefixBytes := prefixLen.tdiv 2
  if prefixBytes < 0 then throw negativeSubstringLength
  pure ((db.objectsPrefixed r prefixBytes.toNat (pre.take prefixBytes.toNat)).map ObjectRow.cells)

/-- For every length `p ≥ 0` the function returns, with no error, the objects of the repository
whose first `2 (p / 2)` hex digits are those of the prefix: all its digits for an even `p`, all
but the last for an odd one. -/
theorem gitObjectReadPrefix_eq (db : Db) (r : RepoId) (pre : Bytes) (p : Int) (hp : 0 ≤ p) :
  gitObjectReadPrefix db r pre p =
    .ok ((db.objects.filter fun o =>
      o.repo = r ∧ (nibbles o.oid).take (2 * (p.toNat / 2)) = (nibbles pre).take (2 * (p.toNat / 2))
      ).map ObjectRow.cells)
  := by
  have hdiv : p.tdiv 2 = p / 2 := Int.tdiv_eq_ediv hp (by decide)
  have hn : (p.tdiv 2).toNat = p.toNat / 2 := by omega
  rw [gitObjectReadPrefix, if_neg (by omega), hn]
  simp only [pure, Except.pure, Db.objectsPrefixed, List.take_take, min_self,
    take_eq_iff_nibbles]
  rfl

/-- The OID `12 34 00 .. 00`. -/
def oidOneTwoThreeFour : Oid := ⟨0x12 :: 0x34 :: List.replicate 18 0, rfl⟩

/-- The OID `34 00 .. 00`. -/
def oidThreeFour : Oid := ⟨0x34 :: List.replicate 19 0, rfl⟩

/-- A repository with the objects `12 00 .. 00`, `12 34 00 .. 00` and `34 00 .. 00`. -/
def threeObjectsDb : Db :=
  { Db.empty with objects := [⟨1, oidOneTwo.id, 3, 1, [0x61]⟩, ⟨1, oidOneTwoThreeFour.id, 3, 1, [0x62]⟩,
    ⟨1, oidThreeFour.id, 3, 1, [0x63]⟩] }

/-- With the one-digit prefix `1`, `git_object_read_prefix` compares no byte and returns all
three objects, `34 00 .. 00` among them; with the two-digit prefix `12`, which two objects
share, it returns both rows and raises no error. -/
theorem read_prefix_ignores_odd_digit_and_ambiguity :
  (nibbles oidThreeFour.id).take 1 ≠ (nibbles shortOne.id).take 1 ∧
    gitObjectReadPrefix threeObjectsDb 1 shortOne.id 1 =
      .ok (threeObjectsDb.objects.map ObjectRow.cells) ∧
    gitObjectReadPrefix threeObjectsDb 1 oidOneTwo.id 2 =
      .ok ((threeObjectsDb.objects.take 2).map ObjectRow.cells)
  := ⟨by decide, rfl, rfl⟩

end Gitgres
