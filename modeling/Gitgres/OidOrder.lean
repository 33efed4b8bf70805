import Gitgres.OidType
import Mathlib.Data.List.Lex

/-!
# The order of `git_oid`

Every comparison function of the C extension calls `memcmp(a->data, b->data, 20)`, which reads
the bytes as `unsigned char` and returns a value with the sign of the difference of the first
pair of bytes that differ; `memcmp` here returns that difference.  `git_oid_cmp` returns it, and
`git_oid_eq`, `ne`, `lt`, `le`, `gt` and `ge` test its sign (`oidSignTest`).  `git_oid_hash` is
PostgreSQL's `hash_any` of the 20 bytes, which the model takes as a parameter.

On byte strings of its length `memcmp` is zero exactly on equal strings (`memcmp_eq_zero_iff`),
changes sign when its arguments are swapped (`memcmp_swap`), and is negative exactly when the
first string comes first in the lexicographic order of bytes (`memcmp_neg_iff`).  So
`git_oid_cmp` is a total order (`gitOidCmp_lt_trans`, `gitOidCmp_le_trans`), the six operators
are its sign tests and satisfy the commutator and negator pairs of their declarations
(`gitOid_commutators`, `gitOid_negators`), `git_oid_hash` agrees with `=`, and the order is the
byte order of the text `git_oid_out` writes (`gitOidCmp_neg_iff_out`).
-/

namespace Gitgres

/-- `memcmp(a, b, n)`: the difference of the first pair of bytes, as `unsigned char`, that
differ among the first `n`, or `0` when there is none. -/
def memcmp : Bytes → Bytes → Nat → Int
  | _, _, 0 => 0
  | x :: a, y :: b, n + 1 => if x = y then memcmp a b n else (x.toNat : Int) - y.toNat
  | _, _, _ + 1 => 0

/-- `git_oid_cmp`. -/
def gitOidCmp (a b : Oid) : Int := memcmp a.id b.id 20

/-- A comparison function of the extension: a test of the sign of
`memcmp(a->data, b->data, 20)`. -/
def oidSignTest (test : Int → Bool) (a b : Oid) : Bool := test (memcmp a.id b.id 20)

/-- `git_oid_eq`. -/
def gitOidEq : Oid → Oid → Bool := oidSignTest fun v => v == 0

/-- `git_oid_ne`. -/
def gitOidNe : Oid → Oid → Bool := oidSignTest fun v => v != 0

/-- `git_oid_lt`. -/
def gitOidLt : Oid → Oid → Bool := oidSignTest fun v => decide (v < 0)

/-- `git_oid_le`. -/
def gitOidLe : Oid → Oid → Bool := oidSignTest fun v => decide (v ≤ 0)

/-- `git_oid_gt`. -/
def gitOidGt : Oid → Oid → Bool := oidSignTest fun v => decide (v > 0)

/-- `git_oid_ge`. -/
def gitOidGe : Oid → Oid → Bool := oidSignTest fun v => decide (v ≥ 0)

/-- `git_oid_hash`: `hash_any` of the 20 bytes. -/
def gitOidHash (hashAny : Bytes → Int) (a : Oid) : Int := hashAny a.id

/-! ### `memcmp` -/

@[simp]
theorem memcmp_cons_cons (x y : UInt8) (a b : Bytes) (n : Nat) :
  memcmp (x :: a) (y :: b) (n + 1) = if x = y then memcmp a b n else (x.toNat : Int) - y.toNat
  := rfl

theorem memcmp_swap (a b : Bytes) (n : Nat) :
  memcmp b a n = -memcmp a b n
  := by
  induction n generalizing a b with
  | zero => cases a <;> cases b <;> rfl
  | succ n ih =>
    cases a with
    | nil => cases b <;> rfl
    | cons x a =>
      cases b with
      | nil => rfl
      | cons y b =>
        rw [memcmp_cons_cons, memcmp_cons_cons, ih]
        by_cases h : x = y
        · rw [if_pos h.symm, if_pos h]
        · rw [if_neg (Ne.symm h), if_neg h]
          omega

theorem memcmp_eq_zero_iff {a b : Bytes} {n : Nat} (ha : a.length = n) (hb : b.length = n) :
  memcmp a b n = 0 ↔ a = b
  := by
  induction a generalizing b n with
  | nil => subst ha; rw [List.length_eq_zero.mp hb]; exact ⟨fun _ => rfl, fun _ => rfl⟩
  | cons x a ih =>
    rw [List.length_cons] at ha
    subst ha
    obtain ⟨y, b, rfl⟩ := List.exists_cons_of_length_eq_add_one hb
    rw [memcmp_cons_cons, List.cons.injEq]
    by_cases h : x = y
    · rw [if_pos h, ih rfl (by simpa using hb)]
      exact ⟨fun h' => ⟨h, h'⟩, And.right⟩
    · rw [if_neg h]
      have : x.toNat ≠ y.toNat := fun he => h (UInt8.toNat.inj he)
      exact ⟨fun h' => absurd h' (by omega), fun h' => absurd h'.1 h⟩

/-- On byte strings of its length `memcmp` is negative exactly when the first comes first in
the lexicographic order of bytes. -/
theorem memcmp_neg_iff {a b : Bytes} {n : Nat} (ha : a.length = n) (hb : b.length = n) :
  memcmp a b n < 0 ↔ List.Lex (· < ·) (a.map UInt8.toNat) (b.map UInt8.toNat)
  := by
  induction a generalizing b n with
  | nil =>
    subst ha
    rw [List.length_eq_zero.mp hb]
    exact ⟨fun h => absurd h (lt_irrefl 0), fun h => absurd h (List.Lex.not_nil_right _ _)⟩
  | cons x a ih =>
    rw [List.length_cons] at ha
    subst ha
    obtain ⟨y, b, rfl⟩ := List.exists_cons_of_length_eq_add_one hb
    rw [memcmp_cons_cons, List.map_cons, List.map_cons]
    by_cases h : x = y
    · rw [if_pos h, h, List.Lex.cons_iff, ih rfl (by simpa using hb)]
    · rw [if_neg h]
      have hne : x.toNat ≠ y.toNat := fun he => h (UInt8.toNat.inj he)
      constructor
      · intro hlt
        exact List.Lex.rel (by omega)
      · intro hl
        generalize hu : x.toNat = u at hl
        generalize hv : y.toNat = v at hl
        cases hl with
        | cons _ => exact absurd (hu.trans hv.symm) hne
        | rel h' => omega

/-! ### The text of `git_oid_out` -/

theorem nibbleChar_toNat {m : Nat} (hm : m < 16) :
  (nibbleChar m).toNat = if m < 10 then m + 48 else m + 87
  := by
  have key : ∀ m < 16, (nibbleChar m).toNat = if m < 10 then m + 48 else m + 87 := by decide
  exact key m hm

/-- The hex digits `git_oid_out` writes are in the order of their values. -/
theorem nibbleChar_lt_iff {m k : Nat} (hm : m < 16) (hk : k < 16) :
  (nibbleChar m).toNat < (nibbleChar k).toNat ↔ m < k
  := by
  rw [nibbleChar_toNat hm, nibbleChar_toNat hk]
  split_ifs <;> omega

/-- `memcmp` of the texts of two byte strings has the sign of `memcmp` of the strings. -/
theorem memcmp_outDigits_neg_iff {a b : Bytes} {n : Nat} (ha : a.length = n)
    (hb : b.length = n) :
  memcmp (outDigits a) (outDigits b) (2 * n) < 0 ↔ memcmp a b n < 0
  := by
  induction a generalizing b n with
  | nil => subst ha; rw [List.length_eq_zero.mp hb]; rfl
  | cons x a ih =>
    rw [List.length_cons] at ha
    subst ha
    obtain ⟨y, b, rfl⟩ := List.exists_cons_of_length_eq_add_one hb
    have hx := x.toNat_lt
    have hy := y.toNat_lt
    simp only [outDigits_cons, show 2 * (a.length + 1) = 2 * a.length + 1 + 1 by omega,
      memcmp_cons_cons, Nat.shiftRight_eq_div_pow, show (0xf : Nat) = 2 ^ 4 - 1 from rfl,
      Nat.and_pow_two_sub_one_eq_mod]
    have hxy : x = y ↔ x.toNat = y.toNat := ⟨congrArg _, UInt8.toNat.inj⟩
    have hhi := @nibbleChar_lt_iff (x.toNat / 2 ^ 4) (y.toNat / 2 ^ 4) (by omega) (by omega)
    have hhi' := @nibbleChar_lt_iff (y.toNat / 2 ^ 4) (x.toNat / 2 ^ 4) (by omega) (by omega)
    have hlo := @nibbleChar_lt_iff (x.toNat % 2 ^ 4) (y.toNat % 2 ^ 4) (by omega) (by omega)
    have hlo' := @nibbleChar_lt_iff (y.toNat % 2 ^ 4) (x.toNat % 2 ^ 4) (by omega) (by omega)
    by_cases h : x = y
    · subst h
      rw [if_pos rfl, if_pos rfl, if_pos rfl, ih rfl (by simpa using hb)]
    · rw [if_neg h]
      have hne := mt hxy.mpr h
      by_cases hh : nibbleChar (x.toNat / 2 ^ 4) = nibbleChar (y.toNat / 2 ^ 4)
      · have hheq : (nibbleChar (x.toNat / 2 ^ 4)).toNat = (nibbleChar (y.toNat / 2 ^ 4)).toNat :=
          congrArg _ hh
        rw [if_pos hh, if_neg fun hl => hne (by
          have := congrArg UInt8.toNat hl
          omega)]
        omega
      · rw [if_neg hh]
        have : (nibbleChar (x.toNat / 2 ^ 4)).toNat ≠ (nibbleChar (y.toNat / 2 ^ 4)).toNat :=
          fun he => hh (UInt8.toNat.inj he)
        omega

/-! ### The operators -/

theorem gitOidCmp_eq_zero_iff (a b : Oid) :
  gitOidCmp a b = 0 ↔ a = b
  := (memcmp_eq_zero_iff a.length_id b.length_id).trans Oid.ext_iff.symm

theorem gitOidCmp_swap (a b : Oid) :
  gitOidCmp b a = -gitOidCmp a b
  := memcmp_swap _ _ _

theorem gitOidCmp_neg_iff_lex (a b : Oid) :
  gitOidCmp a b < 0 ↔ List.Lex (· < ·) (a.id.map UInt8.toNat) (b.id.map UInt8.toNat)
  := memcmp_neg_iff a.length_id b.length_id

theorem gitOidCmp_lt_trans {a b c : Oid} (hab : gitOidCmp a b < 0) (hbc : gitOidCmp b c < 0) :
  gitOidCmp a c < 0
  := (gitOidCmp_neg_iff_lex a c).mpr <|
    @lt_trans (List ℕ) _ _ _ _ ((gitOidCmp_neg_iff_lex a b).mp hab) ((gitOidCmp_neg_iff_lex b c).mp hbc)

theorem gitOidCmp_le_trans {a b c : Oid} (hab : gitOidCmp a b ≤ 0) (hbc : gitOidCmp b c ≤ 0) :
  gitOidCmp a c ≤ 0
  := by
  rcases hab.lt_or_eq with hab | hab
  · rcases hbc.lt_or_eq with hbc | hbc
    · exact (gitOidCmp_lt_trans hab hbc).le
    · rw [(gitOidCmp_eq_zero_iff b c).mp hbc] at hab
      exact hab.le
  · rwa [(gitOidCmp_eq_zero_iff a b).mp hab]

/-- The operator pairs declared `COMMUTATOR` of each other: swapping the arguments of one gives
the other. -/
theorem gitOid_commutators (a b : Oid) :
  gitOidEq a b = gitOidEq b a ∧ gitOidNe a b = gitOidNe b a ∧
    gitOidLt a b = gitOidGt b a ∧ gitOidLe a b = gitOidGe b a
  := by
  simp only [gitOidEq, gitOidNe, gitOidLt, gitOidGt, gitOidLe, gitOidGe, oidSignTest,
    memcmp_swap a.id b.id]
  exact ⟨by simp, congrArg (!·) (by simp), decide_eq_decide.mpr (by omega),
    decide_eq_decide.mpr (by omega)⟩

/-- The operator pairs declared `NEGATOR` of each other: one is the negation of the other. -/
theorem gitOid_negators (a b : Oid) :
  gitOidNe a b = !gitOidEq a b ∧ gitOidGe a b = !gitOidLt a b ∧ gitOidGt a b = !gitOidLe a b
  := by
  simp only [gitOidEq, gitOidNe, gitOidLt, gitOidGt, gitOidLe, gitOidGe, oidSignTest,
    ← decide_not]
  exact ⟨rfl, decide_eq_decide.mpr (by omega), decide_eq_decide.mpr (by omega)⟩

/-- `git_oid_cmp` is the order of the lowercase hex text `git_oid_out` writes. -/
theorem gitOidCmp_neg_iff_out (a b : Oid) :
  gitOidCmp a b < 0 ↔
    List.Lex (· < ·) ((gitOidOut a).map UInt8.toNat) ((gitOidOut b).map UInt8.toNat)
  := (memcmp_outDigits_neg_iff a.length_id b.length_id).symm.trans
    (@memcmp_neg_iff _ _ (2 * 20) (by rw [length_outDigits, a.length_id])
      (by rw [length_outDigits, b.length_id]))

/-- `git_oid_cmp` is a total order on the 20-byte values, with `=` as its equality, and it is the
order of the lowercase hex text `git_oid_out` writes; the six comparison functions are the sign
tests of `git_oid_cmp`, so the `COMMUTATOR` and `NEGATOR` pairs of their operators hold; and
`git_oid_hash` takes the same value on values that `git_oid_eq` finds equal, whatever `hash_any`
is. -/
theorem git_oid_cmp_total_order (hashAny : Bytes → Int) :
  (∀ a b : Oid, gitOidCmp a b = 0 ↔ a = b) ∧
    (∀ a b : Oid, (gitOidCmp a b).sign = -(gitOidCmp b a).sign) ∧
    (∀ a b c : Oid, gitOidCmp a b < 0 → gitOidCmp b c < 0 → gitOidCmp a c < 0) ∧
    (∀ a b c : Oid, gitOidCmp a b ≤ 0 → gitOidCmp b c ≤ 0 → gitOidCmp a c ≤ 0) ∧
    (∀ a b : Oid, gitOidEq a b = (gitOidCmp a b == 0) ∧ gitOidNe a b = (gitOidCmp a b != 0) ∧
      gitOidLt a b = decide (gitOidCmp a b < 0) ∧ gitOidLe a b = decide (gitOidCmp a b ≤ 0) ∧
      gitOidGt a b = decide (gitOidCmp a b > 0) ∧ gitOidGe a b = decide (gitOidCmp a b ≥ 0)) ∧
    (∀ a b : Oid, gitOidEq a b = gitOidEq b a ∧ gitOidNe a b = gitOidNe b a ∧
      gitOidLt a b = gitOidGt b a ∧ gitOidLe a b = gitOidGe b a) ∧
    (∀ a b : Oid, gitOidNe a b = !gitOidEq a b ∧ gitOidGe a b = !gitOidLt a b ∧
      gitOidGt a b = !gitOidLe a b) ∧
    (∀ a b : Oid, gitOidEq a b = true → gitOidHash hashAny a = gitOidHash hashAny b) ∧
    (∀ a b : Oid, gitOidCmp a b < 0 ↔
      List.Lex (· < ·) ((gitOidOut a).map UInt8.toNat) ((gitOidOut b).map UInt8.toNat))
  := by
  refine ⟨gitOidCmp_eq_zero_iff, fun a b => ?_, fun _ _ _ => gitOidCmp_lt_trans,
    fun _ _ _ => gitOidCmp_le_trans, fun _ _ => ⟨rfl, rfl, rfl, rfl, rfl, rfl⟩, gitOid_commutators,
    gitOid_negators, fun a b h => ?_, gitOidCmp_neg_iff_out⟩
  · rw [gitOidCmp_swap a b, Int.sign_neg, neg_neg]
  · rw [gitOidHash, gitOidHash, (gitOidCmp_eq_zero_iff a b).mp (beq_iff_eq.mp h)]

end Gitgres
