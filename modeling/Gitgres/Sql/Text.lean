import Gitgres.Sql.Statement
import Mathlib.Data.Nat.Digits

/-!
# Text functions

The PostgreSQL functions on `text` that `git_commit_parse` calls, on the characters of the
text: `position`, `substring` by position and length (which raises on a negative length),
`string_to_array` on one character, `trim`, and the cast `::bigint` of a string of digits.
`LIKE` with a pattern `w%` and `decode(t, 'hex')` are `likeMatch` and `hexDecode` of
`Gitgres.Sql.Statement`.

Each function has the lemma the parser of commits needs about it: `position` finds the first
occurrence after a prefix without its first character (`indexOfSub_append_of_not_mem`),
`LIKE 'w%'` is the prefix test (`likeMatch_eq_isPrefixOf`), `trim` gives back a string padded
with one SP (`btrim_append_space`), and the cast reads back the digits `Nat.repr` writes
(`toString_digits`).
-/

namespace Gitgres

/-! ### The functions -/

/-- The index of the first occurrence of `needle` in `hay`, counted from zero. -/
def indexOfSub (needle : List Char) : List Char → Option Nat
  | [] => if needle = [] then some 0 else none
  | c :: rest =>
    if needle.isPrefixOf (c :: rest) then some 0 else (indexOfSub needle rest).map (· + 1)

/-- `position(needle IN hay)`: one plus the index of the first occurrence, or `0`. -/
def textPosition (needle hay : String) : Nat :=
  match indexOfSub needle.data hay.data with
  | some i => i + 1
  | none => 0

/-- `substring(s FROM start)`, for the `start ≥ 1` the functions pass. -/
def substrFrom (s : String) (start : Nat) : String := ⟨s.data.drop (start - 1)⟩

/-- The error of `substring` with a negative length. -/
def negativeSubstringLength : String := "negative substring length not allowed"

/-- `substring(s FROM start FOR count)`, for the `start ≥ 1` the functions pass. -/
def substrFor (s : String) (start : Nat) (count : Int) : Except String String :=
  if count < 0 then .error negativeSubstringLength
  else .ok ⟨(s.data.drop (start - 1)).take count.toNat⟩

/-- `string_to_array(s, d)`: no element for the empty string, else the pieces between the
occurrences of `d`. -/
def stringToArray (s : String) (d : Char) : List String :=
  if s.data = [] then [] else (s.data.splitOn d).map String.mk

/-- `trim(s)`: `s` without its leading and trailing SPs. -/
def btrim (s : String) : String :=
  ⟨((s.data.dropWhile (· = ' ')).reverse.dropWhile (· = ' ')).reverse⟩

/-- The value of a string of decimal digits, read from the left as `scanint8` reads it. -/
def digitsValue (ds : List Char) : Nat := ds.foldl (fun v d => v * 10 + (d.toNat - '0'.toNat)) 0

/-- The error of `::bigint` on a value of `2 ^ 63` or more. -/
def bigintOutOfRange : String := "value out of range for type bigint"

/-- `ds::bigint` for a string of digits. -/
def bigintIn (ds : String) : Except String Int :=
  if digitsValue ds.data < 2 ^ 63 then .ok (digitsValue ds.data) else .error bigintOutOfRange

/-- The error of `decode(t, 'hex')` on a bad digit or an odd number of digits. -/
def invalidHexData : String := "invalid hexadecimal data"

/-- `decode(t, 'hex')` as a statement: its bytes, or its error. -/
def decodeHex (t : String) : Except String Bytes :=
  match hexDecode t with
  | some b => .ok b
  | none => .error invalidHexData

/-! ### `position` -/

theorem indexOfSub_eq_zero_of_isPrefix {needle hay : List Char} (h : needle <+: hay) :
  indexOfSub needle hay = some 0
  := by
  cases hay with
  | nil => simp [indexOfSub, List.prefix_nil.mp h]
  | cons c rest => simp [indexOfSub, List.isPrefixOf_iff_prefix.mpr h]

/-- No occurrence of a needle starts inside a prefix that lacks its first character. -/
theorem indexOfSub_append_of_not_mem {x : Char} {ns l : List Char} (h : x ∉ l) (t : List Char) :
  indexOfSub (x :: ns) (l ++ t) = (indexOfSub (x :: ns) t).map (l.length + ·)
  := by
  induction l with
  | nil => simp
  | cons c l ih =>
    have hc : x ≠ c := fun hx => h (hx ▸ List.mem_cons_self x l)
    rw [List.cons_append, indexOfSub, if_neg (by simp [List.isPrefixOf, hc]),
      ih fun hx => h (List.mem_cons_of_mem c hx), Option.map_map]
    congr 1
    funext i
    simp only [Function.comp, List.length_cons]
    omega

/-! ### `LIKE 'w%'` -/

theorem matchTokens_lits_anySeq (w s : List Char) :
  matchTokens (w.map .lit ++ [.anySeq]) s = w.isPrefixOf s
  := by
  induction w generalizing s with
  | nil =>
    simp only [List.map_nil, List.nil_append, matchTokens, List.isPrefixOf, List.any_eq_true,
      List.mem_range]
    exact ⟨s.length, by omega, by simp⟩
  | cons c w ih =>
    cases s with
    | nil => rfl
    | cons d s => simp [matchTokens, List.isPrefixOf, ih]

/-- `s LIKE 'w%'`, for a `w` whose tokens are its characters, is the test that `w` starts `s`. -/
theorem likeMatch_eq_isPrefixOf (w : String)
    (hw : likeTokens (w ++ "%").toList = some (w.data.map .lit ++ [.anySeq])) (s : String) :
  likeMatch (w ++ "%") s = some (w.data.isPrefixOf s.data)
  := by
  rw [likeMatch, hw, Option.map_some', matchTokens_lits_anySeq]
  rfl

/-! ### `trim` -/

/-- `trim` takes off the SP after a string that neither starts nor ends with a SP. -/
theorem btrim_append_space (l : List Char) (hhead : l.head? ≠ some ' ')
    (hlast : l.getLast? ≠ some ' ') :
  btrim ⟨l ++ [' ']⟩ = ⟨l⟩
  := by
  have hfront : (l ++ [' ']).dropWhile (· = ' ') = l ++ [' '] ∨ l = [] := by
    cases l with
    | nil => exact .inr rfl
    | cons c l => exact .inl (List.dropWhile_cons_of_neg (by simpa using hhead))
  rcases hfront with hfront | rfl
  · have hback : (l.reverse).dropWhile (· = ' ') = l.reverse := by
      cases hl : l.reverse with
      | nil => rfl
      | cons c r =>
        have : l.getLast? = some c := by rw [← List.head?_reverse, hl]; rfl
        exact List.dropWhile_cons_of_neg (by simpa [this] using hlast)
    simp only [btrim, hfront, List.reverse_append, List.reverse_singleton, List.singleton_append]
    rw [List.dropWhile_cons_of_pos (by decide), hback, List.reverse_reverse]
  · rfl

/-! ### `::bigint` -/

theorem digitsValue_append_digit (ds : List Char) (m : Nat) (hm : m < 10) :
  digitsValue (ds ++ [Nat.digitChar m]) = digitsValue ds * 10 + m
  := by
  have key : ∀ k < 10, (Nat.digitChar k).toNat - '0'.toNat = k := by decide
  rw [digitsValue, List.foldl_append, List.foldl_cons, List.foldl_nil, key m hm]
  rfl

/-- The digits `Nat.toDigitsCore` puts before `ds`: not empty, all digits, and of value `n`. -/
theorem toDigits_spec (fuel n : Nat) (ds : List Char) (h : n < fuel) :
  ∃ D, Nat.toDigitsCore 10 fuel n ds = D ++ ds ∧ D ≠ [] ∧ (∀ c ∈ D, c.isDigit) ∧
    digitsValue D = n
  := by
  have hdigit : ∀ k < 10, (Nat.digitChar k).isDigit := by decide
  induction fuel generalizing n ds with
  | zero => omega
  | succ k ih =>
    rw [Nat.toDigitsCore]
    split
    · refine ⟨[Nat.digitChar (n % 10)], rfl, List.cons_ne_nil _ _,
        by simpa using hdigit _ (by omega), ?_⟩
      rw [show [Nat.digitChar (n % 10)] = [] ++ [Nat.digitChar (n % 10)] from rfl,
        digitsValue_append_digit _ _ (by omega)]
      show 0 * 10 + n % 10 = n
      omega
    · obtain ⟨D, hD, hne, hall, hval⟩ := ih (n / 10) (Nat.digitChar (n % 10) :: ds) (by omega)
      refine ⟨D ++ [Nat.digitChar (n % 10)], by rw [hD, List.append_assoc]; rfl, by simp, ?_,
        ?_⟩
      · simpa [or_imp, forall_and] using ⟨hall, hdigit _ (by omega)⟩
      · rw [digitsValue_append_digit _ _ (by omega), hval]
        omega

/-- The decimal text of `n`: not empty, all digits, and of value `n`. -/
theorem toString_digits (n : Nat) :
  (toString n).data ≠ [] ∧ (∀ c ∈ (toString n).data, c.isDigit) ∧
    digitsValue (toString n).data = n
  := by
  obtain ⟨D, hD, hspec⟩ := toDigits_spec (n + 1) n [] (Nat.lt_succ_self n)
  have hdata : (toString n).data = D := by
    rw [show (toString n).data = Nat.toDigitsCore 10 (n + 1) n [] from rfl, hD, List.append_nil]
  rw [hdata]
  exact hspec

end Gitgres
