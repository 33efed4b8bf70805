import Mathlib.Data.List.Basic
import Mathlib.Data.String.Basic
import Mathlib.Algebra.Group.Int

/-!
# Bytes, hex text and object identifiers

Byte strings are `Bytes`, the values of `bytea` columns and of C buffers.  A `git_oid` is an
`Oid`: a byte string that carries the proof that it has the 20 bytes of a SHA-1 digest.
`hexEncode` is the lowercase hex text of `encode(b, 'hex')` and of `git_oid_tostr`, and
`byteaTextOut` is the text form in which the server sends a `bytea` value when the client
asks for text results (the default `bytea_output = hex`).  The machine integers the backends
send and read back are the two's complement readings `toInt16`, `toInt32` and `sizeT`.
-/

namespace Gitgres

/-- A byte string. -/
abbrev Bytes := List UInt8

/-- The UTF-8 bytes of a string, as a C `char *` holds them. -/
def utf8 (s : String) : Bytes := s.toUTF8.data.toList

/-- `nibble_to_hex`: the lowercase hex digit of the low four bits of `n`. -/
def nibbleToHex (n : Nat) : Char := "0123456789abcdef".toList.getD (n % 16) '0'

/-- The lowercase hex text of a byte string, two digits a byte, high nibble first. -/
def hexEncode (b : Bytes) : String :=
  ⟨b.flatMap fun x => [nibbleToHex (x.toNat / 16), nibbleToHex x.toNat]⟩

/-- The server's text output of a `bytea` value: `\x` followed by its hex digits. -/
def byteaTextOut (b : Bytes) : String := "\\x" ++ hexEncode b

/-- The hex digits of a byte string, as numbers below 16, high nibble first. -/
def nibbles (b : Bytes) : List Nat := b.flatMap fun x => [x.toNat / 16, x.toNat % 16]

/-- A `git_oid`: the 20 bytes of a SHA-1 object id. -/
@[ext]
structure Oid where
  id : Bytes
  length_id : id.length = 20
  deriving DecidableEq

/-- `git_oid_fromraw`: the OID whose bytes are the first 20 bytes at `raw`. -/
def Oid.fromraw (raw : Bytes) : Oid :=
  ⟨(raw ++ List.replicate 20 0).take 20, by simp⟩

/-- The all-zero OID. -/
def Oid.zero : Oid := ⟨List.replicate 20 0, by simp⟩

/-- `git_oid_is_zero`. -/
def Oid.isZero (o : Oid) : Bool := o.id.all (· == 0)

/-- The OID with all 20 bytes equal to `b`. -/
def Oid.ofByte (b : UInt8) : Oid := ⟨List.replicate 20 b, by simp⟩

/-- The C value of type `int16_t` with the bits of `n`. -/
def toInt16 (n : Int) : Int := (n + 2 ^ 15) % 2 ^ 16 - 2 ^ 15

/-- The C value of type `int32_t` with the bits of `n`. -/
def toInt32 (n : Int) : Int := (n + 2 ^ 31) % 2 ^ 32 - 2 ^ 31

/-- The cast `(size_t)v` of an `int32_t` to a 64-bit `size_t`. -/
def sizeT (v : Int) : Nat := (v % 2 ^ 64).toNat

theorem Oid.fromraw_id {raw : Bytes} (h : raw.length = 20) :
  (Oid.fromraw raw).id = raw
  := by
  simp [Oid.fromraw, List.take_append_of_le_length (le_of_eq h.symm), ← h]

theorem Oid.fromraw_self (o : Oid) :
  Oid.fromraw o.id = o
  := by
  exact Oid.ext (Oid.fromraw_id o.length_id)

theorem toInt32_of_lt {n : Int} (h0 : 0 ≤ n) (h : n < 2 ^ 31) :
  toInt32 n = n
  := by
  unfold toInt32
  rw [Int.emod_eq_of_lt (by omega) (by omega)]
  omega

theorem sizeT_of_nonneg {v : Int} (h0 : 0 ≤ v) (h : v < 2 ^ 64) :
  sizeT v = v.toNat
  := by
  rw [sizeT, Int.emod_eq_of_lt h0 h]

theorem toUInt8_toNat (x : UInt8) :
  x.toNat.toUInt8 = x
  := by
  apply UInt8.eq_of_toBitVec_eq
  apply BitVec.eq_of_toNat_eq
  exact UInt8.toBitVec_eq_of_lt x.toNat_lt

@[simp]
theorem utf8_append (s t : String) :
  utf8 (s ++ t) = utf8 s ++ utf8 t
  := List.flatMap_append ..

/-- A character takes at most four bytes. -/
theorem length_utf8_le (s : String) :
  (utf8 s).length ≤ 4 * s.length
  := by
  obtain ⟨cs⟩ := s
  induction cs with
  | nil => exact Nat.zero_le _
  | cons c cs ih =>
    have hc := String.length_utf8EncodeChar c ▸ c.utf8Size_le_four
    show (String.utf8EncodeChar c ++ utf8 ⟨cs⟩).length ≤ 4 * (cs.length + 1)
    have ih : (utf8 ⟨cs⟩).length ≤ 4 * cs.length := ih
    rw [List.length_append]
    omega

theorem utf8Size_nibbleToHex (n : Nat) :
  (nibbleToHex n).utf8Size = 1
  := by
  have hdigits : ∀ k : Fin 16, ("0123456789abcdef".toList.getD k '0').utf8Size = 1 := by decide
  exact hdigits ⟨n % 16, Nat.mod_lt _ (by decide)⟩

/-- Every character of `hexEncode b` is a lowercase hex digit. -/
theorem mem_hexEncode {b : Bytes} {c : Char} (h : c ∈ (hexEncode b).data) :
  c ∈ "0123456789abcdef".toList
  := by
  have hdigits : ∀ k : Fin 16,
      "0123456789abcdef".toList.getD k '0' ∈ "0123456789abcdef".toList := by decide
  simp only [hexEncode, List.mem_flatMap, List.mem_cons, List.mem_singleton, List.not_mem_nil,
    or_false] at h
  obtain ⟨x, -, rfl | rfl⟩ := h <;> exact hdigits ⟨_, Nat.mod_lt _ (by decide)⟩

theorem utf8ByteSize_byteaTextOut (b : Bytes) :
  (byteaTextOut b).utf8ByteSize = 2 + 2 * b.length
  := by
  have h : ∀ b : Bytes, String.utf8Len (hexEncode b).data = 2 * b.length := by
    intro b
    induction b with
    | nil => rfl
    | cons x b ih =>
      simp only [hexEncode, List.flatMap_cons, String.utf8Len_append, String.utf8Len_cons,
        String.utf8Len_nil, utf8Size_nibbleToHex, List.length_cons] at ih ⊢
      omega
  show String.utf8Len (['\\', 'x'] ++ (hexEncode b).data) = _
  simp only [String.utf8Len_append, h]
  rfl

theorem length_hexEncode (b : Bytes) :
  (hexEncode b).length = 2 * b.length
  := by
  induction b with
  | nil => rfl
  | cons x b ih =>
    simp only [hexEncode, String.length, List.flatMap_cons, List.length_append] at ih ⊢
    simp only [List.length_cons, List.length_nil] at ih ⊢
    omega

/-- A scan while `p` holds, over a prefix where it holds, stops at the first `b` where it fails. -/
theorem dropWhile_append_of_stop {α : Type} {p : α → Bool} {l : List α} {b : α}
    (h : ∀ a ∈ l, p a) (hb : p b = false) (rest : List α) :
  (l ++ b :: rest).dropWhile p = b :: rest
  := by
  rw [List.dropWhile_append_of_pos h, List.dropWhile_cons_of_neg (by simp [hb])]

theorem takeWhile_append_of_stop {α : Type} {p : α → Bool} {l : List α} {b : α}
    (h : ∀ a ∈ l, p a) (hb : p b = false) (rest : List α) :
  (l ++ b :: rest).takeWhile p = l
  := by
  rw [List.takeWhile_append_of_pos h, List.takeWhile_cons_of_neg (by simp [hb]), List.append_nil]

theorem dropWhile_ne_append {α : Type} [DecidableEq α] {b : α} {l : List α} (h : b ∉ l)
    (rest : List α) :
  (l ++ b :: rest).dropWhile (· ≠ b) = b :: rest
  := @dropWhile_append_of_stop _ (· ≠ b) l b
    (fun a ha => decide_eq_true fun hab : a = b => h (hab ▸ ha)) (by simp) rest

theorem takeWhile_ne_append {α : Type} [DecidableEq α] {b : α} {l : List α} (h : b ∉ l)
    (rest : List α) :
  (l ++ b :: rest).takeWhile (· ≠ b) = l
  := @takeWhile_append_of_stop _ (· ≠ b) l b
    (fun a ha => decide_eq_true fun hab : a = b => h (hab ▸ ha)) (by simp) rest

end Gitgres
