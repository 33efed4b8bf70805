import Gitgres.Bytes

/-!
# Text from bytes

`convert_from(b, 'UTF8')` on a server whose encoding is UTF-8 checks `b` with
`pg_verify_mbstr` and returns the same bytes as `text`.  The check is PostgreSQL's
`pg_utf8_verifystr`: a NUL byte is refused, and every other character must be a sequence
that `pg_utf_mblen` gives a length to and `pg_utf8_islegal` accepts, which are the
sequences of RFC 3629: no overlong form, no surrogate, nothing above U+10FFFF.  A text value
is kept as its bytes.
-/

namespace Gitgres

/-- `pg_utf_mblen`: the length of the character a byte starts, read from its high bits. -/
def pgUtfMblen (c : UInt8) : Nat :=
  if c &&& 0x80 = 0 then 1
  else if c &&& 0xe0 = 0xc0 then 2
  else if c &&& 0xf0 = 0xe0 then 3
  else if c &&& 0xf8 = 0xf0 then 4
  else 1

/-- A continuation byte, `0x80` to `0xBF`. -/
def isContinuation (a : UInt8) : Bool := 0x80 ≤ a && a ≤ 0xBF

/-- The test of `pg_utf8_islegal` on the second byte, which depends on the first. -/
def utf8SecondOk (lead a : UInt8) : Bool :=
  if lead = 0xE0 then 0xA0 ≤ a && a ≤ 0xBF
  else if lead = 0xED then 0x80 ≤ a && a ≤ 0x9F
  else if lead = 0xF0 then 0x90 ≤ a && a ≤ 0xBF
  else if lead = 0xF4 then 0x80 ≤ a && a ≤ 0x8F
  else isContinuation a

/-- The test of `pg_utf8_islegal` on the first byte. -/
def utf8LeadOk (a : UInt8) : Bool := !(0x80 ≤ a && a < 0xC2) && !(0xF4 < a)

/-- `pg_utf8_islegal`: the tests of the `switch` on the length, each case falling through to
the one below it. -/
def pgUtf8Islegal : Bytes → Bool
  | [a] => utf8LeadOk a
  | [a, b] => utf8SecondOk a b && utf8LeadOk a
  | [a, b, c] => isContinuation c && utf8SecondOk a b && utf8LeadOk a
  | [a, b, c, d] => isContinuation d && isContinuation c && utf8SecondOk a b && utf8LeadOk a
  | _ => false

/-- `pg_utf8_verifystr` over the whole string: an ASCII byte other than NUL, or a character of
`pg_utf_mblen` bytes, all present, that `pg_utf8_islegal` accepts, then the rest. -/
def pgUtf8Verify : Bytes → Bool
  | [] => true
  | a :: rest =>
    if a < 0x80 then a ≠ 0 && pgUtf8Verify rest
    else match pgUtfMblen a, rest with
      | 1, rest => pgUtf8Islegal [a] && pgUtf8Verify rest
      | 2, b :: rest => pgUtf8Islegal [a, b] && pgUtf8Verify rest
      | 3, b :: c :: rest => pgUtf8Islegal [a, b, c] && pgUtf8Verify rest
      | 4, b :: c :: d :: rest => pgUtf8Islegal [a, b, c, d] && pgUtf8Verify rest
      | _, _ => false

/-- The error `pg_verify_mbstr` reports, without the bytes it quotes. -/
def invalidUtf8 : String := "invalid byte sequence for encoding \"UTF8\""

/-- `convert_from(b, 'UTF8')` on a UTF-8 server: the bytes, once they pass the check. -/
def convertFrom (b : Bytes) : Except String Bytes :=
  if pgUtf8Verify b then .ok b else .error invalidUtf8

/-- The code point of a character from its first byte and the bytes after it, the low bits of
each put together as PostgreSQL's `utf8_to_unicode` does. -/
def utf8CodePoint (a : UInt8) : Bytes → Nat
  | [b] => a.toNat % 32 * 64 + b.toNat % 64
  | [b, c] => a.toNat % 16 * 4096 + b.toNat % 64 * 64 + c.toNat % 64
  | [b, c, d] => a.toNat % 8 * 262144 + b.toNat % 64 * 4096 + c.toNat % 64 * 64 + d.toNat % 64
  | _ => a.toNat

/-- The characters of text that passed the check, read as PostgreSQL walks it: each character
takes the number of bytes `pg_utf_mblen` gives its first byte; at most `fuel` of them. -/
def utf8Chars : Nat → Bytes → List Char
  | 0, _ => []
  | _ + 1, [] => []
  | fuel + 1, a :: rest =>
    Char.ofNat (utf8CodePoint a (rest.take (pgUtfMblen a - 1))) ::
      utf8Chars fuel (rest.drop (pgUtfMblen a - 1))

/-- The text `convert_from` returns, as the characters PostgreSQL reads from its bytes. -/
def textOfBytes (b : Bytes) : String := ⟨utf8Chars b.length b⟩

@[simp]
theorem convertFrom_of_verify {b : Bytes} (h : pgUtf8Verify b = true) :
  convertFrom b = .ok b
  := if_pos h

theorem convertFrom_of_not_verify {b : Bytes} (h : pgUtf8Verify b = false) :
  convertFrom b = .error invalidUtf8
  := if_neg (by simp [h])

theorem convertFrom_error {b : Bytes} {msg : String} (h : convertFrom b = .error msg) :
  msg = invalidUtf8
  := by
  unfold convertFrom at h
  split at h <;> cases h
  rfl

/-! ### Text holds no NUL -/

/-- An ASCII byte starts a character of one byte. -/
theorem pgUtfMblen_of_lt {a : UInt8} (ha : a < 0x80) :
  pgUtfMblen a = 1
  := by
  have hlt : a.toNat < 2 ^ 7 := ha
  have h : a &&& 0x80 = 0 := UInt8.eq_of_val_eq <| Fin.eq_of_val_eq <| Nat.eq_of_testBit_eq fun i => by
    show (a.toNat &&& 2 ^ 7).testBit i = Nat.testBit 0 i
    rw [Nat.testBit_and, Nat.testBit_two_pow, Nat.zero_testBit]
    by_cases hi : 7 = i
    · simp [← hi, Nat.testBit_lt_two_pow hlt]
    · simp [hi]
  simp [pgUtfMblen, h]

theorem isContinuation_ne_zero {a : UInt8} (h : isContinuation a = true) :
  a ≠ 0
  := by
  rintro rfl
  simp [isContinuation] at h

theorem utf8SecondOk_ne_zero {lead a : UInt8} (h : utf8SecondOk lead a = true) :
  a ≠ 0
  := by
  rintro rfl
  unfold utf8SecondOk isContinuation at h
  split_ifs at h <;> simp at h

/-- A byte of `0x80` or more is not NUL. -/
theorem zero_ne_of_not_lt {a : UInt8} (h : ¬a < 0x80) :
  (0 : UInt8) ≠ a
  := fun h0 => h (h0 ▸ by decide)

/-- Bytes that pass the check hold no NUL: the ASCII test refuses it, and every later byte of a
longer character is at least `0x80`. -/
theorem zero_not_mem_of_pgUtf8Verify {b : Bytes} (h : pgUtf8Verify b = true) :
  (0 : UInt8) ∉ b
  := by
  induction b using pgUtf8Verify.induct with
  | case1 => exact List.not_mem_nil 0
  | case2 a rest ha ih =>
    rw [pgUtf8Verify.eq_2 a rest (pgUtfMblen_of_lt ha), if_pos ha, Bool.and_eq_true,
      decide_eq_true_eq] at h
    exact List.not_mem_cons_of_ne_of_not_mem (Ne.symm h.1) (ih h.2)
  | case3 a ha rest hl ih =>
    rw [pgUtf8Verify.eq_2 a rest hl, if_neg ha, Bool.and_eq_true] at h
    exact List.not_mem_cons_of_ne_of_not_mem (zero_ne_of_not_lt ha) (ih h.2)
  | case4 a ha b rest hl ih =>
    rw [pgUtf8Verify.eq_3 a b rest hl, if_neg ha] at h
    simp only [pgUtf8Islegal, Bool.and_eq_true] at h
    exact List.not_mem_cons_of_ne_of_not_mem (zero_ne_of_not_lt ha) <|
      List.not_mem_cons_of_ne_of_not_mem (utf8SecondOk_ne_zero h.1.1).symm (ih h.2)
  | case5 a ha b c rest hl ih =>
    rw [pgUtf8Verify.eq_4 a b c rest hl, if_neg ha] at h
    simp only [pgUtf8Islegal, Bool.and_eq_true] at h
    exact List.not_mem_cons_of_ne_of_not_mem (zero_ne_of_not_lt ha) <|
      List.not_mem_cons_of_ne_of_not_mem (utf8SecondOk_ne_zero h.1.1.2).symm <|
      List.not_mem_cons_of_ne_of_not_mem (isContinuation_ne_zero h.1.1.1).symm (ih h.2)
  | case6 a ha b c d rest hl ih =>
    rw [pgUtf8Verify.eq_5 a b c d rest hl, if_neg ha] at h
    simp only [pgUtf8Islegal, Bool.and_eq_true] at h
    exact List.not_mem_cons_of_ne_of_not_mem (zero_ne_of_not_lt ha) <|
      List.not_mem_cons_of_ne_of_not_mem (utf8SecondOk_ne_zero h.1.1.2).symm <|
      List.not_mem_cons_of_ne_of_not_mem (isContinuation_ne_zero h.1.1.1.2).symm <|
      List.not_mem_cons_of_ne_of_not_mem (isContinuation_ne_zero h.1.1.1.1).symm (ih h.2)
  | case7 a rest ha h1 h2 h3 h4 =>
    rw [pgUtf8Verify.eq_6 a rest h1 h2 h3 h4, if_neg ha] at h
    exact absurd h Bool.false_ne_true

/-! ### The bytes of a string

`String.utf8EncodeChar` writes a character of code point `n` as one byte below `0x80`, or as a
first byte `0xC0 + n / 64`, `0xE0 + n / 4096` or `0xF0 + n / 262144` followed by one, two or
three bytes `0x80 + ...` holding six bits each.  Those bytes pass `pg_utf8_verifystr` unless the
character is NUL, and reading them back by `pg_utf_mblen` gives the character: on the bytes of a
string, `convert_from` fails exactly when the string holds a NUL, and otherwise returns the
string (`convertFrom_utf8`, `convertFrom_utf8_of_mem`, `textOfBytes_utf8`).
-/

theorem UInt8.toNat_or (a b : UInt8) :
  (a ||| b).toNat = a.toNat ||| b.toNat
  := BitVec.toNat_or ..

theorem UInt8.lt_iff_toNat_lt {a b : UInt8} :
  a < b ↔ a.toNat < b.toNat
  := UInt8.lt_def.trans BitVec.lt_def

theorem UInt8.le_iff_toNat_le {a b : UInt8} :
  a ≤ b ↔ a.toNat ≤ b.toNat
  := UInt8.le_def.trans BitVec.le_def

theorem UInt32.le_iff_toNat_le {a b : UInt32} :
  a ≤ b ↔ a.toNat ≤ b.toNat
  := UInt32.le_def.trans BitVec.le_def

theorem UInt32.toNat_shiftRight (v n : UInt32) (hn : n.toNat < 32) :
  (v >>> n).toNat = v.toNat / 2 ^ n.toNat
  := by
  have h32 : (UInt32.mod n 32).toBitVec.toNat = n.toNat := by
    show (n.toBitVec % (32 : UInt32).toBitVec).toNat = n.toNat
    rw [BitVec.toNat_umod]
    exact Nat.mod_eq_of_lt hn
  show (v.toBitVec >>> (UInt32.mod n 32).toBitVec.toNat).toNat = _
  rw [BitVec.toNat_ushiftRight, Nat.shiftRight_eq_div_pow, h32]
  rfl

theorem UInt32.toNat_toUInt8_shiftRight (v n : UInt32) (hn : n.toNat < 32) :
  (v >>> n).toUInt8.toNat = v.toNat / 2 ^ n.toNat % 256
  := by rw [UInt32.toUInt8_toNat, UInt32.toNat_shiftRight v n hn]

/-- A byte of the encoder: the low `m` bits of `t` under the marker bits `H`. -/
theorem UInt8.toNat_and_or (t M H : UInt8) (m a : Nat) (hM : M.toNat = 2 ^ m - 1)
    (hH : H.toNat = 2 ^ m * a) :
  (t &&& M ||| H).toNat = 2 ^ m * a + t.toNat % 2 ^ m
  := by
  rw [UInt8.toNat_or, UInt8.and_toNat, hM, hH, Nat.and_pow_two_sub_one_eq_mod, Nat.or_comm,
    Nat.mul_add_lt_is_or (Nat.mod_lt _ (Nat.two_pow_pos m))]

/-- A character is a scalar value: below `0x110000` and not a surrogate. -/
theorem Char.toNat_valid (c : Char) :
  c.toNat < 0xD800 ∨ (0xDFFF < c.toNat ∧ c.toNat < 0x110000)
  := c.valid

theorem Char.eq_zero_iff_toNat {c : Char} :
  c = '\x00' ↔ c.toNat = 0
  := ⟨fun h => h ▸ rfl, fun h => by rw [← Char.ofNat_toNat c, h]⟩

theorem Char.ofNat_eq {c : Char} {n : Nat} (h : n = c.toNat) :
  Char.ofNat n = c
  := by rw [h, Char.ofNat_toNat]

theorem utf8EncodeChar_one {c : Char} (h : c.toNat < 128) :
  ∃ a : UInt8, String.utf8EncodeChar c = [a] ∧ a.toNat = c.toNat
  := by
  simp only [String.utf8EncodeChar]
  rw [if_pos (by rw [UInt32.le_iff_toNat_le]; show c.toNat ≤ 127; omega)]
  refine ⟨_, rfl, ?_⟩
  rw [UInt32.toUInt8_toNat]
  show c.toNat % 256 = c.toNat
  omega

theorem utf8EncodeChar_two {c : Char} (h1 : 128 ≤ c.toNat) (h2 : c.toNat < 2048) :
  ∃ a b : UInt8, String.utf8EncodeChar c = [a, b] ∧ a.toNat = 192 + c.toNat / 64 ∧
    b.toNat = 128 + c.toNat % 64
  := by
  simp only [String.utf8EncodeChar]
  rw [if_neg (by rw [UInt32.le_iff_toNat_le]; show ¬c.toNat ≤ 127; omega),
    if_pos (by rw [UInt32.le_iff_toNat_le]; show c.toNat ≤ 2047; omega)]
  refine ⟨_, _, rfl, ?_, ?_⟩
  · rw [UInt8.toNat_and_or _ 31 192 5 6 rfl rfl, UInt32.toNat_toUInt8_shiftRight _ 6 (by decide)]
    show 32 * 6 + c.toNat / 64 % 256 % 32 = _
    omega
  · rw [UInt8.toNat_and_or _ 63 128 6 2 rfl rfl, UInt32.toUInt8_toNat]
    show 64 * 2 + c.toNat % 256 % 64 = _
    omega

theorem utf8EncodeChar_three {c : Char} (h1 : 2048 ≤ c.toNat) (h2 : c.toNat < 65536) :
  ∃ a b d : UInt8, String.utf8EncodeChar c = [a, b, d] ∧ a.toNat = 224 + c.toNat / 4096 ∧
    b.toNat = 128 + c.toNat / 64 % 64 ∧ d.toNat = 128 + c.toNat % 64
  := by
  simp only [String.utf8EncodeChar]
  rw [if_neg (by rw [UInt32.le_iff_toNat_le]; show ¬c.toNat ≤ 127; omega),
    if_neg (by rw [UInt32.le_iff_toNat_le]; show ¬c.toNat ≤ 2047; omega),
    if_pos (by rw [UInt32.le_iff_toNat_le]; show c.toNat ≤ 65535; omega)]
  refine ⟨_, _, _, rfl, ?_, ?_, ?_⟩
  · rw [UInt8.toNat_and_or _ 15 224 4 14 rfl rfl, UInt32.toNat_toUInt8_shiftRight _ 12 (by decide)]
    show 16 * 14 + c.toNat / 4096 % 256 % 16 = _
    omega
  · rw [UInt8.toNat_and_or _ 63 128 6 2 rfl rfl, UInt32.toNat_toUInt8_shiftRight _ 6 (by decide)]
    show 64 * 2 + c.toNat / 64 % 256 % 64 = _
    omega
  · rw [UInt8.toNat_and_or _ 63 128 6 2 rfl rfl, UInt32.toUInt8_toNat]
    show 64 * 2 + c.toNat % 256 % 64 = _
    omega

theorem utf8EncodeChar_four {c : Char} (h1 : 65536 ≤ c.toNat) :
  ∃ a b d e : UInt8, String.utf8EncodeChar c = [a, b, d, e] ∧ a.toNat = 240 + c.toNat / 262144 ∧
    b.toNat = 128 + c.toNat / 4096 % 64 ∧ d.toNat = 128 + c.toNat / 64 % 64 ∧
    e.toNat = 128 + c.toNat % 64
  := by
  have h2 := Char.toNat_valid c
  simp only [String.utf8EncodeChar]
  rw [if_neg (by rw [UInt32.le_iff_toNat_le]; show ¬c.toNat ≤ 127; omega),
    if_neg (by rw [UInt32.le_iff_toNat_le]; show ¬c.toNat ≤ 2047; omega),
    if_neg (by rw [UInt32.le_iff_toNat_le]; show ¬c.toNat ≤ 65535; omega)]
  refine ⟨_, _, _, _, rfl, ?_, ?_, ?_, ?_⟩
  · rw [UInt8.toNat_and_or _ 7 240 3 30 rfl rfl, UInt32.toNat_toUInt8_shiftRight _ 18 (by decide)]
    show 8 * 30 + c.toNat / 262144 % 256 % 8 = _
    omega
  · rw [UInt8.toNat_and_or _ 63 128 6 2 rfl rfl, UInt32.toNat_toUInt8_shiftRight _ 12 (by decide)]
    show 64 * 2 + c.toNat / 4096 % 256 % 64 = _
    omega
  · rw [UInt8.toNat_and_or _ 63 128 6 2 rfl rfl, UInt32.toNat_toUInt8_shiftRight _ 6 (by decide)]
    show 64 * 2 + c.toNat / 64 % 256 % 64 = _
    omega
  · rw [UInt8.toNat_and_or _ 63 128 6 2 rfl rfl, UInt32.toUInt8_toNat]
    show 64 * 2 + c.toNat % 256 % 64 = _
    omega

/-- The length `pg_utf_mblen` gives a first byte from `0xC0` to `0xF7`. -/
theorem pgUtfMblen_lead {a : UInt8} (h1 : 192 ≤ a.toNat) (h2 : a.toNat < 248) :
  pgUtfMblen a = if a.toNat < 224 then 2 else if a.toNat < 240 then 3 else 4
  := by
  have key : ∀ q < 56, pgUtfMblen (192 + q).toUInt8 =
      if 192 + q < 224 then 2 else if 192 + q < 240 then 3 else 4 := by decide
  have h := key (a.toNat - 192) (by omega)
  rwa [show 192 + (a.toNat - 192) = a.toNat by omega, toUInt8_toNat] at h

theorem isContinuation_iff (a : UInt8) :
  isContinuation a = true ↔ 128 ≤ a.toNat ∧ a.toNat ≤ 191
  := by
  simp only [isContinuation, Bool.and_eq_true, decide_eq_true_eq, UInt8.le_iff_toNat_le]
  rfl

theorem utf8LeadOk_iff (a : UInt8) :
  utf8LeadOk a = true ↔ (a.toNat < 128 ∨ 194 ≤ a.toNat) ∧ a.toNat ≤ 244
  := by simp [utf8LeadOk, UInt8.le_iff_toNat_le, UInt8.lt_iff_toNat_lt, UInt8.size]

theorem utf8SecondOk_of {lead a : UInt8}
    (h : (lead.toNat = 224 → 160 ≤ a.toNat) ∧ (lead.toNat = 237 → a.toNat ≤ 159) ∧
      (lead.toNat = 240 → 144 ≤ a.toNat) ∧ (lead.toNat = 244 → a.toNat ≤ 143))
    (ha : 128 ≤ a.toNat ∧ a.toNat ≤ 191) :
  utf8SecondOk lead a = true
  := by
  unfold utf8SecondOk isContinuation
  split_ifs <;> simp_all [UInt8.ext_iff, UInt8.le_iff_toNat_le, UInt8.size]

theorem not_lt_0x80 {a : UInt8} (h : 128 ≤ a.toNat) :
  ¬a < 0x80
  := fun hlt => absurd (UInt8.lt_iff_toNat_lt.mp hlt) (Nat.not_lt.mpr h)

/-- The six bits a continuation byte `0x80 + x % 64` holds. -/
theorem continuation_mod_64 (x : Nat) :
  (128 + x % 64) % 64 = x % 64
  := by omega

theorem utf8EncodeChar_append_one {c : Char} (h : c.toNat < 128) (rest : Bytes) (fuel : Nat) :
  pgUtf8Verify (String.utf8EncodeChar c ++ rest) = (decide (c ≠ '\x00') && pgUtf8Verify rest) ∧
    utf8Chars (fuel + 1) (String.utf8EncodeChar c ++ rest) = c :: utf8Chars fuel rest
  := by
  obtain ⟨a, he, ha⟩ := utf8EncodeChar_one h
  have hlt : a < 0x80 := UInt8.lt_iff_toNat_lt.mpr (by rw [ha]; exact h)
  have hl := pgUtfMblen_of_lt hlt
  rw [he, List.singleton_append, pgUtf8Verify.eq_2 a rest hl, if_pos hlt, utf8Chars, hl]
  refine ⟨congrArg (· && _) (decide_eq_decide.mpr ?_), by simp [utf8CodePoint, Char.ofNat_eq ha]⟩
  rw [Ne, Ne, Char.eq_zero_iff_toNat, UInt8.ext_iff, ha]
  rfl

theorem utf8EncodeChar_append_two {c : Char} (h1 : 128 ≤ c.toNat) (h2 : c.toNat < 2048)
    (rest : Bytes) (fuel : Nat) :
  pgUtf8Verify (String.utf8EncodeChar c ++ rest) = pgUtf8Verify rest ∧
    utf8Chars (fuel + 1) (String.utf8EncodeChar c ++ rest) = c :: utf8Chars fuel rest
  := by
  obtain ⟨a, b, he, ha, hb⟩ := utf8EncodeChar_two h1 h2
  have hl : pgUtfMblen a = 2 := by rw [pgUtfMblen_lead (by omega) (by omega), if_pos (by omega)]
  have hlt : ¬a < 0x80 := not_lt_0x80 (by omega)
  have hlegal : pgUtf8Islegal [a, b] = true := by
    show (utf8SecondOk a b && utf8LeadOk a) = true
    rw [Bool.and_eq_true, utf8LeadOk_iff]
    exact ⟨utf8SecondOk_of (by omega) (by omega), by omega⟩
  rw [he, List.cons_append, List.singleton_append, pgUtf8Verify.eq_3 a b rest hl, if_neg hlt,
    hlegal, Bool.true_and, utf8Chars, hl]
  refine ⟨rfl, ?_⟩
  simp only [Nat.add_one_sub_one, List.take_succ_cons, List.take_zero, List.drop_succ_cons,
    List.drop_zero, utf8CodePoint, ha, hb, continuation_mod_64]
  exact congrArg (· :: _) (Char.ofNat_eq (by omega))

theorem utf8EncodeChar_append_three {c : Char} (h1 : 2048 ≤ c.toNat) (h2 : c.toNat < 65536)
    (rest : Bytes) (fuel : Nat) :
  pgUtf8Verify (String.utf8EncodeChar c ++ rest) = pgUtf8Verify rest ∧
    utf8Chars (fuel + 1) (String.utf8EncodeChar c ++ rest) = c :: utf8Chars fuel rest
  := by
  have hv := Char.toNat_valid c
  obtain ⟨a, b, d, he, ha, hb, hd⟩ := utf8EncodeChar_three h1 h2
  have hl : pgUtfMblen a = 3 := by
    rw [pgUtfMblen_lead (by omega) (by omega), if_neg (by omega), if_pos (by omega)]
  have hlt : ¬a < 0x80 := not_lt_0x80 (by omega)
  have hlegal : pgUtf8Islegal [a, b, d] = true := by
    show (isContinuation d && utf8SecondOk a b && utf8LeadOk a) = true
    rw [Bool.and_eq_true, Bool.and_eq_true, utf8LeadOk_iff, isContinuation_iff]
    exact ⟨⟨by omega, utf8SecondOk_of (by omega) (by omega)⟩, by omega⟩
  rw [he, List.cons_append, List.cons_append, List.singleton_append,
    pgUtf8Verify.eq_4 a b d rest hl, if_neg hlt, hlegal, Bool.true_and, utf8Chars, hl]
  refine ⟨rfl, ?_⟩
  simp only [Nat.add_one_sub_one, List.take_succ_cons, List.take_zero, List.drop_succ_cons,
    List.drop_zero, utf8CodePoint, ha, hb, hd, continuation_mod_64,
    show (224 + c.toNat / 4096) % 16 = c.toNat / 4096 by omega]
  exact congrArg (· :: _) (Char.ofNat_eq (by omega))

theorem utf8EncodeChar_append_four {c : Char} (h1 : 65536 ≤ c.toNat) (rest : Bytes) (fuel : Nat) :
  pgUtf8Verify (String.utf8EncodeChar c ++ rest) = pgUtf8Verify rest ∧
    utf8Chars (fuel + 1) (String.utf8EncodeChar c ++ rest) = c :: utf8Chars fuel rest
  := by
  have hv := Char.toNat_valid c
  obtain ⟨a, b, d, e, he, ha, hb, hd, he'⟩ := utf8EncodeChar_four h1
  have hl : pgUtfMblen a = 4 := by
    rw [pgUtfMblen_lead (by omega) (by omega), if_neg (by omega), if_neg (by omega)]
  have hlt : ¬a < 0x80 := not_lt_0x80 (by omega)
  have hlegal : pgUtf8Islegal [a, b, d, e] = true := by
    show (isContinuation e && isContinuation d && utf8SecondOk a b && utf8LeadOk a) = true
    rw [Bool.and_eq_true, Bool.and_eq_true, Bool.and_eq_true, utf8LeadOk_iff, isContinuation_iff,
      isContinuation_iff]
    exact ⟨⟨⟨by omega, by omega⟩, utf8SecondOk_of (by omega) (by omega)⟩, by omega⟩
  rw [he, List.cons_append, List.cons_append, List.cons_append, List.singleton_append,
    pgUtf8Verify.eq_5 a b d e rest hl, if_neg hlt, hlegal, Bool.true_and, utf8Chars, hl]
  refine ⟨rfl, ?_⟩
  simp only [Nat.add_one_sub_one, List.take_succ_cons, List.take_zero, List.drop_succ_cons,
    List.drop_zero, utf8CodePoint, ha, hb, hd, he', continuation_mod_64,
    show (240 + c.toNat / 262144) % 8 = c.toNat / 262144 by omega]
  exact congrArg (· :: _) (Char.ofNat_eq (by omega))

/-- One character of a string: `pg_utf8_verifystr` passes its bytes unless it is NUL, and reading
them back gives the character. -/
theorem utf8EncodeChar_append (c : Char) (rest : Bytes) (fuel : Nat) :
  pgUtf8Verify (String.utf8EncodeChar c ++ rest) = (decide (c ≠ '\x00') && pgUtf8Verify rest) ∧
    utf8Chars (fuel + 1) (String.utf8EncodeChar c ++ rest) = c :: utf8Chars fuel rest
  := by
  by_cases h1 : c.toNat < 128
  · exact utf8EncodeChar_append_one h1 rest fuel
  have hnz : decide (c ≠ '\x00') = true := decide_eq_true fun h => by
    rw [Char.eq_zero_iff_toNat] at h; omega
  rw [hnz, Bool.true_and]
  by_cases h2 : c.toNat < 2048
  · exact utf8EncodeChar_append_two (by omega) h2 rest fuel
  by_cases h3 : c.toNat < 65536
  · exact utf8EncodeChar_append_three (by omega) h3 rest fuel
  · exact utf8EncodeChar_append_four (by omega) rest fuel

theorem pgUtf8Verify_flatMap (l : List Char) :
  pgUtf8Verify (l.flatMap String.utf8EncodeChar) = decide ('\x00' ∉ l)
  := by
  induction l with
  | nil => rfl
  | cons c l ih =>
    rw [List.flatMap_cons, (utf8EncodeChar_append c _ 0).1, ih]
    by_cases hc : c = '\x00' <;> simp [hc, eq_comm]

theorem utf8Chars_flatMap (l : List Char) (fuel : Nat) (h : l.length ≤ fuel) :
  utf8Chars fuel (l.flatMap String.utf8EncodeChar) = l
  := by
  induction l generalizing fuel with
  | nil => cases fuel <;> rfl
  | cons c l ih =>
    obtain ⟨k, rfl⟩ : ∃ k, fuel = k + 1 := ⟨fuel - 1, by simp at h; omega⟩
    rw [List.flatMap_cons, (utf8EncodeChar_append c _ k).2, ih k (by simp at h; omega)]

theorem length_le_length_utf8 (s : String) :
  s.data.length ≤ (utf8 s).length
  := by
  show s.data.length ≤ (s.data.flatMap String.utf8EncodeChar).length
  induction s.data with
  | nil => simp
  | cons c l ih =>
    rw [List.flatMap_cons, List.length_append, String.length_utf8EncodeChar, List.length_cons]
    have := Char.utf8Size_pos c
    omega

/-- Reading the bytes of a string gives the string back. -/
theorem textOfBytes_utf8 (s : String) :
  textOfBytes (utf8 s) = s
  := congrArg String.mk (utf8Chars_flatMap s.data _ (length_le_length_utf8 s))

/-- `convert_from` passes the bytes of a string without NUL. -/
theorem convertFrom_utf8 {s : String} (h : '\x00' ∉ s.data) :
  convertFrom (utf8 s) = .ok (utf8 s)
  := convertFrom_of_verify (by rw [utf8, show s.toUTF8.data.toList = s.data.flatMap _ from rfl,
    pgUtf8Verify_flatMap, decide_eq_true_eq]; exact h)

/-- `convert_from` refuses the bytes of a string with a NUL. -/
theorem convertFrom_utf8_of_mem {s : String} (h : '\x00' ∈ s.data) :
  convertFrom (utf8 s) = .error invalidUtf8
  := convertFrom_of_not_verify (by rw [utf8, show s.toUTF8.data.toList = s.data.flatMap _ from rfl,
    pgUtf8Verify_flatMap, decide_eq_false_iff_not, not_not]; exact h)

end Gitgres
