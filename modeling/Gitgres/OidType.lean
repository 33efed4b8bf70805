import Gitgres.Bytes

/-!
# The `git_oid` type of the C extension

`git_oid_in` reads a C string of 40 hex digits, of either case, into the 20 bytes of a `GitOid`,
and `git_oid_out` writes them back as 40 lowercase hex digits.  A C string is the bytes before
its terminating NUL, so `strlen` is its length.  The bytes of a `GitOid` are `char`s: storing
`(hi << 4) | lo` keeps its low eight bits, and `git_oid_out` reads the high nibble through
`(unsigned char)` and the low one with `& 0xf`, which gives the same four bits whether `char` is
signed or not.
-/

namespace Gitgres

/-- `hex_to_nibble`: the value of a hex digit of either case, else `-1`. -/
def hexToNibble (c : UInt8) : Int :=
  if '0'.toNat ≤ c.toNat ∧ c.toNat ≤ '9'.toNat then c.toNat - '0'.toNat
  else if 'a'.toNat ≤ c.toNat ∧ c.toNat ≤ 'f'.toNat then c.toNat - 'a'.toNat + 10
  else if 'A'.toNat ≤ c.toNat ∧ c.toNat ≤ 'F'.toNat then c.toNat - 'A'.toNat + 10
  else -1

/-- The `char` that `nibble_to_hex(n)` returns. -/
def nibbleChar (n : Nat) : UInt8 := (nibbleToHex n).toNat.toUInt8

/-- The loop of `git_oid_in` over the digit pairs: each pair is one byte, high nibble first, and
a character that is not a hex digit raises. -/
def oidInPairs : Bytes → Except String Bytes
  | c :: d :: rest =>
    let hi := hexToNibble c
    let lo := hexToNibble d
    if hi < 0 ∨ lo < 0 then .error "invalid hex character in git OID"
    else (((hi.toNat <<< 4) ||| lo.toNat).toUInt8 :: ·) <$> oidInPairs rest
  | _ => .ok []

/-- `git_oid_in`: the 20 bytes of the value, or the error it raises. -/
def gitOidIn (str : Bytes) : Except String Bytes :=
  if str.length ≠ 40 then .error "invalid git OID: must be exactly 40 hex characters"
  else oidInPairs str

/-- `git_oid_out`: two lowercase hex digits a byte, high nibble first. -/
def gitOidOut (oid : Oid) : Bytes :=
  oid.id.flatMap fun x => [nibbleChar (x.toNat >>> 4), nibbleChar (x.toNat &&& 0xf)]

/-- A hex digit of either case. -/
def IsHexDigit (c : UInt8) : Prop :=
  ('0'.toNat ≤ c.toNat ∧ c.toNat ≤ '9'.toNat) ∨ ('a'.toNat ≤ c.toNat ∧ c.toNat ≤ 'f'.toNat) ∨
    ('A'.toNat ≤ c.toNat ∧ c.toNat ≤ 'F'.toNat)

instance : DecidablePred IsHexDigit := fun _ => inferInstanceAs (Decidable (_ ∨ _ ∨ _))

/-- A lowercase hex digit. -/
def IsLowerHexDigit (c : UInt8) : Prop :=
  ('0'.toNat ≤ c.toNat ∧ c.toNat ≤ '9'.toNat) ∨ ('a'.toNat ≤ c.toNat ∧ c.toNat ≤ 'f'.toNat)

instance : DecidablePred IsLowerHexDigit := fun _ => inferInstanceAs (Decidable (_ ∨ _))

theorem IsLowerHexDigit.isHexDigit {c : UInt8} (h : IsLowerHexDigit c) :
  IsHexDigit c
  := h.elim .inl fun h => .inr (.inl h)

/-- ASCII `tolower`. -/
def lowerByte (c : UInt8) : UInt8 :=
  if 'A'.toNat ≤ c.toNat ∧ c.toNat ≤ 'Z'.toNat then c + 32 else c

/-- A fact of every byte, checked on its two nibbles. -/
theorem UInt8.forall_of_nibbles {P : UInt8 → Prop} (h : ∀ a < 16, ∀ b < 16, P (a * 16 + b).toUInt8)
    (c : UInt8) :
  P c
  := by
  have hlt : c.toNat < 256 := c.toNat_lt
  have hc := h (c.toNat / 16) (by omega) (c.toNat % 16) (by omega)
  rwa [show c.toNat / 16 * 16 + c.toNat % 16 = c.toNat by omega, toUInt8_toNat] at hc

theorem hexToNibble_nonneg_iff (c : UInt8) :
  0 ≤ hexToNibble c ↔ IsHexDigit c
  := @UInt8.forall_of_nibbles (fun c => 0 ≤ hexToNibble c ↔ IsHexDigit c) (by decide) c

theorem hexToNibble_lt (c : UInt8) :
  hexToNibble c < 16
  := @UInt8.forall_of_nibbles (fun c => hexToNibble c < 16) (by decide) c

theorem hexToNibble_nibbleChar {m : Nat} (hm : m < 16) :
  hexToNibble (nibbleChar m) = m
  := by
  have key : ∀ m < 16, hexToNibble (nibbleChar m) = m := by decide
  exact key m hm

theorem nibbleChar_isLowerHexDigit (n : Nat) :
  IsLowerHexDigit (nibbleChar n)
  := by
  have key : ∀ m < 16, IsLowerHexDigit (nibbleChar m) := by decide
  have hn : nibbleChar n = nibbleChar (n % 16) := by simp [nibbleChar, nibbleToHex]
  rw [hn]
  exact key _ (Nat.mod_lt _ (by decide))

/-- The digit `git_oid_out` writes for the value `git_oid_in` read is the digit in lowercase. -/
theorem nibbleChar_hexToNibble {c : UInt8} (hc : IsHexDigit c) :
  nibbleChar (hexToNibble c).toNat = lowerByte c
  := @UInt8.forall_of_nibbles (fun c => IsHexDigit c → nibbleChar (hexToNibble c).toNat = lowerByte c)
    (by decide) c hc

/-- A byte is its two nibbles put back together. -/
theorem join_nibbles (x : UInt8) :
  (((x.toNat >>> 4) <<< 4) ||| (x.toNat &&& 0xf)).toUInt8 = x
  := @UInt8.forall_of_nibbles (fun x => (((x.toNat >>> 4) <<< 4) ||| (x.toNat &&& 0xf)).toUInt8 = x)
    (by decide) x

/-- The nibbles of a byte put together from two nibbles. -/
theorem nibbles_join {hi lo : Nat} (hhi : hi < 16) (hlo : lo < 16) :
  ((hi <<< 4) ||| lo).toUInt8.toNat >>> 4 = hi ∧ ((hi <<< 4) ||| lo).toUInt8.toNat &&& 0xf = lo
  := by
  have key : ∀ hi < 16, ∀ lo < 16,
      ((hi <<< 4) ||| lo).toUInt8.toNat >>> 4 = hi ∧ ((hi <<< 4) ||| lo).toUInt8.toNat &&& 0xf = lo := by
    decide
  exact key hi hhi lo hlo

/-! ### The digit pairs -/

/-- The bytes `git_oid_out` writes for a byte string. -/
def outDigits (xs : Bytes) : Bytes :=
  xs.flatMap fun x => [nibbleChar (x.toNat >>> 4), nibbleChar (x.toNat &&& 0xf)]

@[simp]
theorem outDigits_nil :
  outDigits [] = []
  := rfl

@[simp]
theorem outDigits_cons (x : UInt8) (xs : Bytes) :
  outDigits (x :: xs) = nibbleChar (x.toNat >>> 4) :: nibbleChar (x.toNat &&& 0xf) :: outDigits xs
  := rfl

theorem oidInPairs_cons_cons {c d : UInt8} (hc : IsHexDigit c) (hd : IsHexDigit d) (rest : Bytes) :
  oidInPairs (c :: d :: rest) =
    (((hexToNibble c).toNat <<< 4 ||| (hexToNibble d).toNat).toUInt8 :: ·) <$> oidInPairs rest
  := by
  have hc' := (hexToNibble_nonneg_iff c).2 hc
  have hd' := (hexToNibble_nonneg_iff d).2 hd
  simp only [oidInPairs, if_neg (show ¬(hexToNibble c < 0 ∨ hexToNibble d < 0) by omega)]

/-- The pairs of a digit string `git_oid_out` wrote are read back to its bytes. -/
theorem oidInPairs_outDigits (xs : Bytes) :
  oidInPairs (outDigits xs) = .ok xs
  := by
  induction xs with
  | nil => rfl
  | cons x xs ih =>
    have hhi : x.toNat >>> 4 < 16 := by
      rw [Nat.shiftRight_eq_div_pow]; have := x.toNat_lt; omega
    have hlo : x.toNat &&& 0xf < 16 := Nat.lt_succ_of_le (Nat.and_le_right)
    rw [outDigits_cons, oidInPairs_cons_cons (nibbleChar_isLowerHexDigit _).isHexDigit
      (nibbleChar_isLowerHexDigit _).isHexDigit, ih, hexToNibble_nibbleChar hhi,
      hexToNibble_nibbleChar hlo]
    simp only [Int.toNat_ofNat, join_nibbles]
    rfl

theorem oidInPairs_error {c d : UInt8} (h : ¬(IsHexDigit c ∧ IsHexDigit d)) (rest : Bytes) :
  oidInPairs (c :: d :: rest) = .error "invalid hex character in git OID"
  := by
  rw [← hexToNibble_nonneg_iff, ← hexToNibble_nonneg_iff] at h
  simp only [oidInPairs, if_pos (show hexToNibble c < 0 ∨ hexToNibble d < 0 by omega)]

/-- The digits of one byte read from a pair of hex digits are the pair in lowercase. -/
theorem outDigits_pair {c d : UInt8} (hc : IsHexDigit c) (hd : IsHexDigit d) (w : Bytes) :
  outDigits (((hexToNibble c).toNat <<< 4 ||| (hexToNibble d).toNat).toUInt8 :: w) =
    lowerByte c :: lowerByte d :: outDigits w
  := by
  have hc' := (hexToNibble_nonneg_iff c).2 hc
  have hd' := (hexToNibble_nonneg_iff d).2 hd
  have hj := @nibbles_join (hexToNibble c).toNat (hexToNibble d).toNat
    (by have := hexToNibble_lt c; omega) (by have := hexToNibble_lt d; omega)
  rw [outDigits_cons, hj.1, hj.2, nibbleChar_hexToNibble hc, nibbleChar_hexToNibble hd]

/-- On a string of even length the pairs are read exactly when every character is a hex digit,
and the bytes read are written back as the string in lowercase. -/
theorem oidInPairs_spec :
    ∀ s : Bytes, Even s.length →
  ((∃ v, oidInPairs s = .ok v) ↔ ∀ c ∈ s, IsHexDigit c) ∧
    ∀ v, oidInPairs s = .ok v → v.length * 2 = s.length ∧ outDigits v = s.map lowerByte
  | [], _ => ⟨by simp [oidInPairs], fun v hv => by cases hv; simp⟩
  | [_], h => absurd h (by simp)
  | c :: d :: rest, h => by
    have ih := oidInPairs_spec rest (by simpa [Nat.even_add_one] using h)
    by_cases hcd : IsHexDigit c ∧ IsHexDigit d
    · rw [oidInPairs_cons_cons hcd.1 hcd.2]
      cases hr : oidInPairs rest with
      | error e =>
        have hbad := ih.1.not.1 (by simp [hr])
        refine ⟨⟨fun ⟨v, hv⟩ => by simp [Functor.map, Except.map] at hv,
          fun hall => absurd (fun x hx => hall x (by simp [hx])) hbad⟩, fun v hv => ?_⟩
        simp [Functor.map, Except.map] at hv
      | ok w =>
        have hw := ih.2 w hr
        refine ⟨by simpa [hcd.1, hcd.2, hr] using ih.1.1 ⟨w, hr⟩, fun v hv => ?_⟩
        simp only [Functor.map, Except.map, Except.ok.injEq] at hv
        subst hv
        simp [outDigits_pair hcd.1 hcd.2, hw.2, ← hw.1]
        omega
    · rw [oidInPairs_error hcd]
      refine ⟨⟨fun ⟨_, hv⟩ => Except.noConfusion hv, fun hall => ?_⟩, fun _ hv => Except.noConfusion hv⟩
      exact absurd ⟨hall c (by simp), hall d (by simp)⟩ hcd

theorem length_outDigits (xs : Bytes) :
  (outDigits xs).length = 2 * xs.length
  := by
  induction xs with
  | nil => rfl
  | cons x xs ih => simp [ih]; omega

theorem isLowerHexDigit_of_mem_outDigits {xs : Bytes} {c : UInt8} (h : c ∈ outDigits xs) :
  IsLowerHexDigit c
  := by
  obtain ⟨x, -, hx⟩ := List.mem_flatMap.1 h
  simp only [List.mem_cons, List.mem_singleton, List.not_mem_nil, or_false] at hx
  rcases hx with rfl | rfl <;> exact nibbleChar_isLowerHexDigit _

/-! ### The codec -/

theorem gitOidIn_of_length {s : Bytes} (h : s.length = 40) :
  gitOidIn s = oidInPairs s
  := if_neg (not_not.2 h)

/-- `git_oid_in` accepts exactly the strings of 40 hex digits of either case. -/
theorem gitOidIn_ok_iff (s : Bytes) :
  (∃ v, gitOidIn s = .ok v) ↔ s.length = 40 ∧ ∀ c ∈ s, IsHexDigit c
  := by
  by_cases h : s.length = 40
  · rw [gitOidIn_of_length h, (oidInPairs_spec s (by rw [h]; decide)).1]
    exact (and_iff_right h).symm
  · simp [gitOidIn, h]

/-- `git_oid_out` writes 40 lowercase hex digits, which `git_oid_in` reads back to the value. -/
theorem gitOidOut_spec (o : Oid) :
  (gitOidOut o).length = 40 ∧ (∀ c ∈ gitOidOut o, IsLowerHexDigit c) ∧
    gitOidIn (gitOidOut o) = .ok o.id
  := by
  have hlen : (gitOidOut o).length = 40 := by
    rw [gitOidOut, ← outDigits, length_outDigits, o.length_id]
  exact ⟨hlen, fun _ hc => isLowerHexDigit_of_mem_outDigits hc,
    by rw [gitOidIn_of_length hlen, gitOidOut, ← outDigits, oidInPairs_outDigits]⟩

/-- Writing back what `git_oid_in` read gives the string in lowercase. -/
theorem gitOidOut_gitOidIn {s v : Bytes} (h : gitOidIn s = .ok v) :
  ∃ hv : v.length = 20, gitOidOut ⟨v, hv⟩ = s.map lowerByte
  := by
  have hs : s.length = 40 := ((gitOidIn_ok_iff s).1 ⟨v, h⟩).1
  rw [gitOidIn_of_length hs] at h
  obtain ⟨hlen, hout⟩ := (oidInPairs_spec s (by rw [hs]; decide)).2 v h
  exact ⟨by omega, hout⟩

/-- The `git_oid` type's text codec: the accepted strings, the output, and the two round trips. -/
theorem git_oid_codec_round_trip :
  (∀ s : Bytes, (∃ v, gitOidIn s = .ok v) ↔ s.length = 40 ∧ ∀ c ∈ s, IsHexDigit c) ∧
    (∀ o : Oid, (gitOidOut o).length = 40 ∧ (∀ c ∈ gitOidOut o, IsLowerHexDigit c) ∧
      gitOidIn (gitOidOut o) = .ok o.id) ∧
    (∀ s v : Bytes, gitOidIn s = .ok v →
      ∃ hv : v.length = 20, gitOidOut ⟨v, hv⟩ = s.map lowerByte)
  := ⟨gitOidIn_ok_iff, gitOidOut_spec, fun _ _ => gitOidOut_gitOidIn⟩

end Gitgres
