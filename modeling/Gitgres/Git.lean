import Gitgres.Bytes

/-!
# What the backends exchange with libgit2

The return codes of the backend callbacks, a `git_reference` (`GitReference`) with its
direct or symbolic target, and a `git_signature` (`Signature`).  The text forms the reflog
writer makes of a signature are `committerText` and `tzText`: `snprintf` into fixed buffers,
which cut the text at the buffer's size in bytes, inside a character if that is where the last
byte falls.
-/

namespace Gitgres

/-- `GIT_OK`. -/
def gitOk : Int := 0
/-- `GIT_ERROR`, the generic `-1`. -/
def gitError : Int := -1
/-- `GIT_ENOTFOUND`. -/
def gitEnotfound : Int := -3
/-- `GIT_EEXISTS`. -/
def gitEexists : Int := -4
/-- `GIT_EAMBIGUOUS`. -/
def gitEambiguous : Int := -5
/-- `GIT_ITEROVER`. -/
def gitIterover : Int := -31

/-- Equality of `Except` values, decided constructor by constructor. -/
instance exceptDecidableEq {ε α : Type} [DecidableEq ε] [DecidableEq α] :
    DecidableEq (Except ε α)
  | .error a, .error b => decidable_of_iff (a = b) (by simp)
  | .ok a, .ok b => decidable_of_iff (a = b) (by simp)
  | .error _, .ok _ => isFalse nofun
  | .ok _, .error _ => isFalse nofun

/-- The target of a `git_reference`. -/
inductive RefValue where
  | direct (oid : Oid)
  | symbolic (target : String)
  deriving DecidableEq

/-- A `git_reference`: its name and target. -/
structure GitReference where
  name : String
  value : RefValue
  deriving DecidableEq

/-- `git_reference_target`: the OID of a direct reference. -/
def GitReference.target (ref : GitReference) : Option Oid :=
  match ref.value with
  | .direct o => some o
  | .symbolic _ => none

/-- A `git_signature`: name, email, time in seconds and offset in minutes. -/
structure Signature where
  name : String
  email : String
  time : Int
  offset : Int
  deriving DecidableEq

/-- The bytes `%s` copies from a C string: those before its first NUL. -/
def cStringBytes (s : String) : Bytes := (utf8 s).takeWhile (· ≠ 0)

/-- What `snprintf` leaves in a buffer of `n + 1` bytes: the first `n` bytes of the text it
formats, cut wherever the `n`-th byte falls. -/
def cTruncate (n : Nat) (b : Bytes) : Bytes := b.take n

/-- At least two decimal digits of `n`, as `%02d` prints it. -/
def pad2 (n : Nat) : String :=
  let d := Nat.toDigits 10 n
  ⟨List.replicate (2 - d.length) '0' ++ d⟩

/-- `snprintf(committer, 512, "%s <%s>", who->name, who->email)`: the bytes of the text, cut at
byte 511. -/
def committerText (who : Signature) : Bytes :=
  cTruncate 511 (cStringBytes who.name ++ utf8 " <" ++ cStringBytes who.email ++ utf8 ">")

/-- `snprintf(tz, 8, "%c%02d%02d", sign, abs(offset) / 60, abs(offset) % 60)`: a sign and
digits, one byte each, so the cut at byte 7 is a cut at the seventh character. -/
def tzText (who : Signature) : String :=
  ⟨(((if who.offset ≥ 0 then "+" else "-") ++ pad2 (who.offset.natAbs / 60) ++
    pad2 (who.offset.natAbs % 60)).toList.take 7)⟩

end Gitgres
