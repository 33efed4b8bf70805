import Gitgres.Bytes
import Mathlib.Data.List.Basic

/-!
# Lines and push specs of the remote helper

The helper reads its standard input with `fgets(line, 1024, stdin)`: at most 1023 bytes, up
to and including a newline.  Input and output are streams of characters, one character a byte.
`chomp` reads the buffer as a C string and drops a final newline.  `parsePushSpec` splits
`[+]<src>:<dst>` into the fixed 512-byte fields of a `push_spec`.
-/

namespace Gitgres

/-- At most `n` characters of a stream, up to and including the first newline, and the rest. -/
def fgetsTake : Nat → List Char → List Char × List Char
  | 0, s => ([], s)
  | _, [] => ([], [])
  | k + 1, c :: s =>
    if c = '\n' then ([c], s)
    else
      let (l, r) := fgetsTake k s
      (c :: l, r)

/-- `fgets(line, n, stdin)`: `none` at the end of the stream, else the buffer's contents and
the rest of the stream. -/
def fgets (n : Nat) (input : List Char) : Option (List Char × List Char) :=
  match input with
  | [] => none
  | _ => some (fgetsTake (n - 1) input)

/-- The C string a buffer holds: its characters up to the first NUL. -/
def cString (buf : List Char) : List Char := buf.takeWhile (· ≠ '\x00')

/-- `chomp`: the C string in the buffer, without its final newline. -/
def chomp (line : List Char) : List Char :=
  let s := cString line
  if s.getLast? = some '\n' then s.dropLast else s

/-- A `push_spec`: source, destination and force flag. -/
structure PushSpec where
  src : List Char
  dst : List Char
  force : Bool
  deriving DecidableEq

/-- `parse_push_spec`: a leading `+` sets the force flag; the source is what precedes the first
`:` and the destination what follows it, each cut to the 511 bytes its field holds.  Without a
`:` the source is empty and the destination is the whole spec. -/
def parsePushSpec (raw : List Char) : PushSpec :=
  let (force, p) := match raw with
    | '+' :: p => (true, p)
    | p => (false, p)
  match p.span (· ≠ ':') with
  | (before, _ :: after) => ⟨before.take 511, after.take 511, force⟩
  | (_, []) => ⟨[], p.take 511, force⟩

/-- Without a leading `+` a spec parses as it would after one, with the force flag cleared. -/
theorem parsePushSpec_unforced {c : Char} (hc : c ≠ '+') (p : List Char) :
  parsePushSpec (c :: p) = { parsePushSpec ('+' :: c :: p) with force := false }
  := by
  simp [parsePushSpec, hc, -List.span_eq_take_drop]
  split <;> rfl

/-- What a spec `[+]p` parses to is what `+p` parses to, with the flag the spec carries, when
`p` itself does not start with a `+` that would be read as the flag. -/
theorem parsePushSpec_flag (f : Bool) {p : List Char} (hp : f = false → p.head? ≠ some '+')
    {spec : PushSpec} (h : parsePushSpec ('+' :: p) = spec) :
  parsePushSpec ((if f then ['+'] else []) ++ p) = { spec with force := f }
  := by
  subst h
  cases f with
  | true =>
    show parsePushSpec ('+' :: p) = _
    dsimp only [parsePushSpec]
    split <;> rfl
  | false =>
    rcases p with _ | ⟨c, p⟩
    · rfl
    · exact parsePushSpec_unforced (fun h => hp rfl (by rw [h]; rfl)) p

/-- `[+]s:d` with no `:` in `s` splits at that colon; each side is cut to its field. -/
theorem parsePushSpec_colon (f : Bool) (s d : List Char) (hs : ':' ∉ s)
    (hplus : f = false → s.head? ≠ some '+') :
  parsePushSpec ((if f then ['+'] else []) ++ s ++ ':' :: d) = ⟨s.take 511, d.take 511, f⟩
  := by
  have hspan : (s ++ ':' :: d).span (· ≠ ':') = (s, ':' :: d) := by
    rw [List.span_eq_take_drop, takeWhile_ne_append hs, dropWhile_ne_append hs]
  have hhead : f = false → (s ++ ':' :: d).head? ≠ some '+' := fun hf => by
    cases s with
    | nil => simp
    | cons c s => simpa using hplus hf
  rw [List.append_assoc]
  refine @parsePushSpec_flag f _ hhead ⟨s.take 511, d.take 511, true⟩ ?_
  show (match (s ++ ':' :: d).span (· ≠ ':') with
    | (before, _ :: after) => (⟨before.take 511, after.take 511, true⟩ : PushSpec)
    | (_, []) => ⟨[], (s ++ ':' :: d).take 511, true⟩) = _
  rw [hspan]

/-- A spec without `:` has an empty source and the whole spec, cut to 511 bytes, as its
destination. -/
theorem parsePushSpec_no_colon (f : Bool) (p : List Char) (hp : ':' ∉ p)
    (hplus : f = false → p.head? ≠ some '+') :
  parsePushSpec ((if f then ['+'] else []) ++ p) = ⟨[], p.take 511, f⟩
  := by
  have hall : ∀ x ∈ p, decide (x ≠ ':') := fun x hx => decide_eq_true fun h => hp (h ▸ hx)
  have hspan : p.span (· ≠ ':') = (p, []) := by
    rw [List.span_eq_take_drop, List.takeWhile_eq_self_iff.mpr hall,
      List.dropWhile_eq_nil_iff.mpr hall]
  refine @parsePushSpec_flag f _ hplus ⟨[], p.take 511, true⟩ ?_
  show (match p.span (· ≠ ':') with
    | (before, _ :: after) => (⟨before.take 511, after.take 511, true⟩ : PushSpec)
    | (_, []) => ⟨[], p.take 511, true⟩) = _
  rw [hspan]

end Gitgres
