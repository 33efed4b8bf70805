import Gitgres.Odb.Backend
import Mathlib.Data.Nat.Digits

/-!
# The object hash in C and in SQL

The extension's `git_object_hash_c` and the SQL function `git_object_hash` both hash
`"<type> <size>\0<content>"`.  The C function formats the header with
`snprintf(header, sizeof(header), "%s %d", type_name, content_len)` into a 64-byte buffer, where
`content_len` is the content's length as an `int`, and counts the NUL that ends it; the SQL
function concatenates the type's name, a space and `octet_length(content)::text`, converts them
to UTF-8 and appends a NUL byte and the content.  The header always fits the buffer, and for
every content the server can hold the two functions hash the same bytes, `objectPreimage`.  For
an unknown type code the C function raises and the SQL one is NULL, and then the `INSERT` of
`git_object_write` violates the `NOT NULL` constraint of `objects.oid`.
-/

namespace Gitgres

/-- The type codes git objects are stored under, with their names. -/
def objectTypes : List (Int × String) := [(1, "commit"), (2, "tree"), (3, "blob"), (4, "tag")]

/-- The bytes git hashes for an object: the type's name, a space, the decimal length of the
content, a NUL byte and the content. -/
def objectPreimage (name : String) (content : Bytes) : Bytes :=
  utf8 name ++ [0x20] ++ utf8 (Nat.repr content.length) ++ [0] ++ content

/-- The `switch` of `git_object_hash_c`: the type's name, or none for its `default`. -/
def cTypeName : Int → Option String
  | 1 => some "commit"
  | 2 => some "tree"
  | 3 => some "blob"
  | 4 => some "tag"
  | _ => none

/-- The header `snprintf(header, sizeof(header), "%s %d", type_name, content_len)` writes,
with the NUL that `header_len++` counts. -/
def cHeader (typeName : String) (contentLen : Int) : Bytes :=
  utf8 (typeName ++ " " ++ toString contentLen) ++ [0]

/-- `git_object_hash_c`: the 20 bytes that `memcpy` copies from the SHA-1 digest of the header
and the content, or the error it raises for an unknown type code. -/
def gitObjectHashC (sha1 : Bytes → Bytes) (type : Int) (content : Bytes) : Except String Bytes :=
  match cTypeName type with
  | none => .error ("invalid git object type: " ++ toString type)
  | some typeName =>
    let contentLen := toInt32 content.length
    .ok ((sha1 (cHeader typeName contentLen ++ content)).take 20)

/-! ### Type names -/

/-- The C `switch` and the SQL `CASE` name the same four codes. -/
theorem cTypeName_eq_gitTypeName (t : Int) :
  cTypeName t = gitTypeName t
  := by
  unfold cTypeName gitTypeName
  split <;> simp_all

theorem gitTypeName_eq_some_iff {t : Int} {name : String} :
  gitTypeName t = some name ↔ (t, name) ∈ objectTypes
  := by
  unfold gitTypeName
  split_ifs <;> simp_all [objectTypes, eq_comm]

theorem gitTypeName_eq_none_iff {t : Int} :
  gitTypeName t = none ↔ t ∉ objectTypes.map Prod.fst
  := by
  unfold gitTypeName
  split_ifs <;> simp_all [objectTypes]

/-! ### The header -/

/-- The `%d` text of an `int` has at most eleven characters, a sign and ten digits. -/
theorem length_toString_int32 (n : Int) :
  (toString (toInt32 n)).length ≤ 11
  := by
  have hlo : -2 ^ 31 ≤ toInt32 n := by unfold toInt32; omega
  have hhi : toInt32 n < 2 ^ 31 := by unfold toInt32; omega
  have hdigits (m : Nat) (hm : m ≤ 2 ^ 31) : (Nat.repr m).length ≤ 10 :=
    Nat.repr_length m 10 (by decide) (by omega)
  match h : toInt32 n with
  | .ofNat m => exact (hdigits m (by rw [Int.ofNat_eq_coe] at h; omega)).trans (by decide)
  | .negSucc m =>
    show ("-" ++ Nat.repr (m + 1)).length ≤ 11
    rw [String.length_append]
    exact Nat.add_le_add_left (hdigits (m + 1) (by rw [Int.negSucc_eq] at h; omega)) 1

/-- `snprintf` never truncates the header: with its NUL it takes at most 52 of the buffer's 64
bytes, whatever the content's length. -/
theorem cHeader_fits {type : Int} {typeName : String} (h : cTypeName type = some typeName)
    (n : Nat) :
  (cHeader typeName (toInt32 n)).length ≤ 64
  := by
  have hname : (utf8 typeName).length ≤ 6 := by
    unfold cTypeName at h
    split at h <;> first | (cases h; decide) | cases h
  have hnum := (length_utf8_le (toString (toInt32 n))).trans
    (Nat.mul_le_mul_left 4 (length_toString_int32 n))
  simp only [cHeader, utf8_append, List.length_append]
  have hsp : (utf8 " ").length = 1 := rfl
  simp only [hsp, List.length_singleton]
  omega

/-- For a content the server can hold, the header is the type's name, a space and the decimal
length of the content, ended by NUL. -/
theorem cHeader_append {c : Bytes} (hc : c.length < 2 ^ 31) (name : String) :
  cHeader name (toInt32 c.length) ++ c = objectPreimage name c
  := by
  rw [toInt32_of_lt (Int.ofNat_nonneg _) (by exact_mod_cast hc)]
  simp only [cHeader, objectPreimage, utf8_append, List.append_assoc]
  rfl

theorem objectHash_eq (sha1 : Bytes → Bytes) (name : String) (c : Bytes) :
  objectHash sha1 name c = sha1 (objectPreimage name c)
  := by
  simp only [objectHash, objectPreimage, utf8_append, List.append_assoc]
  rfl

/-! ### The two functions -/

/-- Both functions hash the object's preimage for a known type code, and for an unknown one the
C function raises, the SQL one is NULL, and `git_object_write` fails without a change to the
committed tables or the open transaction's changes. -/
theorem object_hash_c_agrees_with_sql (sha1 : Bytes → Bytes) (hsha : ∀ m, (sha1 m).length = 20)
    (t : Int) (c : Bytes) (hc : c.length < 2 ^ 30) :
  (∀ name, (t, name) ∈ objectTypes →
      gitObjectHashC sha1 t c = .ok (sha1 (objectPreimage name c)) ∧
      gitObjectHash sha1 t c = some (sha1 (objectPreimage name c))) ∧
    (t ∉ objectTypes.map Prod.fst →
      gitObjectHashC sha1 t c = .error ("invalid git object type: " ++ toString t) ∧
      gitObjectHash sha1 t c = none ∧
      ∀ r conn db fails,
        ((gitObjectWrite sha1 r t c).run conn db fails).val = .error gitError ∧
        ((gitObjectWrite sha1 r t c).run conn db fails).db = db ∧
        ((gitObjectWrite sha1 r t c).run conn db fails).conn.pending = conn.pending)
  := by
  constructor
  · intro name hname
    have hsql := gitTypeName_eq_some_iff.2 hname
    have hpre := @cHeader_append c (by omega) name
    refine ⟨?_, by rw [gitObjectHash, hsql, Option.map_some', objectHash_eq]⟩
    rw [gitObjectHashC, cTypeName_eq_gitTypeName, hsql]
    simp only [hpre, List.take_of_length_le (hsha _).le]
  · intro ht
    have hnone := gitTypeName_eq_none_iff.2 ht
    have hsql : gitObjectHash sha1 t c = none := by rw [gitObjectHash, hnone]; rfl
    refine ⟨by rw [gitObjectHashC, cTypeName_eq_gitTypeName, hnone], hsql,
      fun r conn db fails => ?_⟩
    simp only [gitObjectWrite, hsql, Prog.bind_eq, pqExecParams_bind, Prog.run_exec]
    rcases conn with ⟨_ | _ | _, pending, held⟩ <;>
      simp [Conn.exec, Query.eval, Outcome.error, Prog.run_done]

/-- The empty blob, with a digest function that returns twenty zero bytes. -/
theorem empty_blob_hashes_agree :
  (∀ _ : Bytes, (List.replicate 20 (0 : UInt8)).length = 20) ∧ ([] : Bytes).length < 2 ^ 30 ∧
    gitObjectHashC (fun _ => List.replicate 20 0) 3 [] = .ok (List.replicate 20 0) ∧
    gitObjectHash (fun _ => List.replicate 20 0) 3 [] = some (List.replicate 20 0)
  := let h := (object_hash_c_agrees_with_sql (fun _ => List.replicate 20 0)
      (fun _ => List.length_replicate ..) 3 [] (by decide)).1 "blob" (by decide)
    ⟨fun _ => List.length_replicate .., by decide, h.1, h.2⟩

end Gitgres
