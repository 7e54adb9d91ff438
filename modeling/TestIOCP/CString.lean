import Mathlib.Algebra.Group.Int.Defs
import Mathlib.Algebra.Group.Nat.Defs
import Mathlib.Data.List.TakeDrop
import Mathlib.Data.List.TakeWhile

/-! C strings and character arrays. A string is the bytes before its terminating
NUL, and a pointer into a string is the rest of it, so the byte at the pointer is
the head of the rest, or NUL. -/
namespace CString

abbrev Byte := UInt8

/-- What is asked of the bytes of a list is decided by looking at these, and not at all 256. -/
instance (priority := high) decidableAll {p : Byte → Prop} [DecidablePred p] (l : List Byte) :
    Decidable (∀ c ∈ l, p c) :=
  List.decidableBAll p l

/-- The bytes of a string literal. -/
def bytes (s : String) : List Byte :=
  s.toList.map fun c => c.toNat.toUInt8

def ch (c : Char) : Byte := c.toNat.toUInt8

/-- The byte that a pointer points to. -/
def deref (p : List Byte) : Byte :=
  p.headD 0

/-- The string that some memory starts with. -/
def cstring (memory : List Byte) : List Byte :=
  memory.takeWhile (· ≠ 0)

theorem cstring_nul (s rest : List Byte) : cstring (s ++ 0 :: rest) = cstring s := by
  induction s with
  | nil => simp [cstring]
  | cons c s ih =>
    simp only [cstring, List.cons_append, List.takeWhile_cons] at ih ⊢
    rw [ih]

theorem cstring_append {s : List Byte} (free : 0 ∉ s) (rest : List Byte) :
    cstring (s ++ rest) = s ++ cstring rest := by
  refine List.takeWhile_append_of_pos fun c inside => ?_
  simpa using fun nul : c = 0 => free (nul ▸ inside)

theorem cstring_of_notMem {s : List Byte} (free : 0 ∉ s) : cstring s = s := by
  rw [cstring, List.takeWhile_eq_self_iff]
  intro c inside
  simpa using fun nul : c = 0 => free (nul ▸ inside)

theorem notMem_cstring (memory : List Byte) : 0 ∉ cstring memory := by
  intro inside
  simpa using List.mem_takeWhile_imp inside

/-- An array char[n]. -/
structure Buffer (n : Nat) where
  bytes : List Byte
  size : bytes.length = n
  deriving DecidableEq

namespace Buffer
variable {n : Nat}

@[ext] theorem ext {a b : Buffer n} (same : a.bytes = b.bytes) : a = b := by
  cases a
  cases b
  simpa using same

def zero (n : Nat) : Buffer n :=
  ⟨List.replicate n 0, List.length_replicate⟩

def get (b : Buffer n) (i : Nat) : Byte :=
  b.bytes.getD i 0

def set (b : Buffer n) (i : Nat) (c : Byte) : Buffer n :=
  ⟨b.bytes.set i c, by rw [List.length_set, b.size]⟩

/-- Copies bytes over the start of the array. -/
def copy (b : Buffer n) (s : List Byte) : Buffer n :=
  ⟨(s ++ b.bytes.drop s.length).take n, by
    have := b.size
    simp only [List.length_take, List.length_append, List.length_drop]
    omega⟩

/-- Copies a string with its NUL over the start of the array. -/
def store (b : Buffer n) (s : List Byte) : Buffer n :=
  b.copy (s ++ [0])

/-- The string that starts the array. -/
def string (b : Buffer n) : List Byte :=
  cstring b.bytes

/-- A string that fits with its NUL is what the array then starts with. -/
theorem bytes_store (b : Buffer n) {s : List Byte} (short : s.length < n) :
    (b.store s).bytes = s ++ 0 :: (b.bytes.drop (s.length + 1)).take (n - s.length - 1) := by
  simp only [store, copy, List.length_append, List.length_singleton]
  rw [List.append_assoc, List.take_append, List.take_of_length_le (by omega)]
  simp [List.take_cons (show 0 < n - s.length by omega)]

theorem string_store (b : Buffer n) {s : List Byte} (short : s.length < n) :
    (b.store s).string = cstring s := by
  rw [string, b.bytes_store short, cstring_nul]

/-- The array starts with some bytes and a NUL. -/
def Keeps (b : Buffer n) (s : List Byte) : Prop :=
  ∃ rest, b.bytes = s ++ 0 :: rest

theorem Keeps.string_eq {b : Buffer n} {s : List Byte} (keeps : b.Keeps s) :
    b.string = cstring s := by
  obtain ⟨rest, same⟩ := keeps
  rw [string, same, cstring_nul]

theorem keeps_store (b : Buffer n) {s : List Byte} (short : s.length < n) :
    (b.store s).Keeps s :=
  ⟨_, b.bytes_store short⟩

/-- The array holds a string with its NUL. -/
def Holds (b : Buffer n) (s : List Byte) : Prop :=
  0 ∉ s ∧ b.Keeps s

end Buffer

/-- The pointer to the first occurrence of a byte other than NUL. -/
def strchr (s : List Byte) (c : Byte) : Option (List Byte) :=
  match s.dropWhile (· ≠ c) with
  | [] => none
  | rest => some rest

theorem strchr_append {a : List Byte} {c : Byte} (first : c ∉ a) (b : List Byte) :
    strchr (a ++ c :: b) c = some (c :: b) := by
  have before : ∀ x ∈ a, decide (x ≠ c) = true := by
    intro x inside
    simpa using fun same : x = c => first (same ▸ inside)
  rw [strchr, List.dropWhile_append_of_pos before, List.dropWhile_cons_of_neg (by simp)]

/-- A string is split at the first occurrence of a byte in one way. -/
theorem first_unique {a b a' b' : List Byte} {c : Byte} (first : c ∉ a) (first' : c ∉ a')
    (same : a ++ c :: b = a' ++ c :: b') : a = a' ∧ b = b' := by
  have found := strchr_append first b
  rw [same, strchr_append first' b', Option.some.injEq, List.cons.injEq] at found
  obtain ⟨-, rfl⟩ := found
  exact ⟨List.append_cancel_right same, rfl⟩

theorem strchr_none {s : List Byte} {c : Byte} : strchr s c = none ↔ c ∉ s := by
  constructor
  · intro none_ inside
    obtain ⟨a, b, rfl, first⟩ := List.eq_append_cons_of_mem inside
    rw [strchr_append first] at none_
    cases none_
  · intro outside
    have before : ∀ x ∈ s, decide (x ≠ c) = true := by
      intro x inside
      simpa using fun same : x = c => outside (same ▸ inside)
    rw [strchr, List.dropWhile_eq_nil_iff.mpr before]

theorem strchr_some {s p : List Byte} {c : Byte} (found : strchr s c = some p) :
    ∃ a b, s = a ++ c :: b ∧ c ∉ a ∧ p = c :: b := by
  have inside : c ∈ s := by
    by_contra outside
    rw [strchr_none.mpr outside] at found
    cases found
  obtain ⟨a, b, rfl, first⟩ := List.eq_append_cons_of_mem inside
  rw [strchr_append first] at found
  exact ⟨a, b, rfl, first, (Option.some.inj found).symm⟩

/-- The pointer after the leading bytes of a set: s + strspn(s, accept). -/
def skip (accept s : List Byte) : List Byte :=
  s.dropWhile accept.contains

def isspace (c : Byte) : Bool :=
  c = ch ' ' || (9 ≤ c && c ≤ 13)

def isdigit (c : Byte) : Bool :=
  ch '0' ≤ c && c ≤ ch '9'

def digitsValue (digits : List Byte) : Nat :=
  digits.foldl (fun v c => 10 * v + (c.toNat - 48)) 0

/-- What strtol and strtoll return: the value, the end pointer, and whether the
number was out of range. -/
structure Parsed where
  value : Int
  rest : List Byte
  range : Bool
  deriving DecidableEq, Repr

/-- Decimal conversion to a signed type of the given width. Without digits the
end pointer is the start. -/
def strto (width : Nat) (s : List Byte) : Parsed :=
  let t := s.dropWhile isspace
  let negative := deref t = ch '-'
  let u := if deref t = ch '-' ∨ deref t = ch '+' then t.tail else t
  let digits := u.takeWhile isdigit
  if digits = [] then ⟨0, s, false⟩
  else
    let magnitude : Int := digitsValue digits
    let value := if negative then -magnitude else magnitude
    let rest := u.dropWhile isdigit
    if value < -2 ^ (width - 1) then ⟨-2 ^ (width - 1), rest, true⟩
    else if 2 ^ (width - 1) ≤ value then ⟨2 ^ (width - 1) - 1, rest, true⟩
    else ⟨value, rest, false⟩

def strtol : List Byte → Parsed := strto 32

def strtoll : List Byte → Parsed := strto 64

/-- The text of %u. -/
def unsignedText (n : Nat) : List Byte :=
  (Nat.toDigits 10 n).map ch

/-- The text of %d. -/
def signedText (i : Int) : List Byte :=
  if i < 0 then ch '-' :: unsignedText i.natAbs else unsignedText i.natAbs

end CString
