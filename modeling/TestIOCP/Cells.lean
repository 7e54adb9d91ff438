import Mathlib.Logic.Function.Basic

/-! A flat memory, with a cell at every address. -/
namespace Cells
variable {α : Type} {memory : Nat → α} {a b n : Nat} {values : List α}

/-- The cells from an address on. -/
def read (memory : Nat → α) (a : Nat) : Nat → List α
  | 0 => []
  | n + 1 => memory a :: read memory (a + 1) n

def write (memory : Nat → α) (a : Nat) : List α → Nat → α
  | [] => memory
  | v :: values => Function.update (write memory (a + 1) values) a v

@[simp] theorem length_read (memory : Nat → α) (a n : Nat) : (read memory a n).length = n := by
  induction n generalizing a with
  | zero => rfl
  | succ n ih => rw [read, List.length_cons, ih]

theorem read_add (memory : Nat → α) (a i j : Nat) :
    read memory a (i + j) = read memory a i ++ read memory (a + i) j := by
  induction i generalizing a with
  | zero => rw [Nat.zero_add, Nat.add_zero, read, List.nil_append]
  | succ i ih =>
    rw [Nat.add_right_comm, read, read, ih, Nat.add_right_comm a 1 i]
    rfl

theorem read_update (outside : b < a ∨ a + n ≤ b) (v : α) :
    read (Function.update memory b v) a n = read memory a n := by
  induction n generalizing a with
  | zero => rfl
  | succ n ih => rw [read, read, Function.update_of_ne (by omega), ih (by omega)]

/-- What is written is read back. -/
theorem read_write (memory : Nat → α) (a : Nat) (values : List α) :
    read (write memory a values) a values.length = values := by
  induction values generalizing a with
  | nil => rfl
  | cons v values ih =>
    have later : read (write memory a (v :: values)) (a + 1) values.length = values := by
      rw [write]
      exact (read_update (by omega) v).trans (ih (a + 1))
    rw [List.length_cons, read, later, write, Function.update_self]

theorem read_write_apart (apart : b + n ≤ a ∨ a + values.length ≤ b) :
    read (write memory a values) b n = read memory b n := by
  induction values generalizing a with
  | nil => rfl
  | cons v values ih =>
    simp only [List.length_cons] at apart
    rw [write, read_update (by omega), ih (by omega)]

/-- A write behind some cells leaves these. -/
theorem read_write_behind (memory : Nat → α) (a i : Nat) (values : List α) :
    read (write memory (a + i) values) a (i + values.length) = read memory a i ++ values := by
  rw [read_add, read_write_apart (.inl (Nat.le_refl _)), read_write]

end Cells
