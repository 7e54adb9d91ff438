import Mathlib.Data.List.Nodup
import Mathlib.Data.Set.Basic
import Mathlib.Tactic.Linarith

/-! Extents of memory, and extents that are cut into parts of one size. -/

/-- A part of memory, from an address on. -/
structure Extent where
  start : Int
  size : Int
  deriving DecidableEq, Repr

namespace Extent

def bytes (e : Extent) : Set Int := {x | e.start ≤ x ∧ x < e.start + e.size}

/-- One of the two ends before the other starts. -/
def Apart (e f : Extent) : Prop :=
  e.start + e.size ≤ f.start ∨ f.start + f.size ≤ e.start

instance (e f : Extent) : Decidable (e.Apart f) :=
  inferInstanceAs (Decidable (_ ∨ _))

def Within (e f : Extent) : Prop :=
  f.start ≤ e.start ∧ e.start + e.size ≤ f.start + f.size

variable {e f e' f' : Extent}

theorem Apart.symm (apart : e.Apart f) : f.Apart e := Or.symm apart

theorem Apart.disjoint (apart : e.Apart f) : ∀ x ∈ e.bytes, x ∉ f.bytes := by
  rintro x ⟨low, high⟩ ⟨low', high'⟩
  rcases apart with before | after
  · omega
  · omega

theorem Within.subset (within : e.Within f) : e.bytes ⊆ f.bytes := by
  rintro x ⟨low, high⟩
  obtain ⟨first, last⟩ := within
  exact ⟨first.trans low, high.trans_le last⟩

theorem Apart.within (apart : e.Apart f) (left : e'.Within e) (right : f'.Within f) :
    e'.Apart f' := by
  obtain ⟨low, high⟩ := left
  obtain ⟨low', high'⟩ := right
  rcases apart with before | after
  · exact .inl (by omega)
  · exact .inr (by omega)

/-- The addresses of the parts of an extent. -/
def parts (start size : Int) (num : Nat) : List Int :=
  (List.range num).map fun j : Nat => start + j * size

variable {start size p q : Int} {num : Nat}

theorem mem_parts : p ∈ parts start size num ↔ ∃ j : Nat, j < num ∧ p = start + j * size := by
  simp only [parts, List.mem_map, List.mem_range]
  constructor
  · rintro ⟨j, below, rfl⟩
    exact ⟨j, below, rfl⟩
  · rintro ⟨j, below, rfl⟩
    exact ⟨j, below, rfl⟩

/-- The first part, and those after it. -/
theorem parts_succ : parts start size (num + 1) =
    start :: (List.range' 1 num).map fun j : Nat => start + j * size := by
  rw [parts, List.range_eq_range', List.range'_succ]
  simp

theorem parts_within (positive : 0 < size) (inside : p ∈ parts start size num) :
    Within ⟨p, size⟩ ⟨start, num * size⟩ := by
  obtain ⟨j, below, rfl⟩ := mem_parts.mp inside
  have first : 0 ≤ (j : Int) * size := by positivity
  have last : ((j : Int) + 1) * size ≤ num * size :=
    Int.mul_le_mul_of_nonneg_right (by omega) (Int.le_of_lt positive)
  rw [Int.add_mul, Int.one_mul] at last
  constructor
  · show start ≤ start + j * size
    omega
  · show start + j * size + size ≤ start + num * size
    omega

/-- A part ends before the next one starts. -/
theorem parts_before {j k : Nat} (positive : 0 < size) (before : j < k) :
    Apart ⟨start + j * size, size⟩ ⟨start + k * size, size⟩ := by
  have next : ((j : Int) + 1) * size ≤ k * size :=
    Int.mul_le_mul_of_nonneg_right (by omega) (Int.le_of_lt positive)
  rw [Int.add_mul, Int.one_mul] at next
  left
  show start + j * size + size ≤ start + k * size
  omega

theorem parts_apart (positive : 0 < size) (left : p ∈ parts start size num)
    (right : q ∈ parts start size num) (other : p ≠ q) : Apart ⟨p, size⟩ ⟨q, size⟩ := by
  obtain ⟨j, _, rfl⟩ := mem_parts.mp left
  obtain ⟨k, _, rfl⟩ := mem_parts.mp right
  rcases Nat.lt_trichotomy j k with before | same | after
  · exact parts_before positive before
  · exact absurd (by rw [same]) other
  · exact (parts_before positive after).symm

theorem parts_nodup (positive : 0 < size) : (parts start size num).Nodup := by
  apply List.Nodup.map _ List.nodup_range
  intro j k same
  have products : (j : Int) * size = k * size := by
    have sums : start + j * size = start + k * size := same
    omega
  exact Int.ofNat.inj (Int.eq_of_mul_eq_mul_right (Int.ne_of_gt positive) products)

end Extent
