import TestIOCP.Ledger
import Mathlib.Data.List.Range

/-! Free lists that grow by slabs. Objects are numbered in the order in which they
are allocated; the list is used first in, first out. -/

structure Pool where
  free : List Nat
  allocated : Nat
  deriving DecidableEq, Repr

namespace Pool

/-- The first object of the list; when it is empty, the first of a new slab. -/
def take (slab : Nat) (p : Pool) : Nat × Pool :=
  match p.free with
  | r :: rest => (r, { p with free := rest })
  | [] => (p.allocated, ⟨List.range' (p.allocated + 1) (slab - 1), p.allocated + slab⟩)

def give (p : Pool) (rs : List Nat) : Pool :=
  { p with free := p.free ++ rs }

/-- An object leaves the list, which may have grown. -/
structure Taken (p : Pool) (r : Nat) (p' : Pool) : Prop where
  grown : p.allocated ≤ p'.allocated
  source : r ∈ p.free ∨ p.allocated ≤ r ∧ r < p'.allocated
  rest : ∀ x, x ∈ p'.free ↔ x ≠ r ∧ (x ∈ p.free ∨ p.allocated ≤ x ∧ x < p'.allocated)
  once : p'.free.Nodup

variable {p : Pool} {slab : Nat}

theorem take_taken (slab : Nat) (positive : 0 < slab) (once : p.free.Nodup)
    (below : ∀ x ∈ p.free, x < p.allocated) : p.Taken (p.take slab).1 (p.take slab).2 := by
  obtain ⟨free, allocated⟩ := p
  cases free with
  | cons r rest =>
    obtain ⟨fresh, once⟩ := List.nodup_cons.mp once
    refine ⟨Nat.le_refl _, .inl (by simp [take]), fun x => ?_, once⟩
    simp only [take, List.mem_cons]
    constructor
    · exact fun inside => ⟨fun same => fresh (same ▸ inside), .inl (.inr inside)⟩
    · rintro ⟨other, (same | inside) | new⟩
      · exact absurd same other
      · exact inside
      · omega
  | nil =>
    refine ⟨by simp [take], .inr (by simpa [take] using positive), fun x => ?_, List.nodup_range'⟩
    simp only [take, List.mem_range'_1, List.not_mem_nil, false_or]
    omega

theorem give_once {rs : List Nat} (once : p.free.Nodup) (onceGiven : rs.Nodup)
    (apart : ∀ r ∈ rs, r ∉ p.free) : (p.give rs).free.Nodup :=
  List.nodup_append.mpr ⟨once, onceGiven, fun _ free b given same => apart b given (same ▸ free)⟩

end Pool

namespace Accounted
variable {P : Type*} {holds holds' : P → Nat → Prop} {live live' : Nat → Prop} {f q : P}

/-- A thing that is taken from a pool goes to another place, and new ones to the list. -/
theorem take (ledger : Accounted holds live) {p p' : Pool} {r : Nat} (taken : p.Taken r p')
    (listed : ∀ x, holds f x ↔ x ∈ p.free) (below : ∀ x, live x → x < p.allocated)
    (grown : ∀ x, live' x ↔ live x ∨ p.allocated ≤ x ∧ x < p'.allocated)
    (listed' : ∀ x, holds' f x ↔ x ∈ p'.free) (there : ∀ x, holds' q x ↔ x = r ∨ holds q x)
    (others : ∀ o x, o ≠ f → o ≠ q → (holds' o x ↔ holds o x)) (apart : q ≠ f) :
    Accounted holds' live' := by
  have extended := ledger.extend f (fun x alive new => Nat.not_le_of_gt (below x alive) new.1) grown
  refine extended.move (r := r) (p := q) ?_ ?_
  · exact (grown r).mpr (taken.source.imp_left fun inside =>
      ledger.known _ r ((listed r).mpr inside))
  · intro o x
    by_cases atFree : o = f
    · subst atFree
      simp [listed', taken.rest, listed, Ne.symm apart]
    · by_cases atQ : o = q
      · subst atQ
        by_cases same : x = r <;> simp [there, same, atFree]
      · rw [others o x atFree atQ]
        have elsewhere : holds o x → x ≠ r := by
          rintro here rfl
          rcases taken.source with inside | new
          · exact atFree (ledger.once _ _ _ here ((listed x).mpr inside))
          · exact Nat.not_le_of_gt (below x (ledger.known o x here)) new.1
        simp only [atQ, and_false, false_or, atFree, false_and, or_false]
        exact ⟨fun here => ⟨elsewhere here, here⟩, And.right⟩

/-- Things are given back to a pool from where they were. -/
theorem give (ledger : Accounted holds live) {p : Pool} {g : List Nat}
    (listed : ∀ x, holds f x ↔ x ∈ p.free) (alive : ∀ r ∈ g, live r)
    (listed' : ∀ x, holds' f x ↔ x ∈ (p.give g).free)
    (others : ∀ o x, o ≠ f → (holds' o x ↔ x ∉ g ∧ holds o x)) : Accounted holds' live := by
  refine ledger.gather (S := (· ∈ g)) (p := f) alive ?_
  intro o x
  by_cases atFree : o = f
  · subst atFree
    rw [listed', Pool.give, List.mem_append, listed]
    by_cases given : x ∈ g <;> simp [given]
  · simp [others o x atFree, atFree]

end Accounted
