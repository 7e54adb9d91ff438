import Mathlib.Data.List.Perm.Basic

/-! Things that are in a list of free ones, out, or in hand, each of them once. -/

/-- Every one of all is in exactly one of the lists. -/
def Stocked {α : Type*} (all free out held : List α) : Prop :=
  (free ++ (out ++ held)).Perm all

namespace Stocked
variable {α : Type*} {all free out out' held : List α} {a : α}

/-- The first free one is taken. -/
theorem pop (stocked : Stocked all (a :: free) out held) : Stocked all free out (a :: held) := by
  refine List.Perm.trans ?_ stocked
  rw [← List.append_assoc, List.cons_append, ← List.append_assoc]
  exact List.perm_middle

/-- One is given back. -/
theorem push (stocked : Stocked all free out (a :: held)) : Stocked all (free ++ [a]) out held := by
  refine List.Perm.trans ?_ stocked
  rw [List.append_assoc, List.singleton_append]
  exact List.perm_middle.symm.append_left free

/-- A new one is in hand. -/
theorem new (stocked : Stocked all free out held) : Stocked (all ++ [a]) free out (a :: held) := by
  refine List.Perm.trans ?_ (List.Perm.append_right [a] stocked)
  simp only [List.append_assoc]
  have swap : ([a] ++ held).Perm (held ++ [a]) := List.perm_append_comm
  exact (swap.append_left out).append_left free

/-- One goes out. -/
theorem post (stocked : Stocked all free out (a :: held)) : Stocked all free (a :: out) held := by
  refine List.Perm.trans ?_ stocked
  exact List.perm_middle.symm.append_left free

/-- One comes in. -/
theorem complete (stocked : Stocked all free out held) (left : out.Perm (a :: out')) :
    Stocked all free out' (a :: held) := by
  refine List.Perm.trans (List.Perm.append_left free ?_) stocked
  exact List.perm_middle.trans (left.symm.append_right held)

theorem congr (stocked : Stocked all free out held) (same : out'.Perm out) :
    Stocked all free out' held :=
  ((same.append_right held).append_left free).trans stocked

/-- The order of what is in hand does not matter. -/
theorem hold {held' : List α} (stocked : Stocked all free out held) (same : held'.Perm held) :
    Stocked all free out held' :=
  ((same.append_left out).append_left free).trans stocked

/-- What is in hand is neither free nor out, if each was there once. -/
theorem separate (stocked : Stocked all free out held) (once : all.Nodup) (inside : a ∈ held) :
    a ∉ free ∧ a ∉ out := by
  have nodup := stocked.nodup_iff.mpr once
  rw [List.nodup_append] at nodup
  obtain ⟨-, rest, free_⟩ := nodup
  refine ⟨fun here => free_ a here a (List.mem_append_right out inside) rfl, fun here => ?_⟩
  exact (List.nodup_append.mp rest).2.2 a here a inside rfl

theorem apart (stocked : Stocked all free out (a :: held)) (once : all.Nodup) :
    a ∉ free ∧ a ∉ out :=
  stocked.separate once List.mem_cons_self

/-- Nothing is twice in hand. -/
theorem held_nodup (stocked : Stocked all free out held) (once : all.Nodup) : held.Nodup := by
  have nodup := stocked.nodup_iff.mpr once
  rw [List.nodup_append] at nodup
  exact (List.nodup_append.mp nodup.2.1).2.1

/-- Nothing is twice free, or twice out, and what is free is not out. -/
theorem nodups (stocked : Stocked all free out held) (once : all.Nodup) :
    free.Nodup ∧ out.Nodup ∧ ∀ a ∈ free, a ∉ out := by
  have nodup := stocked.nodup_iff.mpr once
  rw [List.nodup_append, List.nodup_append] at nodup
  obtain ⟨free_, ⟨out_, -, -⟩, differ⟩ := nodup
  exact ⟨free_, out_, fun a here there => differ a here a (List.mem_append_left held there) rfl⟩

/-- Each is free, out or in hand. -/
theorem cases (stocked : Stocked all free out held) (inside : a ∈ all) :
    a ∈ free ∨ a ∈ out ∨ a ∈ held := by
  have member := stocked.symm.subset inside
  simpa only [List.mem_append] using member

theorem mem_all (stocked : Stocked all free out held) (inside : a ∈ free ∨ a ∈ out) : a ∈ all :=
  stocked.subset (by rcases inside with inside | inside <;> simp [inside])

theorem mem_held (stocked : Stocked all free out held) (inside : a ∈ held) : a ∈ all :=
  stocked.subset (List.mem_append_right _ (List.mem_append_right _ inside))

theorem length (stocked : Stocked all free out held) :
    free.length + out.length + held.length = all.length := by
  have same := List.Perm.length_eq stocked
  rw [List.length_append, List.length_append] at same
  omega

end Stocked
