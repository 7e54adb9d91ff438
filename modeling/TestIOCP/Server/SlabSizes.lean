import TestIOCP.Server.MemCache

/-! The sizes that GetMemBlock computes in ints. The search for a list stops at sizes up to
2^30, but the slabs of the last two of these lists are longer than an int can say. -/
namespace TestIOCP.MemCache
open Transition

/-- A value that an int holds, so an operation with this result does not overflow. -/
def InInt (n : Int) : Prop := -2 ^ 31 ≤ n ∧ n < 2 ^ 31

instance (n : Int) : Decidable (InInt n) := inferInstanceAs (Decidable (_ ∧ _))

/-- The arithmetic of GetMemBlock for list i: the size of a block, the size of a slab, and
where the blocks after the first one are. -/
structure Computed (i : Fin 32) : Prop where
  block : InInt (2 * 2 ^ i.val)
  slab : InInt (num i * shifted i)
  offset : ∀ j : Nat, 1 ≤ j → j < num i → InInt (j * shifted i)
  room : ∀ j : Nat, 1 ≤ j → j < num i →
    int (j * shifted i) + shifted i ≤ int (num i * shifted i)

/-- A release gives back a block that is out; the sizes are arbitrary. -/
def returned (m : Memory) : Call → Prop
  | .GetMemBlock _ _ => True
  | .ReleaseMemBlock pdata blocksize => ⟨pdata, blocksize⟩ ∈ m.live

/-- GetMemBlock returns no block, or one that is long enough and lies in a slab. -/
def Served (m : Memory) (blocksize : Int) : Prop :=
  ∀ new pdata, (GetMemBlock blocksize new m.cache).1 = some pdata →
    ∃ i, sizeClass blocksize = some i ∧ blocksize ≤ shifted i ∧
      ∃ slab ∈ (call m (.GetMemBlock blocksize new)).slabs,
        Extent.Within ⟨pdata, shifted i⟩ slab.toExtent

/-! ### The lists whose slabs fit -/

theorem computed_of_small {i : Fin 32} (small : i.val ≤ 27) : Computed i := by
  have exact_ := shifted_exact small
  have positive := shifted_pos small
  have fits := slab_fits small
  rw [← exact_] at fits
  have below (j : Nat) (bound : j ≤ num i) : (j : Int) * shifted i ≤ num i * shifted i :=
    Int.mul_le_mul_of_nonneg_right (by exact_mod_cast bound) (Int.le_of_lt positive)
  have above (j : Nat) : 0 ≤ (j : Int) * shifted i :=
    Int.mul_nonneg (Int.natCast_nonneg j) (Int.le_of_lt positive)
  constructor
  · have one := below 1 (by rw [num_pos]; omega)
    rw [← exact_]
    exact ⟨by omega, by omega⟩
  · have low := above (num i)
    exact ⟨by omega, fits⟩
  · intro j first last
    have low := above j
    have high := below j (by omega)
    exact ⟨by omega, by omega⟩
  · intro j first last
    rw [part_exact small (Nat.le_of_lt last), part_exact small (Nat.le_refl _)]
    have next := below (j + 1) last
    rw [Nat.cast_add, Int.add_mul, Nat.cast_one, Int.one_mul] at next
    exact next

theorem small_of_computed {i : Fin 32} (computed : Computed i) : i.val ≤ 27 := by
  have block := computed.block
  have slab := computed.slab
  clear computed
  revert i
  decide +kernel

theorem sizeClass_le {n : Int} {i : Fin 32} (found : sizeClass n = some i) : n ≤ shifted i := by
  simpa using List.find?_some found

/-- The search fails beyond 2^30 only. -/
theorem sizeClass_none {n : Int} : sizeClass n = none ↔ 2 ^ 30 < n := by
  constructor
  · intro none_
    by_contra most
    have last := List.find?_eq_none.mp none_ 29 (List.mem_finRange _)
    have size : shifted 29 = 2 ^ 30 := by decide +kernel
    rw [size] at last
    exact last (by simpa using most)
  · intro beyond
    apply List.find?_eq_none.mpr
    intro i _
    have most : shifted i ≤ 2 ^ 30 := by
      revert i
      decide +kernel
    simpa using Int.lt_of_le_of_lt most beyond

/-! ### The blocks of these lists -/

/-- Every block of a list whose slabs fit was cut out of such a slab. -/
structure FromSlabs (m : Memory) : Prop where
  shaped : ∀ slab ∈ m.slabs, slab.size = int (num slab.i * shifted slab.i)
  live : ∀ b ∈ m.live, ∀ i, sizeClass b.blocksize = some i → i.val ≤ 27 → b.pdata ∈ carved m i
  listed : ∀ i : Fin 32, i.val ≤ 27 → ∀ p ∈ m.cache.m_FreeList i, p ∈ carved m i

namespace FromSlabs
variable {m : Memory} {blocksize : Int} {i : Fin 32}

theorem released (inv : FromSlabs m) {pdata : Int} (out : ⟨pdata, blocksize⟩ ∈ m.live) :
    FromSlabs (call m (.ReleaseMemBlock pdata blocksize)) := by
  constructor
  · exact inv.shaped
  · intro b inside
    exact inv.live b (List.mem_of_mem_erase inside)
  · intro i small p inside
    simp only [call, ReleaseMemBlock] at inside
    cases found : sizeClass blocksize with
    | none =>
      rw [found] at inside
      exact inv.listed i small p inside
    | some k =>
      rw [found] at inside
      by_cases same : i = k
      · subst same
        simp only [Function.update_self] at inside
        rcases List.mem_append.mp inside with old | new
        · exact inv.listed i small p old
        · rw [List.mem_singleton.mp new]
          exact inv.live _ out i found small
      · simp only [Function.update_of_ne same] at inside
        exact inv.listed i small p inside

/-- The first block of a list goes out. -/
theorem taken (inv : FromSlabs m) (found : sizeClass blocksize = some i) {pdata : Int}
    {rest : List Int} (first : m.cache.m_FreeList i = pdata :: rest) :
    FromSlabs ⟨{ m.cache with m_FreeList := Function.update m.cache.m_FreeList i rest }, m.slabs,
      m.live ++ [⟨pdata, blocksize⟩]⟩ := by
  constructor
  · exact inv.shaped
  · intro b inside k class_ small
    rcases List.mem_append.mp inside with old | new
    · exact inv.live b old k class_ small
    · rw [List.mem_singleton.mp new] at class_ ⊢
      obtain rfl : i = k := Option.some.inj (found.symm.trans class_)
      apply inv.listed i small
      rw [first]
      exact List.mem_cons_self
  · intro k small p inside
    apply inv.listed k small
    by_cases same : k = i
    · subst same
      rw [first]
      simp only [Function.update_self] at inside
      exact List.mem_cons_of_mem _ inside
    · simpa only [Function.update_of_ne same] using inside

/-- A slab is cut: its first block goes out and the others are listed. -/
theorem cut (inv : FromSlabs m) (found : sizeClass blocksize = some i) (pdata : Int) :
    FromSlabs ⟨⟨m.cache.m_BigList ++ [pdata], Function.update m.cache.m_FreeList i
        ((List.range' 1 (num i - 1)).map fun j : Nat => pdata + int (j * shifted i))⟩,
      m.slabs ++ [⟨⟨pdata, int (num i * shifted i)⟩, i⟩], m.live ++ [⟨pdata, blocksize⟩]⟩ := by
  have grown (k : Fin 32) {p : Int} (old : p ∈ carved m k) :
      p ∈ carved { m with slabs := m.slabs ++ [⟨⟨pdata, int (num i * shifted i)⟩, i⟩] } k := by
    rw [carved_append]
    exact List.mem_append_left _ old
  have own {p : Int} (part : p ∈ Extent.parts pdata (shifted i) (num i)) :
      p ∈ carved { m with slabs := m.slabs ++ [⟨⟨pdata, int (num i * shifted i)⟩, i⟩] } i := by
    rw [carved_append, if_pos rfl]
    exact List.mem_append_right _ part
  constructor
  · intro slab inside
    rcases List.mem_append.mp inside with old | new
    · exact inv.shaped slab old
    · rw [List.mem_singleton.mp new]
  · intro b inside k class_ small
    rcases List.mem_append.mp inside with old | new
    · exact grown k (inv.live b old k class_ small)
    · rw [List.mem_singleton.mp new] at class_ ⊢
      obtain rfl : i = k := Option.some.inj (found.symm.trans class_)
      apply own
      apply Extent.mem_parts.mpr
      exact ⟨0, by rw [num_pos]; omega, by simp⟩
  · intro k small p inside
    by_cases same : k = i
    · subst same
      simp only [Function.update_self] at inside
      obtain ⟨j, range, rfl⟩ := List.mem_map.mp inside
      have bounds := List.mem_range'_1.mp range
      apply own
      apply Extent.mem_parts.mpr
      refine ⟨j, by omega, ?_⟩
      rw [part_exact small (by omega)]
    · simp only [Function.update_of_ne same] at inside
      exact grown k (inv.listed k small p inside)

theorem got (inv : FromSlabs m) (blocksize : Int) (new : Option Int) :
    FromSlabs (call m (.GetMemBlock blocksize new)) := by
  simp only [call, GetMemBlock]
  cases found : sizeClass blocksize with
  | none => simpa using inv
  | some i =>
    cases first : m.cache.m_FreeList i with
    | cons pdata rest => simpa [first] using inv.taken found first
    | nil =>
      cases new with
      | none => simpa [first] using inv
      | some pdata => simpa [first] using inv.cut found pdata

end FromSlabs

theorem reachable_fromSlabs {m : Memory} (run : machine.ReachableUnder returned m) :
    FromSlabs m := by
  apply run.invariant
  · rintro m rfl
    exact ⟨by simp, by simp, by simp⟩
  · intro m c m' inv allowed taken
    cases Option.some.inj taken
    cases c with
    | GetMemBlock blocksize new => exact inv.got blocksize new
    | ReleaseMemBlock pdata blocksize => exact inv.released allowed

theorem FromSlabs.served {m : Memory} (inv : FromSlabs m) {blocksize : Int}
    (fit : ∀ i, sizeClass blocksize = some i → i.val ≤ 27) : Served m blocksize := by
  intro new pdata result
  cases found : sizeClass blocksize with
  | none => simp [GetMemBlock, found] at result
  | some i =>
    have small := fit i found
    have out : ⟨pdata, blocksize⟩ ∈ (call m (.GetMemBlock blocksize new)).live := by
      simp [call, result]
    have after := inv.got blocksize new
    have block := after.live _ out i found small
    obtain ⟨slab, inside, rfl, part⟩ := Inv.mem_carved.mp block
    refine ⟨slab.i, rfl, sizeClass_le found, slab, inside, ?_⟩
    have within := Extent.parts_within (shifted_pos small) part
    have size := after.shaped slab inside
    rw [part_exact small (Nat.le_refl _)] at size
    rwa [← size] at within

/-- The sizes are computed without overflow, and what GetMemBlock returns is long enough,
exactly for the blocks of at most 2^28 bytes, and for those beyond 2^30, which it refuses. -/
theorem computed_served_iff (blocksize : Int) :
    ((∀ i, sizeClass blocksize = some i → Computed i) ∧
      ∀ m, machine.ReachableUnder returned m → Served m blocksize) ↔
    blocksize ≤ 2 ^ 28 ∨ 2 ^ 30 < blocksize := by
  constructor
  · rintro ⟨computed, -⟩
    cases found : sizeClass blocksize with
    | none => exact .inr (sizeClass_none.mp found)
    | some i =>
      left
      have small := small_of_computed (computed i found)
      have most : (2 : Int) ^ i.val ≤ 2 ^ 27 := pow_le_pow_right₀ (by decide) small
      have fits := sizeClass_le found
      rw [shifted_exact small] at fits
      omega
  · intro size
    have fit (i : Fin 32) (found : sizeClass blocksize = some i) : i.val ≤ 27 := by
      rcases size with most | beyond
      · obtain ⟨k, found', small, -⟩ := sizeClass_fits most
        obtain rfl : k = i := Option.some.inj (found'.symm.trans found)
        exact small
      · rw [sizeClass_none.mpr beyond] at found
        cases found
    constructor
    · intro i found
      exact computed_of_small (fit i found)
    · intro m run
      exact (reachable_fromSlabs run).served fit

/-- The slab of five blocks of 2^30 bytes is one block long, and the second block that is
returned lies behind it. -/
theorem block_behind_slab :
    ¬ (∀ i, sizeClass (2 ^ 30) = some i → Computed i) ∧
      ∃ m, machine.ReachableUnder returned m ∧ ¬ Served m (2 ^ 30) := by
  constructor
  · intro computed
    have slab := (computed 29 (by decide +kernel)).slab
    revert slab
    decide +kernel
  · let m := call empty (.GetMemBlock (2 ^ 30) (some 65536))
    refine ⟨m, .step (.initial rfl) (show returned empty (.GetMemBlock _ _) from trivial) rfl, ?_⟩
    intro served
    have second : (GetMemBlock (2 ^ 30) none m.cache).1 = some (65536 + 2 ^ 30) := by
      decide +kernel
    have slabs : (call m (.GetMemBlock (2 ^ 30) none)).slabs = [⟨⟨65536, 2 ^ 30⟩, 29⟩] := by
      decide +kernel
    obtain ⟨i, found, fits, slab, inside, -, last⟩ := served none _ second
    rw [slabs, List.mem_singleton] at inside
    subst inside
    simp only at last
    omega

end TestIOCP.MemCache
