import TestIOCP.Extent
import TestIOCP.Transition
import Mathlib.Data.Int.Basic
import Mathlib.Data.List.FinRange
import Mathlib.Data.List.Pairwise
import Mathlib.Logic.Function.Basic

/-! The memory cache of the server: blocks of 32 sizes, which are cut out of slabs and
kept in a free list for each size. -/
namespace TestIOCP.MemCache
open Transition

/-- The value that an int keeps of a result. -/
def int (n : Int) : Int := n.bmod (2 ^ 32)

/-- The size 2<<i of the blocks in list i. -/
def shifted (i : Fin 32) : Int := int (2 * 2 ^ i.val)

/-- The number of blocks in a slab. -/
def num (i : Fin 32) : Nat :=
  if 12 < i.val ∧ i.val ≤ 16 then 100 else if 16 < i.val then 5 else 1000

structure CMemCache where
  m_BigList : List Int
  m_FreeList : Fin 32 → List Int

/-- What new returned, for blocks of which size. -/
structure Slab extends Extent where
  i : Fin 32
  deriving DecidableEq, Repr

/-- The list in which the loops of both functions stop. -/
def sizeClass (blocksize : Int) : Option (Fin 32) :=
  (List.finRange 32).find? fun i => blocksize ≤ shifted i

/-- The result, and the slab that is allocated. new is what the allocation of a slab
returns. -/
def GetMemBlock (blocksize : Int) (new : Option Int) (c : CMemCache) :
    Option Int × Option Slab × CMemCache :=
  match sizeClass blocksize with
  | none => (none, none, c)
  | some i =>
    match c.m_FreeList i with
    | pdata :: rest =>
      (some pdata, none, { c with m_FreeList := Function.update c.m_FreeList i rest })
    | [] =>
      match new with
      | none => (none, none, c)
      | some pdata => (some pdata, some ⟨⟨pdata, int (num i * shifted i)⟩, i⟩,
          { m_BigList := c.m_BigList ++ [pdata]
            m_FreeList := Function.update c.m_FreeList i
              ((List.range' 1 (num i - 1)).map fun j : Nat => pdata + int (j * shifted i)) })

def ReleaseMemBlock (pdata blocksize : Int) (c : CMemCache) : CMemCache :=
  match sizeClass blocksize with
  | none => c
  | some i => { c with m_FreeList := Function.update c.m_FreeList i (c.m_FreeList i ++ [pdata]) }

/-- A block as its user knows it. -/
structure Block where
  pdata : Int
  blocksize : Int
  deriving DecidableEq, Repr

/-- The cache, the slabs that have been allocated, and the blocks that were returned and
not released since. -/
structure Memory where
  cache : CMemCache
  slabs : List Slab
  live : List Block

inductive Call where
  | GetMemBlock (blocksize : Int) (new : Option Int)
  | ReleaseMemBlock (pdata blocksize : Int)
  deriving DecidableEq, Repr

/-- A slab that is allocated shares no byte with an earlier one. -/
def Fresh (slabs : List Slab) (slab : Slab) : Prop :=
  ∀ earlier ∈ slabs, slab.toExtent.Apart earlier.toExtent

instance (slabs : List Slab) (slab : Slab) : Decidable (Fresh slabs slab) :=
  inferInstanceAs (Decidable (∀ earlier ∈ slabs, _))

/-- A block of at least a byte and at most 2^28, from fresh memory; a release of a live
block with the size that it was got with. -/
def permitted (m : Memory) : Call → Prop
  | .GetMemBlock blocksize new => 1 ≤ blocksize ∧ blocksize ≤ 2 ^ 28 ∧
      ∀ slab ∈ (GetMemBlock blocksize new m.cache).2.1, Fresh m.slabs slab
  | .ReleaseMemBlock pdata blocksize => ⟨pdata, blocksize⟩ ∈ m.live

instance (m : Memory) (c : Call) : Decidable (permitted m c) :=
  match c with
  | .GetMemBlock blocksize new => inferInstanceAs (Decidable (1 ≤ blocksize ∧ blocksize ≤ 2 ^ 28 ∧
      ∀ slab ∈ (GetMemBlock blocksize new m.cache).2.1, Fresh m.slabs slab))
  | .ReleaseMemBlock pdata blocksize => inferInstanceAs (Decidable (⟨pdata, blocksize⟩ ∈ m.live))

def call (m : Memory) : Call → Memory
  | .GetMemBlock blocksize new =>
    let (pdata, slab, cache) := GetMemBlock blocksize new m.cache
    { cache := cache
      slabs := m.slabs ++ slab.toList
      live := m.live ++ (pdata.map fun p => Block.mk p blocksize).toList }
  | .ReleaseMemBlock pdata blocksize =>
    { m with
      cache := ReleaseMemBlock pdata blocksize m.cache
      live := m.live.erase ⟨pdata, blocksize⟩ }

def machine : System Memory Call where
  initial m := m = ⟨⟨[], fun _ => []⟩, [], []⟩
  next m c := some (call m c)

/-- The size of the list that a block belongs to. -/
def blockClass (blocksize : Int) : Fin 32 := (sizeClass blocksize).getD 0

/-- The memory of a block. -/
def Block.extent (b : Block) : Extent := ⟨b.pdata, shifted (blockClass b.blocksize)⟩

/-- The blocks of a slab. -/
def Slab.blocks (s : Slab) : List Int := Extent.parts s.start (shifted s.i) (num s.i)

def carved (m : Memory) (i : Fin 32) : List Int :=
  (m.slabs.filter (·.i = i)).flatMap Slab.blocks

def liveOf (live : List Block) (i : Fin 32) : List Int :=
  (live.filter fun b => blockClass b.blocksize = i).map Block.pdata

structure Sound (m : Memory) : Prop where
  inside : ∀ b ∈ m.live, ∃ slab ∈ m.slabs, slab.start ∈ m.cache.m_BigList ∧
    b.extent.bytes ⊆ slab.bytes
  long : ∀ b ∈ m.live, b.blocksize ≤ b.extent.size
  disjoint : m.live.Pairwise fun b c => ∀ x ∈ b.extent.bytes, x ∉ c.extent.bytes
  carved : ∀ i, (carved m i).Perm (liveOf m.live i ++ m.cache.m_FreeList i)
  once : ∀ i, (MemCache.carved m i).Nodup

/-! ### The sizes -/

theorem int_small {n : Int} (low : 0 ≤ n) (high : n < 2 ^ 31) : int n = n := by
  unfold int
  rw [Int.bmod_eq_of_le] <;> omega

/-- None of the sizes up to 2^28 overflows, nor does a slab of them. -/
theorem shifted_exact {i : Fin 32} (small : i.val ≤ 27) : shifted i = 2 * 2 ^ i.val := by
  revert i
  decide +kernel

theorem slab_fits {i : Fin 32} (small : i.val ≤ 27) : (num i : Int) * (2 * 2 ^ i.val) < 2 ^ 31 := by
  revert i
  decide +kernel

theorem shifted_pos {i : Fin 32} (small : i.val ≤ 27) : 0 < shifted i := by
  rw [shifted_exact small]
  positivity

theorem part_exact {i : Fin 32} (small : i.val ≤ 27) {j : Nat} (below : j ≤ num i) :
    int (j * shifted i) = j * shifted i := by
  have positive := Int.le_of_lt (shifted_pos small)
  have most : (j : Int) * shifted i ≤ num i * shifted i :=
    Int.mul_le_mul_of_nonneg_right (by exact_mod_cast below) positive
  have fits := slab_fits small
  rw [← shifted_exact small] at fits
  have low : 0 ≤ (j : Int) * shifted i := Int.mul_nonneg (Int.natCast_nonneg j) positive
  exact int_small low (Int.lt_of_le_of_lt most fits)

/-- The loops stop at a list whose blocks are long enough. -/
theorem sizeClass_fits {n : Int} (most : n ≤ 2 ^ 28) :
    ∃ i, sizeClass n = some i ∧ i.val ≤ 27 ∧ n ≤ shifted i := by
  have last : n ≤ shifted 27 := by
    rw [shifted_exact (by decide)]
    exact most
  cases found : sizeClass n with
  | none =>
    have none := List.find?_eq_none.mp found 27 (List.mem_finRange _)
    exact absurd (decide_eq_true last) none
  | some i =>
    obtain ⟨fits, k, inRange, here, before⟩ := List.find?_eq_some_iff_getElem.mp found
    refine ⟨i, rfl, ?_, by simpa using fits⟩
    by_contra beyond
    have later : 27 < k := by
      have index : k = i.val := by simpa [List.getElem_finRange] using congrArg Fin.val here
      omega
    have skipped := before 27 later
    simp only [List.getElem_finRange] at skipped
    exact absurd (decide_eq_true last) (by simpa using skipped)

theorem blockClass_found {n : Int} (most : n ≤ 2 ^ 28) : sizeClass n = some (blockClass n) := by
  obtain ⟨i, found, _⟩ := sizeClass_fits most
  rw [blockClass, found]
  rfl

theorem blockClass_small {n : Int} (most : n ≤ 2 ^ 28) : (blockClass n).val ≤ 27 := by
  obtain ⟨i, found, small, _⟩ := sizeClass_fits most
  rw [blockClass, found]
  exact small

theorem blockClass_long {n : Int} (most : n ≤ 2 ^ 28) : n ≤ shifted (blockClass n) := by
  obtain ⟨i, found, _, fits⟩ := sizeClass_fits most
  rw [blockClass, found]
  exact fits

/-! ### What a call does -/

/-- The first block of the list, no memory, or a new slab, whose other blocks are listed. -/
inductive Got (c : CMemCache) (i : Fin 32) : Option Int → Option Slab → CMemCache → Prop where
  | listed : c.m_FreeList i = pdata :: rest →
      Got c i (some pdata) none { c with m_FreeList := Function.update c.m_FreeList i rest }
  | refused : Got c i none none c
  | carved : c.m_FreeList i = [] → Extent.parts pdata (shifted i) (num i) = pdata :: others →
      Got c i (some pdata) (some ⟨⟨pdata, num i * shifted i⟩, i⟩)
        { m_BigList := c.m_BigList ++ [pdata]
          m_FreeList := Function.update c.m_FreeList i others }

theorem num_pos (i : Fin 32) : num i = num i - 1 + 1 := by
  unfold num
  split_ifs <;> rfl

theorem getMemBlock_got {n : Int} (most : n ≤ 2 ^ 28) (new : Option Int) (c : CMemCache) :
    Got c (blockClass n) (GetMemBlock n new c).1 (GetMemBlock n new c).2.1
      (GetMemBlock n new c).2.2 := by
  have small := blockClass_small most
  simp only [GetMemBlock, blockClass_found most]
  cases listed : c.m_FreeList (blockClass n) with
  | cons pdata rest => exact .listed listed
  | nil =>
    cases new with
    | none => exact .refused
    | some pdata =>
      have size := part_exact small (Nat.le_refl _)
      have others : ((List.range' 1 (num (blockClass n) - 1)).map
          fun j : Nat => pdata + int (j * shifted (blockClass n))) =
          (List.range' 1 (num (blockClass n) - 1)).map
            fun j : Nat => pdata + j * shifted (blockClass n) := by
        apply List.map_congr_left
        intro j inside
        have below : j ≤ num (blockClass n) := by
          have bounds := List.mem_range'_1.mp inside
          omega
        rw [part_exact small below]
      simp only [size, others]
      apply Got.carved listed
      rw [num_pos, Extent.parts_succ, ← num_pos]

theorem releaseMemBlock_given {n : Int} (most : n ≤ 2 ^ 28) (pdata : Int) (c : CMemCache) :
    ReleaseMemBlock pdata n c =
      { c with
        m_FreeList := Function.update c.m_FreeList (blockClass n)
          (c.m_FreeList (blockClass n) ++ [pdata]) } := by
  simp only [ReleaseMemBlock, blockClass_found most]

/-! ### What every call keeps -/

theorem liveOf_perm {live live' : List Block} (same : live.Perm live') (i : Fin 32) :
    (liveOf live i).Perm (liveOf live' i) :=
  (same.filter _).map _

@[simp] theorem liveOf_append (live live' : List Block) (i : Fin 32) :
    liveOf (live ++ live') i = liveOf live i ++ liveOf live' i := by
  simp [liveOf]

theorem liveOf_same (b : Block) : liveOf [b] (blockClass b.blocksize) = [b.pdata] := by
  simp [liveOf]

theorem liveOf_other {b : Block} {i : Fin 32} (other : i ≠ blockClass b.blocksize) :
    liveOf [b] i = [] := by
  simp [liveOf, Ne.symm other]

structure Inv (m : Memory) : Prop where
  listed : m.cache.m_BigList = m.slabs.map (·.start)
  shaped : ∀ slab ∈ m.slabs, slab.i.val ≤ 27 ∧ slab.size = num slab.i * shifted slab.i
  apart : m.slabs.Pairwise fun s t => s.toExtent.Apart t.toExtent
  bounded : ∀ b ∈ m.live, b.blocksize ≤ 2 ^ 28
  kept : ∀ i, (carved m i).Perm (liveOf m.live i ++ m.cache.m_FreeList i)

theorem Inv.released {m : Memory} (inv : Inv m) {pdata blocksize : Int}
    (live : ⟨pdata, blocksize⟩ ∈ m.live) : Inv (call m (.ReleaseMemBlock pdata blocksize)) := by
  have most := inv.bounded _ live
  simp only [call, releaseMemBlock_given most]
  constructor
  · exact inv.listed
  · exact inv.shaped
  · exact inv.apart
  · intro b inside
    exact inv.bounded b (List.mem_of_mem_erase inside)
  · intro i
    have split := liveOf_perm (List.perm_cons_erase live) i
    rw [← List.singleton_append, liveOf_append] at split
    apply (inv.kept i).trans
    by_cases same : i = blockClass blocksize
    · subst same
      have one : liveOf [⟨pdata, blocksize⟩] (blockClass blocksize) = [pdata] := liveOf_same _
      rw [one] at split
      simp only [Function.update_self]
      -- The released block goes from the front of the live ones to the end of the list.
      apply (split.append_right _).trans
      rw [List.append_assoc, ← List.append_assoc (liveOf _ _)]
      exact List.perm_append_comm
    · have none : liveOf [⟨pdata, blocksize⟩] i = [] := liveOf_other same
      rw [none, List.nil_append] at split
      simp only [Function.update_of_ne same]
      exact split.append_right _

theorem carved_append (m : Memory) (slab : Slab) (i : Fin 32) :
    carved { m with slabs := m.slabs ++ [slab] } i =
      carved m i ++ if slab.i = i then slab.blocks else [] := by
  simp only [carved, List.filter_append, List.flatMap_append]
  congr 1
  split_ifs with same <;> simp [same]

/-- The list of the block's class loses or gains blocks; the others stay. -/
theorem Inv.got {m : Memory} (inv : Inv m) {blocksize : Int} (most : blocksize ≤ 2 ^ 28)
    {new : Option Int} (fresh : ∀ slab ∈ (GetMemBlock blocksize new m.cache).2.1,
      Fresh m.slabs slab) :
    Inv (call m (.GetMemBlock blocksize new)) := by
  have small := blockClass_small most
  have got := getMemBlock_got most new m.cache
  simp only [call]
  generalize (GetMemBlock blocksize new m.cache).1 = result,
    (GetMemBlock blocksize new m.cache).2.1 = allocated,
    (GetMemBlock blocksize new m.cache).2.2 = cache at got fresh ⊢
  cases got with
  | refused =>
    simp only [Option.map_none, Option.toList_none, List.append_nil]
    exact inv
  | @listed pdata rest listed =>
    simp only [Option.map_some, Option.toList_some, Option.toList_none, List.append_nil]
    constructor
    · exact inv.listed
    · exact inv.shaped
    · exact inv.apart
    · intro b inside
      rcases List.mem_append.mp inside with old | new
      · exact inv.bounded b old
      · rw [List.mem_singleton.mp new]
        exact most
    · intro i
      apply (inv.kept i).trans
      rw [liveOf_append]
      by_cases same : i = blockClass blocksize
      · subst same
        have one : liveOf [⟨pdata, blocksize⟩] (blockClass blocksize) = [pdata] := liveOf_same _
        simp only [Function.update_self, one, listed, List.append_assoc, List.singleton_append]
        exact List.Perm.refl _
      · have none : liveOf [⟨pdata, blocksize⟩] i = [] := liveOf_other same
        simp only [Function.update_of_ne same, none, List.append_nil]
        exact List.Perm.refl _
  | @carved pdata others empty parts =>
    simp only [Option.map_some, Option.toList_some]
    have apart := fresh _ rfl
    constructor
    · simp only [List.map_append, List.map_cons, List.map_nil, inv.listed]
    · intro slab inside
      rcases List.mem_append.mp inside with old | new
      · exact inv.shaped slab old
      · rw [List.mem_singleton.mp new]
        exact ⟨small, rfl⟩
    · apply List.pairwise_append.mpr
      refine ⟨inv.apart, List.pairwise_singleton _ _, ?_⟩
      intro slab old new here
      rw [List.mem_singleton.mp here]
      exact (apart slab old).symm
    · intro b inside
      rcases List.mem_append.mp inside with old | new
      · exact inv.bounded b old
      · rw [List.mem_singleton.mp new]
        exact most
    · intro i
      rw [liveOf_append]
      apply (List.Perm.of_eq (carved_append m _ i)).trans
      by_cases same : i = blockClass blocksize
      · subst same
        have one : liveOf [⟨pdata, blocksize⟩] (blockClass blocksize) = [pdata] := liveOf_same _
        have before := inv.kept (blockClass blocksize)
        rw [empty, List.append_nil] at before
        simp only [Function.update_self, one, Slab.blocks, parts, if_true, List.append_assoc,
          List.singleton_append]
        exact before.append_right _
      · have none : liveOf [⟨pdata, blocksize⟩] i = [] := liveOf_other same
        simp only [Function.update_of_ne same, none, List.append_nil, if_neg (Ne.symm same)]
        exact inv.kept i

theorem reachable_inv {m : Memory} (run : machine.ReachableUnder permitted m) : Inv m := by
  apply run.invariant
  · rintro m rfl
    exact ⟨rfl, by simp, List.Pairwise.nil, by simp, fun i => List.Perm.refl _⟩
  · intro m c m' inv allowed taken
    cases Option.some.inj taken
    cases c with
    | GetMemBlock blocksize new => exact inv.got allowed.2.1 allowed.2.2
    | ReleaseMemBlock pdata blocksize => exact inv.released allowed

/-! ### What follows for the blocks -/

namespace Inv
variable {m : Memory} {i j : Fin 32} {p q : Int}

theorem mem_carved : p ∈ carved m i ↔ ∃ slab ∈ m.slabs, slab.i = i ∧ p ∈ slab.blocks := by
  simp [carved, and_assoc]

theorem block_within (inv : Inv m) {slab : Slab} (inside : slab ∈ m.slabs)
    (block : p ∈ slab.blocks) :
    Extent.Within ⟨p, shifted slab.i⟩ slab.toExtent := by
  obtain ⟨small, size⟩ := inv.shaped slab inside
  have within := Extent.parts_within (shifted_pos small) block
  rwa [← size] at within

/-- Two carved blocks that are not the same one share no byte, of whatever sizes they are. -/
theorem carved_apart (inv : Inv m) (left : p ∈ carved m i) (right : q ∈ carved m j)
    (other : (i, p) ≠ (j, q)) : Extent.Apart ⟨p, shifted i⟩ ⟨q, shifted j⟩ := by
  obtain ⟨slab, inside, rfl, block⟩ := mem_carved.mp left
  obtain ⟨slab', inside', rfl, block'⟩ := mem_carved.mp right
  by_cases same : slab = slab'
  · subst same
    have different : p ≠ q := by
      rintro rfl
      exact other rfl
    exact Extent.parts_apart (shifted_pos (inv.shaped slab inside).1) block block' different
  · have symmetric : Std.Symm fun s t : Slab => s.toExtent.Apart t.toExtent :=
      ⟨fun _ _ apart => apart.symm⟩
    have apart := inv.apart.forall inside inside' same
    exact apart.within (inv.block_within inside block) (inv.block_within inside' block')

theorem carved_once (inv : Inv m) (i : Fin 32) : (carved m i).Nodup := by
  apply List.nodup_flatMap.mpr
  constructor
  · intro slab inside
    have slabbed := List.mem_of_mem_filter inside
    exact Extent.parts_nodup (shifted_pos (inv.shaped slab slabbed).1)
  · have apart : (m.slabs.filter (·.i = i)).Pairwise fun s t => s.toExtent.Apart t.toExtent :=
      inv.apart.sublist List.filter_sublist
    apply apart.imp_of_mem
    intro slab slab' inside inside' apart p block block'
    have slabbed := List.mem_of_mem_filter inside
    have slabbed' := List.mem_of_mem_filter inside'
    have self := apart.within (inv.block_within slabbed block) (inv.block_within slabbed' block')
    have positive := shifted_pos (inv.shaped slab slabbed).1
    have positive' := shifted_pos (inv.shaped slab' slabbed').1
    rcases self with before | after
    · exact absurd before (by simp only; omega)
    · exact absurd after (by simp only; omega)

theorem live_carved (inv : Inv m) {b : Block} (live : b ∈ m.live) :
    b.pdata ∈ carved m (blockClass b.blocksize) := by
  apply (inv.kept _).mem_iff.mpr
  apply List.mem_append_left
  exact List.mem_map.mpr ⟨b, List.mem_filter.mpr ⟨live, by simp⟩, rfl⟩

/-- The class and the address of a live block. -/
theorem live_once (inv : Inv m) :
    (m.live.map fun b => (blockClass b.blocksize, b.pdata)).Nodup := by
  apply List.nodup_iff_sublist.mpr
  rintro ⟨i, p⟩ twice
  have classed := (twice.filter fun k => k.1 = i).map Prod.snd
  have live : (((m.live.map fun b => (blockClass b.blocksize, b.pdata)).filter
      fun k => k.1 = i).map Prod.snd) = liveOf m.live i := by
    simp [liveOf, List.filter_map, Function.comp_def]
  rw [live] at classed
  have once := ((inv.kept i).nodup_iff.mp (inv.carved_once i)).of_append_left
  exact List.nodup_iff_sublist.mp once p (by simpa using classed)

theorem sound (inv : Inv m) : Sound m := by
  constructor
  · intro b live
    obtain ⟨slab, inside, same, block⟩ := mem_carved.mp (inv.live_carved live)
    have within := inv.block_within inside block
    rw [same] at within
    refine ⟨slab, inside, ?_, within.subset⟩
    rw [inv.listed]
    exact List.mem_map_of_mem inside
  · intro b live
    simp only [Block.extent]
    exact blockClass_long (inv.bounded b live)
  · have once := List.pairwise_map.mp inv.live_once
    apply once.imp_of_mem
    intro b c live live' other
    exact (inv.carved_apart (inv.live_carved live) (inv.live_carved live') other).disjoint
  · exact inv.kept
  · exact inv.carved_once

end Inv

/-- In every run, the blocks of each size are the live ones and the listed ones, each once;
a live block is long enough, in a slab, and shares no byte with another. -/
theorem blocks_sound {m : Memory} (run : machine.ReachableUnder permitted m) : Sound m :=
  (reachable_inv run).sound

def empty : Memory := ⟨⟨[], fun _ => []⟩, [], []⟩

/-- Two blocks of one slab and one of another. The second goes back to the end of its list,
so the third from that list is another one. -/
def twoSlabs : List Call :=
  [.GetMemBlock 200000 (some 65536), .GetMemBlock 262144 none, .GetMemBlock 1000000 (some 2000000),
    .ReleaseMemBlock 327680 262144, .GetMemBlock 140000 none]

theorem twoSlabs_sound : ∃ m, machine.runUnder permitted empty twoSlabs = some m ∧
    m.live = [⟨65536, 200000⟩, ⟨2000000, 1000000⟩, ⟨589824, 140000⟩] ∧ Sound m := by
  have ran : (machine.runUnder permitted empty twoSlabs).map Memory.live =
      some [⟨65536, 200000⟩, ⟨2000000, 1000000⟩, ⟨589824, 140000⟩] := by
    decide +kernel
  obtain ⟨m, here, live⟩ := Option.map_eq_some_iff.mp ran
  exact ⟨m, here, live, blocks_sound (System.runUnder_reachable (.initial rfl) here)⟩

end TestIOCP.MemCache
