import TestIOCP.NoLockBiList.Safety
import Mathlib.Data.List.Infix
import Mathlib.Data.List.Nodup
import Mathlib.Tactic.Common

/-! The list with one thread. A call then runs to its end before the next one starts, and
the list is a queue. -/
namespace TestIOCP.NoLockBiList
variable {E : Type}

inductive Call (E : Type) where
  | pushTail (e : E)
  | popHead
  deriving DecidableEq, Repr

namespace Call

/-- The first access of the call with number n. -/
def start (n : Nat) : Call E → Pc E
  | .pushTail e => .popReadTail (.pushTail ⟨n, e⟩)
  | .popHead => .popReadTail .popHead

/-- What a queue does with the call: its contents after it, and what PopHead returns. -/
def serve (q : List E) : Call E → List E × Option E
  | .pushTail e => (q ++ [e], none)
  | .popHead => (q.tail, q.head?)

def contents (q : List E) (calls : List (Call E)) : List E :=
  calls.foldl (fun q c => (c.serve q).1) q

def answers : List E → List (Call E) → List (Option E)
  | _, [] => []
  | q, c :: calls => (c.serve q).2 :: answers (c.serve q).1 calls

end Call

/-- The accesses of a call up to its return, if there are no more than fuel. -/
def accesses : Nat → Memory E → Pc E → Option (List (Pc E) × Memory E)
  | _, m, .idle => some ([], m)
  | 0, _, _ => none
  | fuel + 1, m, p => (accesses fuel (advance m p).1 (advance m p).2).map fun (rest,
    m') => (p :: rest, m')

/-- Calls one after the other, each of them with at most 20 accesses. -/
def performAll : Nat → Memory E → List (Call E) → Option (List (List (Pc E)) × Memory E)
  | _, m, [] => some ([], m)
  | n, m, c :: calls =>
    match accesses 20 m (c.start n) with
    | none => none
    | some (trace, m') => (performAll (n + 1) m' calls).map fun (traces, m'') =>
      (trace :: traces, m'')

/-- What a call with these accesses returns: null, or an element. -/
def returned (trace : List (Pc E)) : Option E :=
  (trace.filterMap Pc.returns).head?.map Occurrence.ele

/-- A pass of the loop in PopHead or PopNullHead. -/
def Pc.popPass : Pc E → Bool
  | .popReadTail _ => true
  | _ => false

/-- A pass of the loop in PushTail or PushNullTail. -/
def Pc.pushPass : Pc E → Bool
  | .pushReadTail _ _ => true
  | _ => false

/-- No loop of the call comes to a second pass. -/
def FirstPass (trace : List (Pc E)) : Prop :=
  trace.countP Pc.popPass ≤ 1 ∧ trace.countP Pc.pushPass ≤ 1

/-- The nodes of a chain, each of them once. -/
structure Chained (m : Memory E) (c : Chain) (xs : List Node) : Prop extends Walk m c xs where
  once : xs.Nodup

/-- The two chains, whose nodes hold the elements of a queue. -/
structure Represents (m : Memory E) (q : List E) (xs ys : List Node) : Prop where
  elements : Chained m .ele xs
  recycled : Chained m .null ys
  disjoint : xs.Disjoint ys
  contents : xs.map (fun x => (m.ele x).map Occurrence.ele) = q.map some
  nEleNum : m.nEleNum = q.length
  nNodeNum : m.nNodeNum = xs.length + ys.length
  allocated : ∀ x, x ∈ xs ∨ x ∈ ys → x < m.allocated

/-- The constructor, with what new will leave in the nodes. -/
def Memory.constructed (pnext : Node → Option Node)
    (ele : Node → Option (Occurrence E)) : Memory E where
  phead _ := none
  ptail _ := none
  pnext := pnext
  ele := ele
  allocated := 0
  nEleNum := 0
  nNodeNum := 0

/-! ### Parts of a call -/

/-- The accesses that lead from one position to another. -/
inductive Path : Memory E → Pc E → List (Pc E) → Memory E → Pc E → Prop where
  | nil : Path m p [] m p
  | step : p ≠ .idle → Path (advance m p).1 (advance m p).2 ps m' p' → Path m p (p :: ps) m' p'

namespace Path
variable {m m' m'' : Memory E} {p p' p'' : Pc E} {ps ps' : List (Pc E)}

theorem next (running : p ≠ .idle) (there : advance m p = (m', p')) (rest : Path m' p' ps m'' p'') :
    Path m p (p :: ps) m'' p'' := by
  apply step running
  rw [there]
  exact rest

theorem trans (first : Path m p ps m' p') (second : Path m' p' ps' m'' p'') :
    Path m p (ps ++ ps') m'' p'' := by
  induction first with
  | nil => exact second
  | step running _ ih => exact .step running (ih second)

theorem accesses_of (path : Path m p ps m' .idle) {fuel : Nat} (enough : ps.length ≤ fuel) :
    accesses fuel m p = some (ps, m') := by
  generalize ended : Pc.idle = last at path
  induction path generalizing fuel with
  | nil =>
    subst ended
    cases fuel <;> rfl
  | step running rest ih =>
    cases fuel with
    | zero => simp at enough
    | succ fuel =>
      have further := ih (Nat.le_of_succ_le_succ enough) ended
      rw [accesses, further]
      · rfl
      · exact running

end Path

/-- A part of a call that enters each loop so often, and returns these elements. -/
structure Part (pops pushes : Nat) (results : List (Occurrence E)) (ps : List (Pc E)) : Prop where
  pops : ps.countP Pc.popPass = pops
  pushes : ps.countP Pc.pushPass = pushes
  results : ps.filterMap Pc.returns = results

theorem Part.append {pops pushes pops' pushes' : Nat} {results results' : List (Occurrence E)}
    {ps ps' : List (Pc E)} (first : Part pops pushes results ps)
    (second : Part pops' pushes' results' ps') :
    Part (pops + pops') (pushes + pushes') (results ++ results') (ps ++ ps') := by
  constructor
  · rw [List.countP_append, first.pops, second.pops]
  · rw [List.countP_append, first.pushes, second.pushes]
  · rw [List.filterMap_append, first.results, second.results]

/-- The ends of a chain that has these nodes. -/
def Memory.ends (m : Memory E) (c : Chain) (xs : List Node) : Memory E :=
  { m with
    phead := Function.update m.phead c xs.head?
    ptail := Function.update m.ptail c xs.getLast? }

/-- The pointers that lead to a new last node. -/
def Memory.link (m : Memory E) (xs : List Node) (x : Node) : Memory E :=
  match xs.getLast? with
  | none => { m with pnext := Function.update m.pnext x none }
  | some last => { m with pnext := Function.update (Function.update m.pnext x none) last (some x) }

namespace Chained
variable {m : Memory E} {c : Chain} {x : Node} {xs ys : List Node}

/-- A chain that is not null loses its first node in one pass. -/
theorem pop {call : PopCall E} (chained : Chained m call.chain (x :: xs)) :
    ∃ ps, Path m (.popReadTail call) ps (m.ends call.chain xs) (call.taken x) ∧
      Part 1 0 [] ps ∧ ps.length = 4 := by
  cases xs with
  | nil =>
    have head : m.phead call.chain = some x := chained.phead
    have tail : m.ptail call.chain = some x := chained.ptail
    have path : Path m (.popReadTail call)
        [.popReadTail call, .popReadHead call (some x), .popCasTail call x, .popClearHead call x]
        (m.ends call.chain []) (call.taken x) := by
      refine .next (by simp) (by rw [advance, tail]) ?_
      refine .next (by simp) (by simp only [advance, head, if_true]; rfl) ?_
      refine .next (by simp) (by simp only [advance, tail, if_true]; rfl) ?_
      exact .next (by simp) rfl .nil
    exact ⟨_, path, ⟨rfl, rfl, rfl⟩, rfl⟩
  | cons y rest =>
    obtain ⟨t, last⟩ : ∃ t, (y :: rest).getLast? = some t := ⟨_, List.getLast?_cons⟩
    have head : m.phead call.chain = some x := chained.phead
    have tail : m.ptail call.chain = some t := by
      rw [chained.ptail, List.getLast?_cons_cons, last]
    have follows : m.pnext x = some y := chained.pnext x y ⟨[], rest, rfl⟩
    have several : some x ≠ some t := by
      rintro same
      have inside : x ∈ y :: rest := List.mem_of_getLast? (last.trans same.symm)
      exact (List.nodup_cons.mp chained.once).1 inside
    have path : Path m (.popReadTail call)
        [.popReadTail call, .popReadHead call (some t), .popReadNext call (some x),
          .popCasHead call x y]
        (m.ends call.chain (y :: rest)) (call.taken x) := by
      refine .next (by simp) (by rw [advance, tail]) ?_
      refine .next (by simp) (by simp only [advance, head, if_neg several]; rfl) ?_
      refine .next (by simp) (by simp only [advance, follows]; rfl) ?_
      refine .next (by simp) (by simp only [advance, head, if_true]; rfl) ?_
      have same : Function.update m.ptail call.chain (y :: rest).getLast? = m.ptail := by
        rw [last, ← tail, Function.update_eq_self]
      rw [Memory.ends, same]
      exact .nil
    exact ⟨_, path, ⟨rfl, rfl, rfl⟩, rfl⟩

/-- A node goes to the end of a chain in one pass. -/
theorem push {call : PushCall E} (chained : Chained m call.chain xs) :
    ∃ ps, Path m (.clearNext call x) ps ((m.link xs x).ends call.chain (xs ++ [x]))
      (.countEle call) ∧
      Part 0 1 [] ps ∧ ps.length = 4 := by
  cases last : xs.getLast? with
  | none =>
    obtain rfl := List.getLast?_eq_none_iff.mp last
    have head : m.phead call.chain = none := chained.phead
    have tail : m.ptail call.chain = none := chained.ptail
    have path : Path m (.clearNext call x)
        [.clearNext call x, .pushReadTail call x, .pushCasHead call x, .pushSetTail call x]
        ((m.link [] x).ends call.chain [x]) (.countEle call) := by
      refine .next (by simp) rfl ?_
      refine .next (by simp) (by simp only [advance, tail]; rfl) ?_
      refine .next (by simp) (by simp only [advance, head, if_true]; rfl) ?_
      exact .next (by simp) rfl .nil
    exact ⟨_, path, ⟨rfl, rfl, rfl⟩, rfl⟩
  | some t =>
    have tail : m.ptail call.chain = some t := chained.ptail.trans last
    have head : (xs ++ [x]).head? = m.phead call.chain := by
      cases xs with
      | nil => contradiction
      | cons first rest => exact chained.phead.symm
    have path : Path m (.clearNext call x)
        [.clearNext call x, .pushReadTail call x, .pushCasTail call x t, .pushSetNext call x t]
        ((m.link xs x).ends call.chain (xs ++ [x])) (.countEle call) := by
      refine .next (by simp) rfl ?_
      refine .next (by simp) (by simp only [advance, tail]; rfl) ?_
      refine .next (by simp) (by simp only [advance, tail, if_true]; rfl) ?_
      refine .next (by simp) rfl ?_
      simp only [Memory.link, last, Memory.ends, head, Function.update_eq_self,
        List.getLast?_concat]
      exact .nil
    exact ⟨_, path, ⟨rfl, rfl, rfl⟩, rfl⟩

/-! What the parts leave. -/

theorem popped (chained : Chained m c (x :: xs)) : Chained (m.ends c xs) c xs where
  phead := Function.update_self _ _ _
  ptail := Function.update_self _ _ _
  pnext a b next := chained.pnext a b (List.infix_cons next)
  last y last := chained.last y (by
    cases xs with
    | nil => contradiction
    | cons first rest => rw [List.getLast?_cons_cons, last])
  once := (List.nodup_cons.mp chained.once).2

/-- A chain depends on its ends and on pnext. -/
theorem same {m' : Memory E} (chained : Chained m c xs) (phead : m'.phead c = m.phead c)
    (ptail : m'.ptail c = m.ptail c) (pnext : ∀ x ∈ xs, m'.pnext x = m.pnext x) :
      Chained m' c xs := by
  refine ⟨⟨?_, ?_, ?_, ?_⟩, ?_⟩
  · exact phead.trans chained.phead
  · exact ptail.trans chained.ptail
  · intro a b next
    exact (pnext a (next.subset List.mem_cons_self)).trans (chained.pnext a b next)
  · intro y last
    exact (pnext y (List.mem_of_getLast? last)).trans (chained.last y last)
  · exact chained.once

/-- The other chain keeps its ends. -/
theorem ends_other {d : Chain} (chained : Chained m d ys) (other : d ≠ c) :
    Chained (m.ends c xs) d ys :=
  chained.same (Function.update_of_ne other _ _) (Function.update_of_ne other _ _) fun _ _ => rfl

/-- Linking writes pnext of the new node and of the last one. -/
theorem link_other {y : Node} (new : y ≠ x) (inner : xs.getLast? ≠ some y) :
    (m.link xs x).pnext y = m.pnext y := by
  unfold Memory.link
  cases last : xs.getLast? with
  | none => exact Function.update_of_ne new _ _
  | some t =>
    have different : y ≠ t := by
      rintro rfl
      exact inner last
    exact (Function.update_of_ne different _ _).trans (Function.update_of_ne new _ _)

theorem link_new (apart : x ∉ xs) : (m.link xs x).pnext x = none := by
  unfold Memory.link
  cases last : xs.getLast? with
  | none => exact Function.update_self _ _ _
  | some t =>
    have different : x ≠ t := by
      rintro rfl
      exact apart (List.mem_of_getLast? last)
    exact (Function.update_of_ne different _ _).trans (Function.update_self _ _ _)

theorem link_last {t : Node} (last : xs.getLast? = some t) : (m.link xs x).pnext t = some x := by
  unfold Memory.link
  rw [last]
  exact Function.update_self _ _ _

theorem pushed (chained : Chained m c xs) (apart : x ∉ xs) :
    Chained ((m.link xs x).ends c (xs ++ [x])) c (xs ++ [x]) := by
  refine ⟨⟨?_, ?_, ?_, ?_⟩, ?_⟩
  · exact Function.update_self _ _ _
  · exact Function.update_self _ _ _
  · intro a b adjacent
    rcases List.infix_concat_iff.mp adjacent with suffix | inner
    · -- The last node, and the new one.
      obtain ⟨lead, eq⟩ := suffix
      have split : (lead ++ [a]) ++ [b] = xs ++ [x] := by simpa using eq
      obtain ⟨rfl, single⟩ := List.append_inj' split rfl
      obtain rfl : b = x := by simpa using single
      exact link_last List.getLast?_concat
    · have next := chained.pnext a b inner
      have inside : a ∈ xs := inner.subset List.mem_cons_self
      have new : a ≠ x := by
        rintro rfl
        exact apart inside
      have notLast : xs.getLast? ≠ some a := by
        intro last
        rw [chained.last a last] at next
        contradiction
      exact (link_other new notLast).trans next
  · intro y last
    rw [List.getLast?_concat] at last
    obtain rfl := Option.some.inj last
    exact link_new apart
  · exact List.nodup_append.mpr ⟨chained.once, List.nodup_singleton x, by
      rintro a inside b here rfl
      exact apart (List.mem_singleton.mp here ▸ inside)⟩

/-- A chain that has neither the new node nor the nodes before it. -/
theorem linked_other (chained : Chained m c ys) (new : x ∉ ys) (disjoint : xs.Disjoint ys) :
    Chained (m.link xs x) c ys := by
  have kept : ∀ y ∈ ys, (m.link xs x).pnext y = m.pnext y := by
    intro y inside
    apply link_other
    · rintro rfl
      exact new inside
    · intro last
      exact disjoint (List.mem_of_getLast? last) inside
  apply chained.same _ _ kept
  · unfold Memory.link
    cases xs.getLast? <;> rfl
  · unfold Memory.link
    cases xs.getLast? <;> rfl

end Chained

/-! ### Calls -/

@[simp] theorem Memory.link_ele (m : Memory E) (xs : List Node) (x : Node) :
    (m.link xs x).ele = m.ele := by
  unfold Memory.link
  cases xs.getLast? <;> rfl

@[simp] theorem Memory.link_allocated (m : Memory E) (xs : List Node) (x : Node) :
    (m.link xs x).allocated = m.allocated := by
  unfold Memory.link
  cases xs.getLast? <;> rfl

@[simp] theorem Memory.link_nNodeNum (m : Memory E) (xs : List Node) (x : Node) :
    (m.link xs x).nNodeNum = m.nNodeNum := by
  unfold Memory.link
  cases xs.getLast? <;> rfl

@[simp] theorem Memory.link_nEleNum (m : Memory E) (xs : List Node) (x : Node) :
    (m.link xs x).nEleNum = m.nEleNum := by
  unfold Memory.link
  cases xs.getLast? <;> rfl

/-- The chains while a call holds one node more. -/
structure Held (m : Memory E) (q : List E) (xs ys : List Node) (x : Node) : Prop where
  elements : Chained m .ele xs
  recycled : Chained m .null ys
  disjoint : xs.Disjoint ys
  contents : xs.map (fun x => (m.ele x).map Occurrence.ele) = q.map some
  nNodeNum : m.nNodeNum = xs.length + ys.length + 1
  allocated : ∀ y, y = x ∨ y ∈ xs ∨ y ∈ ys → y < m.allocated
  notElement : x ∉ xs
  notRecycled : x ∉ ys

namespace Held
variable {m : Memory E} {q : List E} {xs ys : List Node} {x : Node}

theorem disjoint_snoc {xs ys : List Node} (disjoint : xs.Disjoint ys) (apart : x ∉ xs) :
    xs.Disjoint (ys ++ [x]) := by
  intro y inside there
  rcases List.mem_append.mp there with old | new
  · exact disjoint inside old
  · exact apart (List.mem_singleton.mp new ▸ inside)

/-- PopHead gives the node back. -/
theorem back (held : Held m q xs ys x) {m' : Memory E} (nEleNum : Int)
    (after : m' = { (m.link ys x).ends .null (ys ++ [x]) with nEleNum := nEleNum })
    (count : nEleNum = q.length) : Represents m' q xs (ys ++ [x]) := by
  subst after
  have linked := held.elements.linked_other held.notElement (List.disjoint_symm held.disjoint)
  have elements : Chained ((m.link ys x).ends .null (ys ++ [x])) .ele xs :=
    linked.ends_other (by decide)
  have recycled := held.recycled.pushed held.notRecycled
  constructor
  · exact elements.same rfl rfl fun _ _ => rfl
  · exact recycled.same rfl rfl fun _ _ => rfl
  · exact disjoint_snoc held.disjoint held.notElement
  · simpa [Memory.ends] using held.contents
  · exact count
  · simp only [Memory.ends, Memory.link_nNodeNum, held.nNodeNum, List.length_append,
      List.length_singleton]
    omega
  · intro y place
    simp only [Memory.ends, Memory.link_allocated]
    apply held.allocated
    rcases place with inXs | inYs
    · exact .inr (.inl inXs)
    · rcases List.mem_append.mp inYs with old | new
      · exact .inr (.inr old)
      · exact .inl (List.mem_singleton.mp new)

/-- PushTail stores its element in the node. -/
theorem setEle (held : Held m q xs ys x) (o : Occurrence E) :
    Held { m with ele := Function.update m.ele x (some o) } q xs ys x := by
  constructor
  · exact held.elements.same rfl rfl fun _ _ => rfl
  · exact held.recycled.same rfl rfl fun _ _ => rfl
  · exact held.disjoint
  · rw [← held.contents]
    apply List.map_congr_left
    intro y inside
    have different : y ≠ x := by
      rintro rfl
      exact held.notElement inside
    exact congrArg (Option.map Occurrence.ele) (Function.update_of_ne different _ _)
  · exact held.nNodeNum
  · exact held.allocated
  · exact held.notElement
  · exact held.notRecycled

/-- And the node becomes the last element. -/
theorem last (held : Held m q xs ys x) {o : Occurrence E} (stored : m.ele x = some o)
    {m' : Memory E} (nEleNum : Int)
    (after : m' = { (m.link xs x).ends .ele (xs ++ [x]) with nEleNum := nEleNum })
    (count : nEleNum = q.length + 1) : Represents m' (q ++ [o.ele]) (xs ++ [x]) ys := by
  subst after
  have elements := held.elements.pushed held.notElement
  have linked := held.recycled.linked_other held.notRecycled held.disjoint
  have recycled : Chained ((m.link xs x).ends .ele (xs ++ [x])) .null ys :=
    linked.ends_other (by decide)
  constructor
  · exact elements.same rfl rfl fun _ _ => rfl
  · exact recycled.same rfl rfl fun _ _ => rfl
  · exact List.disjoint_symm (disjoint_snoc (List.disjoint_symm held.disjoint) held.notRecycled)
  · simp [Memory.ends, held.contents, stored]
  · simpa using count
  · simp only [Memory.ends, Memory.link_nNodeNum, held.nNodeNum, List.length_append,
      List.length_singleton]
    omega
  · intro y place
    simp only [Memory.ends, Memory.link_allocated]
    apply held.allocated
    rcases place with inXs | inYs
    · rcases List.mem_append.mp inXs with old | new
      · exact .inr (.inl old)
      · exact .inl (List.mem_singleton.mp new)
    · exact .inr (.inr inYs)

end Held

/-- The call that starts here answers, and leaves the queue q. -/
def Serves (m : Memory E) (p : Pc E) (answer : Option E) (q : List E) : Prop :=
  ∃ trace m' xs ys, accesses 20 m p = some (trace, m') ∧ FirstPass trace ∧
    returned trace = answer ∧ Represents m' q xs ys

theorem Part.serves {m m' : Memory E} {p : Pc E} {ps : List (Pc E)} {q : List E} {xs ys : List Node}
    {pops pushes : Nat} {results : List (Occurrence E)} (part : Part pops pushes results ps)
    (path : Path m p ps m' .idle) (enough : ps.length ≤ 20) (once : pops ≤ 1 ∧ pushes ≤ 1)
    (rep : Represents m' q xs ys) : Serves m p (results.head?.map Occurrence.ele) q := by
  refine ⟨ps, m', xs, ys, path.accesses_of enough, ?_, ?_, rep⟩
  · rw [FirstPass, part.pops, part.pushes]
    exact once
  · rw [returned, part.results]

namespace Represents
variable {m : Memory E} {q : List E} {xs ys : List Node}

/-- PopHead of the empty list returns null and changes nothing. -/
theorem popEmpty (rep : Represents m [] xs ys) (n : Nat) :
    Serves m (Call.popHead.start n) none [] := by
  have empty : xs = [] := by simpa using congrArg List.length rep.contents
  have tail : m.ptail (PopCall.popHead (E := E)).chain = none := by
    show m.ptail .ele = none
    rw [rep.elements.ptail, empty]
    rfl
  have path : Path m (.popReadTail .popHead) [.popReadTail .popHead, .popReadHead .popHead none]
      m .idle := by
    refine .next (by simp) (by rw [advance, tail]) ?_
    exact .next (by simp) rfl .nil
  have part : Part 1 0 [] [Pc.popReadTail (E := E) .popHead, .popReadHead .popHead none] :=
    ⟨rfl, rfl, rfl⟩
  exact part.serves path (by simp) (by simp) rep

/-- PopHead takes the first node, and puts it at the end of the other chain. -/
theorem popHead {e : E} (rep : Represents m (e :: q) xs ys) (n : Nat) :
    Serves m (Call.popHead.start n) (some e) q := by
  cases xs with
  | nil => simpa using congrArg List.length rep.contents
  | cons x xs =>
    obtain ⟨first, rest⟩ := List.cons.inj rep.contents
    obtain ⟨o, holds, rfl⟩ := Option.map_eq_some_iff.mp first
    have held : Held (m.ends .ele xs) q xs ys x := by
      have apart := List.disjoint_cons_left.mp rep.disjoint
      constructor
      · exact rep.elements.popped
      · exact rep.recycled.ends_other (by decide)
      · exact apart.2
      · exact rest
      · have nodes := rep.nNodeNum
        rw [List.length_cons] at nodes
        show m.nNodeNum = _
        omega
      · intro y place
        apply rep.allocated
        rcases place with rfl | inXs | inYs
        · exact .inl List.mem_cons_self
        · exact .inl (List.mem_cons_of_mem _ inXs)
        · exact .inr inYs
      · exact (List.nodup_cons.mp rep.elements.once).1
      · exact apart.1
    have elements : Chained m (PopCall.popHead (E := E)).chain (x :: xs) := rep.elements
    obtain ⟨ps, taken, part, length⟩ := elements.pop
    have recycled : Chained (m.ends .ele xs) (PushCall.popHead (some o)).chain ys := held.recycled
    obtain ⟨ps', given, part', length'⟩ := recycled.push (x := x)
    generalize placed : ((m.ends .ele xs).link ys x).ends (PushCall.popHead (some o)).chain
      (ys ++ [x]) = m₂ at given
    have reading : Path (m.ends .ele xs) (.readEle x) [.readEle x] (m.ends .ele xs)
        (.clearNext (.popHead (some o)) x) :=
      .next (by simp) (by rw [advance, ← holds]; rfl) .nil
    have counting : Path m₂ (.countEle (.popHead (some o))) [.countEle (.popHead (some o))]
        { m₂ with nEleNum := m₂.nEleNum - 1 } .idle :=
      .next (by simp) rfl .nil
    have path := taken.trans (reading.trans (given.trans counting))
    have whole := part.append ((Part.mk rfl rfl rfl : Part 0 0 [] [Pc.readEle x]).append
      (part'.append (Part.mk rfl rfl rfl : Part 0 0 [o] [Pc.countEle (.popHead (some o))])))
    have count : m₂.nEleNum - 1 = q.length := by
      have before := rep.nEleNum
      rw [List.length_cons] at before
      rw [← placed]
      simp only [Memory.ends, Memory.link_nEleNum]
      omega
    have after : Represents { m₂ with nEleNum := m₂.nEleNum - 1 } q xs (ys ++ [x]) :=
      held.back _ (by rw [← placed]; rfl) count
    exact whole.serves path (by simp [length, length']) (by simp) after

/-- A node for PushTail: the first of the recycled ones, or a new one. -/
theorem getNode (rep : Represents m q xs ys) (o : Occurrence E) :
    ∃ ps m' ys' x, Path m (.popReadTail (.pushTail o)) ps m' (.setEle o x) ∧ Part 1 0 [] ps ∧
      ps.length = 4 ∧ Held m' q xs ys' x ∧ m'.nEleNum = m.nEleNum := by
  cases ys with
  | nil =>
    have tail : m.ptail (PopCall.pushTail o).chain = none := rep.recycled.ptail
    have path : Path m (.popReadTail (.pushTail o))
        [.popReadTail (.pushTail o), .popReadHead (.pushTail o) none, .newNode o,
          .countNode o m.allocated]
        { m with allocated := m.allocated + 1, nNodeNum := m.nNodeNum + 1 }
            (.setEle o m.allocated) := by
      refine .next (by simp) (by rw [advance, tail]) ?_
      refine .next (by simp) rfl ?_
      refine .next (by simp [PopCall.empty]) rfl ?_
      exact .next (by simp) rfl .nil
    refine ⟨_, _, [], m.allocated, path, ⟨rfl, rfl, rfl⟩, rfl, ?_, rfl⟩
    constructor
    · exact rep.elements.same rfl rfl fun _ _ => rfl
    · exact rep.recycled.same rfl rfl fun _ _ => rfl
    · exact rep.disjoint
    · exact rep.contents
    · have nodes := rep.nNodeNum
      show m.nNodeNum + 1 = _
      omega
    · intro y place
      show y < m.allocated + 1
      rcases place with rfl | place
      · exact Nat.lt_succ_self _
      · exact Nat.lt_succ_of_lt (rep.allocated y place)
    · intro inside
      exact Nat.lt_irrefl _ (rep.allocated _ (.inl inside))
    · exact List.not_mem_nil
  | cons x ys =>
    have recycled : Chained m (PopCall.pushTail o).chain (x :: ys) := rep.recycled
    obtain ⟨ps, taken, part, length⟩ := recycled.pop
    refine ⟨ps, _, ys, x, taken, part, length, ?_, rfl⟩
    have apart := List.disjoint_cons_right.mp rep.disjoint
    constructor
    · exact rep.elements.ends_other (by simp [PopCall.chain])
    · exact rep.recycled.popped
    · exact apart.2
    · exact rep.contents
    · have nodes := rep.nNodeNum
      rw [List.length_cons] at nodes
      show m.nNodeNum = _
      omega
    · intro y place
      apply rep.allocated
      rcases place with rfl | inXs | inYs
      · exact .inr List.mem_cons_self
      · exact .inl inXs
      · exact .inr (List.mem_cons_of_mem _ inYs)
    · exact apart.1
    · exact (List.nodup_cons.mp rep.recycled.once).1

/-- PushTail appends its element. -/
theorem pushTail (rep : Represents m q xs ys) (n : Nat) (e : E) :
    Serves m ((Call.pushTail e).start n) none (q ++ [e]) := by
  obtain ⟨ps, m₁, ys', x, taken, part, length, held, same⟩ := rep.getNode ⟨n, e⟩
  have held' := held.setEle ⟨n, e⟩
  have storing : Path m₁ (.setEle ⟨n, e⟩ x) [.setEle ⟨n, e⟩ x]
      { m₁ with ele := Function.update m₁.ele x (some ⟨n, e⟩) } (.clearNext .pushTail x) :=
    .next (by simp) rfl .nil
  have stored : (Function.update m₁.ele x (some ⟨n, e⟩)) x = some ⟨n, e⟩ :=
    Function.update_self _ _ _
  generalize after : ({ m₁ with ele := Function.update m₁.ele x (some ⟨n, e⟩) } : Memory E) = m₂
    at held' storing
  have kept : m₂.ele x = some ⟨n, e⟩ ∧ m₂.nEleNum = m.nEleNum := by
    rw [← after]
    exact ⟨stored, same⟩
  have elements : Chained m₂ (PushCall.pushTail (E := E)).chain xs := held'.elements
  obtain ⟨ps', given, part', length'⟩ := elements.push (x := x)
  generalize placed : (m₂.link xs x).ends (PushCall.pushTail (E := E)).chain
    (xs ++ [x]) = m₃ at given
  have counting : Path m₃ (.countEle .pushTail) [.countEle .pushTail]
      { m₃ with nEleNum := m₃.nEleNum + 1 } .idle :=
    .next (by simp) rfl .nil
  have path := taken.trans (storing.trans (given.trans counting))
  have whole := part.append ((Part.mk rfl rfl rfl : Part 0 0 [] [Pc.setEle ⟨n, e⟩ x]).append
    (part'.append (Part.mk rfl rfl rfl : Part 0 0 [] [Pc.countEle (E := E) .pushTail])))
  have count : m₃.nEleNum + 1 = q.length + 1 := by
    rw [← placed]
    simp only [Memory.ends, Memory.link_nEleNum, kept.2, rep.nEleNum]
  have after : Represents { m₃ with nEleNum := m₃.nEleNum + 1 } (q ++ [e]) (xs ++ [x]) ys' :=
    held'.last kept.1 _ (by rw [← placed]; rfl) count
  exact whole.serves path (by simp [length, length']) (by simp) after

/-- Each call does what it does on the queue. -/
theorem serve (rep : Represents m q xs ys) (n : Nat) (c : Call E) :
    Serves m (c.start n) (c.serve q).2 (c.serve q).1 := by
  cases c with
  | pushTail e => exact rep.pushTail n e
  | popHead =>
    cases q with
    | nil => exact rep.popEmpty n
    | cons e q => exact rep.popHead n

/-- Calls one after the other. -/
theorem serveAll (rep : Represents m q xs ys) (n : Nat) (calls : List (Call E)) :
    ∃ traces m' xs' ys', performAll n m calls = some (traces, m') ∧
      traces.map returned = Call.answers q calls ∧ (∀ trace ∈ traces, FirstPass trace) ∧
      Represents m' (Call.contents q calls) xs' ys' := by
  induction calls generalizing m q xs ys n with
  | nil => exact ⟨[], m, xs, ys, rfl, rfl, fun _ inside => absurd inside List.not_mem_nil, rep⟩
  | cons c calls ih =>
    obtain ⟨trace, m₁, xs₁, ys₁, ran, first, answer, rep₁⟩ := rep.serve n c
    obtain ⟨traces, m', xs', ys', further, answers, firsts, rep'⟩ := ih rep₁ (n + 1)
    refine ⟨trace :: traces, m', xs', ys', ?_, ?_, ?_, rep'⟩
    · simp only [performAll, ran, further]
      rfl
    · rw [List.map_cons, answer, answers]
      rfl
    · intro other inside
      rcases List.mem_cons.mp inside with rfl | inside
      · exact first
      · exact firsts other inside

end Represents

/-- From the constructor on, whatever new leaves in the nodes, every sequence of calls runs
to its end with every loop in its first pass, and the list is a queue. -/
theorem queue_refined (pnext : Node → Option Node) (ele : Node → Option (Occurrence E))
    (calls : List (Call E)) :
    ∃ traces m xs ys, performAll 0 (Memory.constructed pnext ele) calls = some (traces, m) ∧
      traces.map returned = Call.answers [] calls ∧ (∀ trace ∈ traces, FirstPass trace) ∧
      Represents m (Call.contents [] calls) xs ys := by
  have empty : Represents (Memory.constructed pnext ele) [] [] [] := by
    constructor
    · exact ⟨⟨rfl, rfl, by simp, by simp⟩, List.nodup_nil⟩
    · exact ⟨⟨rfl, rfl, by simp, by simp⟩, List.nodup_nil⟩
    · exact List.disjoint_nil_left _
    · rfl
    · rfl
    · rfl
    · simp
  exact empty.serveAll 0 calls

end TestIOCP.NoLockBiList
