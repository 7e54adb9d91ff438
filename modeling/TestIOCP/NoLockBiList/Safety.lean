import TestIOCP.NoLockBiList.Track
import Mathlib.Data.Set.List

/-! What the list guarantees to its callers, and the condition on the
compare-exchanges under which it does. A compare-exchange checks that an end
pointer is unchanged, but not that the node behind it still has the successor,
or still is the only node, that the thread has read before. -/
namespace TestIOCP.NoLockBiList
open Transition
variable {T E : Type} [DecidableEq T]

/-- The nodes met by following pnext from phead. -/
inductive OnChain (m : Memory E) (c : Chain) : Node → Prop where
  | head : m.phead c = some x → OnChain m c x
  | next : OnChain m c x → m.pnext x = some y → OnChain m c y

/-- The nodes from phead to ptail in pnext order. -/
structure Walk (m : Memory E) (c : Chain) (nodes : List Node) : Prop where
  phead : m.phead c = nodes.head?
  ptail : m.ptail c = nodes.getLast?
  pnext : ∀ a b, [a, b] <:+: nodes → m.pnext a = some b
  last : ∀ x, nodes.getLast? = some x → m.pnext x = none

/-- No element is returned twice, no node is on both chains, and a list at rest
holds exactly the elements that were pushed and not yet popped. -/
structure Sound (s : State T E) : Prop where
  once : s.popped.Nodup
  apart : ∀ x, ¬ (OnChain s.memory .ele x ∧ OnChain s.memory .null x)
  rest : (∀ t, s.pc t = .idle) → ∃ nodes held, Walk s.memory .ele nodes ∧
    nodes.map s.memory.ele = held.map some ∧ (s.popped ++ held).Perm s.pushed

/-- A compare-exchange that is about to succeed still finds what its thread read
before: the successor of the head, or a head equal to the tail. -/
def Intact (m : Memory E) : Pc E → Prop
  | .popCasHead c h n => m.phead c.chain = some h → m.pnext h = some n
  | .popCasTail c x => m.ptail c.chain = some x → m.phead c.chain = some x
  | _ => True

def Unrecycled (s : State T E) : Act T E → Prop
  | .step t => Intact s.memory (s.pc t)
  | _ => True

instance (m : Memory E) : (p : Pc E) → Decidable (Intact m p)
  | .popCasHead c h n => inferInstanceAs (Decidable (m.phead c.chain = some h → m.pnext h = some n))
  | .popCasTail c x => inferInstanceAs
    (Decidable (m.ptail c.chain = some x → m.phead c.chain = some x))
  | .idle | .popReadTail _ | .popReadHead _ _ | .popReadNext _ _ | .popClearHead _ _ | .readEle _
  | .newNode _ | .countNode _ _ | .setEle _ _ | .clearNext _ _ | .pushReadTail _ _ |
    .pushCasHead _ _
  | .pushCasTail _ _ _ | .pushSetTail _ _ | .pushSetNext _ _ _ | .countEle _ |
    .fault _ => .isTrue trivial

instance (s : State T E) : (l : Act T E) → Decidable (Unrecycled s l)
  | .step t => inferInstanceAs (Decidable (Intact s.memory (s.pc t)))
  | .pushTail _ _ | .popHead _ => .isTrue trivial

structure Invariant (s : State T E) (L : Chain → List Node) (place : Node → Place T)
    (spot : Occurrence E → Spot T) : Prop where
  shape : Shape s.memory s.pc L place
  track : Track s.memory.ele s.pc (L .ele) s.pushed s.popped spot

/-- Some node sequences and element spots fit the state. -/
def Consistent (s : State T E) : Prop :=
  ∃ L place spot, Invariant s L place spot

/-- Consistent with a sequence of nodes in the element chain. -/
def Queued (s : State T E) (nodes : List Node) : Prop :=
  ∃ L place spot, Invariant s L place spot ∧ L .ele = nodes

omit [DecidableEq T] in
theorem Queued.consistent {s : State T E} {nodes : List Node} (queued : Queued s nodes) :
    Consistent s := by
  obtain ⟨L, place, spot, inv, -⟩ := queued
  exact ⟨L, place, spot, inv⟩

omit [DecidableEq T] in
theorem Initial.queued {s : State T E} (first : Initial s) : Queued s [] := by
  obtain ⟨ends, allocated, _, _, idle, pushed, popped⟩ := first
  refine ⟨fun _ => [], fun _ => .chain .ele, fun _ => .popped,
    ⟨⟨?_, ?_, ?_, ?_, ?_, ?_, ?_, ?_, ?_⟩, ⟨?_, ?_, ?_, ?_, ?_, ?_, ?_, ?_⟩⟩, rfl⟩
  all_goals simp [idle, pushed, popped, ends, Pc.owned, Pc.ending, Pc.linking, Pc.Holds, Pc.carries,
    Pc.filled]

omit [DecidableEq T] in
theorem Initial.consistent {s : State T E} (first : Initial s) : Consistent s :=
  first.queued.consistent

/-- The nodes of the element chain after the next access. -/
def Pc.chainAfter (m : Memory E) (nodes : List Node) : Pc E → List Node
  | .popCasTail .popHead x => if m.ptail .ele = some x then nodes.tail else nodes
  | .popCasHead .popHead h _ => if m.phead .ele = some h then nodes.tail else nodes
  | .pushCasHead .pushTail x => if m.phead .ele = none then nodes ++ [x] else nodes
  | .pushCasTail .pushTail x q => if m.ptail .ele = some q then nodes ++ [x] else nodes
  | _ => nodes

namespace Invariant
variable {m m' : Memory E} {pc : T → Pc E} {pushed popped : List (Occurrence E)}
  {L L' : Chain → List Node} {place place' : Node → Place T} {spot : Occurrence E → Spot T} {t : T}

/-- A step that writes no element and keeps the element chain. -/
theorem keeps (inv : Invariant ⟨m, pc, pushed, popped⟩ L place spot) {p : Pc E}
    (shape : Shape m' (Function.update pc t p) L' place') (ele : m'.ele = m.ele)
    (queue : L' .ele = L .ele) (carries : p.carries m.ele = (pc t).carries m.ele)
    (filled : ∀ x, p.filled = some x → (pc t).filled = some x) :
    Queued ⟨m', Function.update pc t p, pushed, popped⟩ (L .ele) := by
  refine ⟨L', place', spot, ⟨shape, ?_⟩, queue⟩
  simp only [ele, queue]
  exact inv.track.move carries filled

theorem moves (inv : Invariant ⟨m, pc, pushed, popped⟩ L place spot) {p : Pc E}
    (holds : p.Holds m L) (owned : p.owned = (pc t).owned) (ending : p.ending = (pc t).ending)
    (linking : p.linking = (pc t).linking) (carries : p.carries m.ele = (pc t).carries m.ele)
    (filled : ∀ x, p.filled = some x → (pc t).filled = some x) :
    Queued ⟨m, Function.update pc t p, pushed, popped⟩ (L .ele) :=
  inv.keeps (inv.shape.move holds owned ending linking) rfl rfl carries filled

/-- PopHead takes the head or the only node of the element chain. -/
theorem takes (inv : Invariant ⟨m, pc, pushed, popped⟩ L place spot) {p : Pc E} {rest : List Node}
    (shape : Shape m' (Function.update pc t p) L' place') (ele : m'.ele = m.ele)
    (before : L .ele = x :: rest) (after : L' .ele = rest)
    (empty : (pc t).carries m.ele = none) (carries : p.carries m.ele = m.ele x)
    (filled : p.filled = none) :
    Queued ⟨m', Function.update pc t p, pushed, popped⟩ (L .ele).tail := by
  have nodup := inv.shape.nodup .ele
  have track := inv.track
  simp only [before] at nodup track
  obtain ⟨spot', track'⟩ := track.take empty carries filled (List.nodup_cons.mp nodup).1
  refine ⟨L', place', spot', ⟨shape, ?_⟩, by rw [after, before, List.tail_cons]⟩
  simpa only [ele, after] using track'

/-- A PushTail call adds its node to the element chain. -/
theorem gives (inv : Invariant ⟨m, pc, pushed, popped⟩ L place spot) (x : Node) {p : Pc E}
    (shape : Shape m' (Function.update pc t p) L' place') (ele : m'.ele = m.ele)
    (after : L' .ele = L .ele ++ [x]) (carries : (pc t).carries m.ele = m.ele x)
    (filled : (pc t).filled = some x) (empty : p.carries m.ele = none)
    (unfilled : p.filled = none) :
    Queued ⟨m', Function.update pc t p, pushed, popped⟩ (L .ele ++ [x]) := by
  have nodup := shape.nodup .ele
  rw [after] at nodup
  have fresh : x ∉ L .ele := fun member =>
    (List.nodup_append.mp nodup).2.2 x member x (by simp) rfl
  obtain ⟨spot', track'⟩ := inv.track.give carries filled empty unfilled
    (fun y => (by simp [or_comm] : y ∈ L .ele ++ [x] ↔ y = x ∨ y ∈ L .ele)) fresh
  refine ⟨L', place', spot', ⟨shape, ?_⟩, after⟩
  simpa only [ele, after] using track'

theorem popReadHead (inv : Invariant ⟨m, pc, pushed, popped⟩ L place spot)
    (at_ : pc t = .popReadHead c ptailnode) :
    Queued ⟨(advance m (.popReadHead c ptailnode)).1,
      Function.update pc t (advance m (.popReadHead c ptailnode)).2, pushed, popped⟩
      (L .ele) := by
  simp only [advance]
  split
  · cases c
    all_goals
      simp only [PopCall.empty]
      apply inv.moves <;>
        simp [at_, Pc.Holds, Pc.owned, Pc.ending, Pc.linking, Pc.carries, Pc.filled,
          PopCall.carries]
  · split
    all_goals
      apply inv.moves <;>
        simp [at_, Pc.Holds, Pc.owned, Pc.ending, Pc.linking, Pc.carries, Pc.filled]

theorem popReadNext (inv : Invariant ⟨m, pc, pushed, popped⟩ L place spot)
    (at_ : pc t = .popReadNext c pheadnode) :
    Queued ⟨(advance m (.popReadNext c pheadnode)).1,
      Function.update pc t (advance m (.popReadNext c pheadnode)).2, pushed, popped⟩
      (L .ele) := by
  cases pheadnode with
  | none =>
    simp only [advance]
    apply inv.moves <;>
      simp [at_, Pc.Holds, Pc.owned, Pc.ending, Pc.linking, Pc.carries, Pc.filled]
  | some h =>
    simp only [advance]
    split
    all_goals
      apply inv.moves <;>
        simp [at_, Pc.Holds, Pc.owned, Pc.ending, Pc.linking, Pc.carries, Pc.filled]

theorem popCasTail (inv : Invariant ⟨m, pc, pushed, popped⟩ L place spot)
    (at_ : pc t = .popCasTail c x) (intact : Intact m (.popCasTail c x)) :
    Queued ⟨(advance m (.popCasTail c x)).1,
      Function.update pc t (advance m (.popCasTail c x)).2, pushed, popped⟩
      ((Pc.popCasTail c x).chainAfter m (L .ele)) := by
  simp only [advance]
  split
  · rename_i tail
    obtain ⟨single, shape⟩ := inv.shape.popCasTail at_ tail (intact tail)
    cases c with
    | popHead =>
      rw [show (Pc.popCasTail .popHead x).chainAfter m (L .ele) = (L .ele).tail from if_pos tail]
      exact inv.takes shape rfl single (by simp [PopCall.chain])
        (by simp [at_, Pc.carries, PopCall.carries]) rfl rfl
    | pushTail o =>
      exact inv.keeps shape rfl (by simp [PopCall.chain])
        (by simp [at_, Pc.carries, PopCall.carries]) (by simp [Pc.filled])
  · rename_i other
    have same : (Pc.popCasTail c x).chainAfter m (L .ele) = L .ele := by
      cases c with
      | popHead => exact if_neg other
      | pushTail o => rfl
    rw [same]
    apply inv.moves <;>
      simp [at_, Pc.Holds, Pc.owned, Pc.ending, Pc.linking, Pc.carries, Pc.filled]

theorem popCasHead (inv : Invariant ⟨m, pc, pushed, popped⟩ L place spot)
    (at_ : pc t = .popCasHead c h n) (intact : Intact m (.popCasHead c h n)) :
    Queued ⟨(advance m (.popCasHead c h n)).1,
      Function.update pc t (advance m (.popCasHead c h n)).2, pushed, popped⟩
      ((Pc.popCasHead c h n).chainAfter m (L .ele)) := by
  simp only [advance]
  split
  · rename_i head
    obtain ⟨rest, split, shape⟩ := inv.shape.popCasHead at_ head (intact head)
    cases c with
    | popHead =>
      rw [show (Pc.popCasHead .popHead h n).chainAfter m (L .ele) = (L .ele).tail from if_pos head]
      exact inv.takes shape rfl split (by simp [PopCall.chain])
        (by simp [at_, Pc.carries, PopCall.carries]) rfl rfl
    | pushTail o =>
      exact inv.keeps shape rfl (by simp [PopCall.chain])
        (by simp [at_, Pc.carries, PopCall.carries, PopCall.taken])
          (by simp [PopCall.taken, Pc.filled])
  · rename_i other
    have same : (Pc.popCasHead c h n).chainAfter m (L .ele) = L .ele := by
      cases c with
      | popHead => exact if_neg other
      | pushTail o => rfl
    rw [same]
    apply inv.moves <;>
      simp [at_, Pc.Holds, Pc.owned, Pc.ending, Pc.linking, Pc.carries, Pc.filled]

theorem popClearHead (inv : Invariant ⟨m, pc, pushed, popped⟩ L place spot)
    (at_ : pc t = .popClearHead c x) :
    Queued ⟨(advance m (.popClearHead c x)).1,
      Function.update pc t (advance m (.popClearHead c x)).2, pushed, popped⟩ (L .ele) := by
  have shape := inv.shape.popClearHead at_
  cases c
  all_goals
    apply inv.keeps shape rfl rfl <;> simp [at_, Pc.carries, Pc.filled, PopCall.taken]

theorem countNode (inv : Invariant ⟨m, pc, pushed, popped⟩ L place spot)
    (at_ : pc t = .countNode o x) :
    Queued ⟨(advance m (.countNode o x)).1, Function.update pc t (.setEle o x), pushed, popped⟩
      (L .ele) := by
  have shape := inv.shape.move (t := t) (p := .setEle o x) trivial (by simp [at_, Pc.owned])
    (by simp [at_, Pc.ending]) (by simp [at_, Pc.linking])
  exact inv.keeps (shape.fields rfl rfl rfl rfl) rfl rfl (by simp [at_, Pc.carries])
    (by simp [Pc.filled])

/-- PushTail stores its element in the node that it owns. -/
theorem setEle (inv : Invariant ⟨m, pc, pushed, popped⟩ L place spot) (at_ : pc t = .setEle o x) :
    Queued ⟨{ m with ele := Function.update m.ele x (some o) },
      Function.update pc t (.clearNext .pushTail x), pushed, popped⟩ (L .ele) := by
  have shape := inv.shape.move (t := t) (p := .clearNext .pushTail x) trivial
    (by simp [at_, Pc.owned]) (by simp [at_, Pc.ending]) (by simp [at_, Pc.linking])
  have owned : (pc t).owned = some x := by simp [at_, Pc.owned]
  have placed := (inv.shape.owner t x owned).2
  have outside : x ∉ L .ele := by
    intro member
    have := (inv.shape.member .ele x member).2.symm.trans placed
    contradiction
  have others : ∀ u, u ≠ t → (pc u).owned ≠ some x := by
    intro u other ownedU
    have := (inv.shape.owner u x ownedU).2.symm.trans placed
    exact other (Place.thread.inj this)
  exact ⟨L, place, spot, ⟨shape.fields rfl rfl rfl rfl, inv.track.store at_ outside others⟩, rfl⟩

theorem clearNext (inv : Invariant ⟨m, pc, pushed, popped⟩ L place spot)
    (at_ : pc t = .clearNext c x) :
    Queued ⟨(advance m (.clearNext c x)).1, Function.update pc t (.pushReadTail c x), pushed,
      popped⟩ (L .ele) := by
  have shape := inv.shape.clearNext at_
  cases c
  all_goals
    exact inv.keeps shape rfl rfl (by simp [at_, Pc.carries]) (by simp [at_, Pc.filled])

theorem pushReadTail (inv : Invariant ⟨m, pc, pushed, popped⟩ L place spot)
    (at_ : pc t = .pushReadTail c x) :
    Queued ⟨(advance m (.pushReadTail c x)).1,
      Function.update pc t (advance m (.pushReadTail c x)).2, pushed, popped⟩ (L .ele) := by
  have holds : (Pc.pushReadTail c x).Holds m L := at_ ▸ inv.shape.holds t
  simp only [advance]
  split
  all_goals
    cases c <;> apply inv.moves <;>
      simp [at_, Pc.Holds, Pc.owned, Pc.ending, Pc.linking, Pc.carries, Pc.filled]
  all_goals exact holds

theorem pushCasHead (inv : Invariant ⟨m, pc, pushed, popped⟩ L place spot)
    (at_ : pc t = .pushCasHead c x) :
    Queued ⟨(advance m (.pushCasHead c x)).1,
      Function.update pc t (advance m (.pushCasHead c x)).2, pushed, popped⟩
      ((Pc.pushCasHead c x).chainAfter m (L .ele)) := by
  have holds : (Pc.pushCasHead c x).Holds m L := at_ ▸ inv.shape.holds t
  simp only [advance]
  split
  · rename_i head
    obtain ⟨empty, shape⟩ := inv.shape.pushCasHead at_ head
    cases c with
    | pushTail =>
      rw [show (Pc.pushCasHead .pushTail x).chainAfter m (L .ele) = L .ele ++ [x] from if_pos head]
      exact inv.gives x shape rfl (by simp [PushCall.chain] at empty ⊢; simp [empty])
        (by simp [at_, Pc.carries]) (by simp [at_, Pc.filled]) rfl rfl
    | popHead pele =>
      exact inv.keeps shape rfl (by simp [PushCall.chain]) (by simp [at_, Pc.carries])
        (by simp [Pc.filled])
  · rename_i other
    have same : (Pc.pushCasHead c x).chainAfter m (L .ele) = L .ele := by
      cases c with
      | pushTail => exact if_neg other
      | popHead pele => rfl
    rw [same]
    cases c <;> apply inv.moves <;>
      simp [at_, Pc.Holds, Pc.owned, Pc.ending, Pc.linking, Pc.carries, Pc.filled]
    all_goals exact holds

theorem pushCasTail (inv : Invariant ⟨m, pc, pushed, popped⟩ L place spot)
    (at_ : pc t = .pushCasTail c x q) :
    Queued ⟨(advance m (.pushCasTail c x q)).1,
      Function.update pc t (advance m (.pushCasTail c x q)).2, pushed, popped⟩
      ((Pc.pushCasTail c x q).chainAfter m (L .ele)) := by
  have holds : (Pc.pushCasTail c x q).Holds m L := at_ ▸ inv.shape.holds t
  simp only [advance]
  split
  · rename_i tail
    have shape := inv.shape.pushCasTail at_ tail
    cases c with
    | pushTail =>
      rw [show (Pc.pushCasTail .pushTail x q).chainAfter m (L .ele) = L .ele ++ [x] from if_pos tail]
      exact inv.gives x shape rfl (by simp [PushCall.chain]) (by simp [at_, Pc.carries])
        (by simp [at_, Pc.filled]) rfl rfl
    | popHead pele =>
      exact inv.keeps shape rfl (by simp [PushCall.chain]) (by simp [at_, Pc.carries])
        (by simp [Pc.filled])
  · rename_i other
    have same : (Pc.pushCasTail c x q).chainAfter m (L .ele) = L .ele := by
      cases c with
      | pushTail => exact if_neg other
      | popHead pele => rfl
    rw [same]
    cases c <;> apply inv.moves <;>
      simp [at_, Pc.Holds, Pc.owned, Pc.ending, Pc.linking, Pc.carries, Pc.filled]
    all_goals exact holds

theorem pushSetTail (inv : Invariant ⟨m, pc, pushed, popped⟩ L place spot)
    (at_ : pc t = .pushSetTail c x) :
    Queued ⟨(advance m (.pushSetTail c x)).1, Function.update pc t (.countEle c), pushed, popped⟩
      (L .ele) := by
  have shape := inv.shape.pushSetTail at_
  cases c
  all_goals
    exact inv.keeps shape rfl rfl (by simp [at_, Pc.carries]) (by simp [Pc.filled])

theorem pushSetNext (inv : Invariant ⟨m, pc, pushed, popped⟩ L place spot)
    (at_ : pc t = .pushSetNext c x q) :
    Queued ⟨(advance m (.pushSetNext c x q)).1, Function.update pc t (.countEle c), pushed, popped⟩
      (L .ele) := by
  have shape := inv.shape.pushSetNext at_
  cases c
  all_goals
    exact inv.keeps shape rfl rfl (by simp [at_, Pc.carries]) (by simp [Pc.filled])

/-- The end of a call, which may return an element. -/
theorem countEle (inv : Invariant ⟨m, pc, pushed, popped⟩ L place spot)
    (at_ : pc t = .countEle c) :
    Queued ⟨(advance m (.countEle c)).1, Function.update pc t .idle, pushed,
      popped ++ (Pc.countEle c).returns.toList⟩ (L .ele) := by
  have shape := inv.shape.move (t := t) (p := .idle) trivial (by simp [at_, Pc.owned])
    (by simp [at_, Pc.ending]) (by simp [at_, Pc.linking])
  have silent (none_ : (Pc.countEle c).returns = none)
      (carries : (Pc.countEle c).carries m.ele = none) :
      Queued ⟨(advance m (.countEle c)).1, Function.update pc t .idle, pushed,
        popped ++ (Pc.countEle c).returns.toList⟩ (L .ele) := by
    rw [none_, Option.toList_none, List.append_nil]
    refine inv.keeps (shape.fields ?_ ?_ ?_ ?_) ?_ rfl (by rw [at_, carries]; rfl)
      (by simp [Pc.filled])
    all_goals cases c <;> rfl
  cases c with
  | pushTail => exact silent rfl rfl
  | popHead pele =>
    cases pele with
    | none => exact silent rfl rfl
    | some o =>
      obtain ⟨spot', track⟩ := inv.track.return_ (t := t) (o := o) (by simp [at_, Pc.carries])
      exact ⟨L, place, spot', ⟨shape.fields rfl rfl rfl rfl, track⟩, rfl⟩

/-- One access of a thread whose compare-exchange, if it is one, finds what the
thread read before. -/
theorem access (inv : Invariant ⟨m, pc, pushed, popped⟩ L place spot) (t : T)
    (intact : Intact m (pc t)) :
    Queued ⟨(advance m (pc t)).1, Function.update pc t (advance m (pc t)).2, pushed,
      popped ++ (pc t).returns.toList⟩ ((pc t).chainAfter m (L .ele)) := by
  have silent {p : Pc E} (none_ : p.returns = none) : popped ++ p.returns.toList = popped := by
    rw [none_, Option.toList_none, List.append_nil]
  cases at_ : pc t with
  | countEle c => cases c <;> exact inv.countEle at_
  | popCasTail c x =>
    rw [silent rfl]
    exact inv.popCasTail at_ (at_ ▸ intact)
  | popCasHead c h n =>
    rw [silent rfl]
    exact inv.popCasHead at_ (at_ ▸ intact)
  | pushCasHead c x =>
    rw [silent rfl]
    exact inv.pushCasHead at_
  | pushCasTail c x q =>
    rw [silent rfl]
    exact inv.pushCasTail at_
  | popReadHead c ptailnode =>
    rw [silent rfl]
    exact inv.popReadHead at_
  | popReadNext c pheadnode =>
    rw [silent rfl]
    exact inv.popReadNext at_
  | popClearHead c x =>
    rw [silent rfl]
    exact inv.popClearHead at_
  | newNode o =>
    rw [silent rfl]
    exact inv.keeps (inv.shape.newNode at_) rfl rfl (by simp [at_, advance, Pc.carries])
      (by simp [advance, Pc.filled])
  | countNode o x =>
    rw [silent rfl]
    exact inv.countNode at_
  | setEle o x =>
    rw [silent rfl]
    exact inv.setEle at_
  | clearNext c x =>
    rw [silent rfl]
    exact inv.clearNext at_
  | pushReadTail c x =>
    rw [silent rfl]
    exact inv.pushReadTail at_
  | pushSetTail c x =>
    rw [silent rfl]
    exact inv.pushSetTail at_
  | pushSetNext c x q =>
    rw [silent rfl]
    exact inv.pushSetNext at_
  | idle | popReadTail c | readEle x | fault c =>
    rw [silent rfl]
    simp only [advance]
    apply inv.moves <;>
      simp [at_, Pc.Holds, Pc.owned, Pc.ending, Pc.linking, Pc.carries, Pc.filled]

theorem callPushTail (inv : Invariant ⟨m, pc, pushed, popped⟩ L place spot) (at_ : pc t = .idle)
    (e : E) :
    Queued ⟨m, Function.update pc t (.popReadTail (.pushTail ⟨pushed.length, e⟩)),
      pushed ++ [⟨pushed.length, e⟩], popped⟩ (L .ele) := by
  obtain ⟨spot', track⟩ := inv.track.start at_ e
  refine ⟨L, place, spot', ⟨inv.shape.move trivial ?_ ?_ ?_, track⟩, rfl⟩
  all_goals simp [at_, Pc.owned, Pc.ending, Pc.linking]

theorem callPopHead (inv : Invariant ⟨m, pc, pushed, popped⟩ L place spot) (at_ : pc t = .idle) :
    Queued ⟨m, Function.update pc t (.popReadTail .popHead), pushed, popped⟩ (L .ele) := by
  apply inv.moves <;>
    simp [at_, Pc.Holds, Pc.owned, Pc.ending, Pc.linking, Pc.carries, Pc.filled, PopCall.carries]

end Invariant

theorem Consistent.next {s s' : State T E} {l : Act T E} (consistent : Consistent s)
    (unrecycled : Unrecycled s l) (taken : next s l = some s') : Consistent s' := by
  obtain ⟨m, pc, pushed, popped⟩ := s
  obtain ⟨L, place, spot, inv⟩ := consistent
  cases l with
  | pushTail t e =>
    simp only [TestIOCP.NoLockBiList.next] at taken
    split at taken
    · rename_i at_
      cases taken
      exact (inv.callPushTail at_ e).consistent
    · contradiction
  | popHead t =>
    simp only [TestIOCP.NoLockBiList.next] at taken
    split at taken
    · rename_i at_
      cases taken
      exact (inv.callPopHead at_).consistent
    · contradiction
  | step t =>
    simp only [TestIOCP.NoLockBiList.next] at taken
    split at taken
    · cases taken
      exact (inv.access t unrecycled).consistent
    · contradiction

omit [DecidableEq T] in
/-- A node met from phead is in the chain's sequence, or is the last node of a
chain that its taker has not yet cleared phead of. -/
theorem Shape.onChain {m : Memory E} {pc : T → Pc E} {L : Chain → List Node}
    {place : Node → Place T}
    (shape : Shape m pc L place) (met : OnChain m c x) :
    x ∈ L c ∨ ∃ t, (pc t).ending = some c ∧ (pc t).owned = some x ∧ m.pnext x = none := by
  induction met with
  | head head =>
    rename_i x
    rcases shape.ends c with ⟨first, _⟩ | ⟨_, t, ending⟩
    · exact .inl (List.mem_of_head? (first.symm.trans head))
    · have holds := shape.holds t
      cases at_ : pc t <;> simp [at_, Pc.ending] at ending
      all_goals
        subst c
        simp only [at_, Pc.Holds] at holds
      · obtain ⟨_, head', _, next⟩ := holds
        obtain rfl := Option.some.inj (head'.symm.trans head)
        exact .inr ⟨t, by simp [at_, Pc.ending], by simp [at_, Pc.owned], next⟩
      · obtain ⟨single, head', _⟩ := holds
        obtain rfl := Option.some.inj (head'.symm.trans head)
        exact .inl (by simp [single])
  | @next x y _ next ih =>
    rcases ih with member | ⟨t, _, _, none_⟩
    · obtain ⟨before, after, split⟩ := List.append_of_mem member
      cases after with
      | nil =>
        have := shape.last c x (by simp [split])
        simp [this] at next
      | cons z after =>
        have pair : [x, z] <:+: L c := ⟨before, after, by simp [split]⟩
        rcases shape.links c x z pair with link | ⟨none_, _⟩
        · obtain rfl := Option.some.inj (link.symm.trans next)
          exact .inl (by simp [split])
        · simp [none_] at next
    · simp [none_] at next

omit [DecidableEq T] in
theorem Invariant.apart {s : State T E} {L : Chain → List Node} {place : Node → Place T}
    {spot : Occurrence E → Spot T} (inv : Invariant s L place spot) (x : Node) :
    ¬ (OnChain s.memory .ele x ∧ OnChain s.memory .null x) := by
  rintro ⟨onEle, onNull⟩
  rcases inv.shape.onChain onEle with inEle | ⟨t, endsEle, ownsEle, _⟩
  all_goals rcases inv.shape.onChain onNull with inNull | ⟨u, endsNull, ownsNull, _⟩
  · have := (inv.shape.member _ x inEle).2.symm.trans (inv.shape.member _ x inNull).2
    simp at this
  · have := (inv.shape.member _ x inEle).2.symm.trans (inv.shape.owner u x ownsNull).2
    contradiction
  · have := (inv.shape.owner t x ownsEle).2.symm.trans (inv.shape.member _ x inNull).2
    contradiction
  · obtain rfl := Place.thread.inj
      ((inv.shape.owner t x ownsEle).2.symm.trans (inv.shape.owner u x ownsNull).2)
    simp [endsEle] at endsNull

omit [DecidableEq T] in
theorem Invariant.walk {s : State T E} {L : Chain → List Node} {place : Node → Place T}
    {spot : Occurrence E → Spot T} (inv : Invariant s L place spot) (idle : ∀ t, s.pc t = .idle) :
    Walk s.memory .ele (L .ele) := by
  constructor
  · rcases inv.shape.ends .ele with ⟨head, _⟩ | ⟨_, t, ending⟩
    · exact head
    · simp [idle, Pc.ending] at ending
  · rcases inv.shape.ends .ele with ⟨_, tail⟩ | ⟨_, t, ending⟩
    · exact tail
    · simp [idle, Pc.ending] at ending
  · intro a b pair
    rcases inv.shape.links .ele a b pair with link | ⟨_, t, linking⟩
    · exact link
    · simp [idle, Pc.linking] at linking
  · exact inv.shape.last .ele

omit [DecidableEq T] in
/-- At rest the elements of the queue's nodes are those pushed and not popped. -/
theorem Track.rest {ele : Node → Option (Occurrence E)} {pc : T → Pc E} {queue : List Node}
    {pushed popped : List (Occurrence E)} {spot : Occurrence E → Spot T}
    (track : Track ele pc queue pushed popped spot) (idle : ∀ t, pc t = .idle)
    (nodup : queue.Nodup) :
    ∃ held, queue.map ele = held.map some ∧ (popped ++ held).Perm pushed := by
  have elements : queue.map ele ∈ Set.range (List.map some) := by
    rw [Set.range_list_map]
    intro e member
    obtain ⟨x, hx, rfl⟩ := List.mem_map.mp member
    obtain ⟨o, holds, _⟩ := track.queued x hx
    exact ⟨o, holds.symm⟩
  obtain ⟨held, elements⟩ := elements
  have elements := elements.symm
  have of_held : ∀ o ∈ held, ∃ x ∈ queue, ele x = some o := by
    intro o member
    have : some o ∈ queue.map ele := elements ▸ List.mem_map_of_mem member
    simpa using this
  have spot_held : ∀ o ∈ held, ∃ x, spot o = .node x := by
    intro o member
    obtain ⟨x, hx, holds⟩ := of_held o member
    obtain ⟨q, holdsQ, _, placed⟩ := track.queued x hx
    obtain rfl := Option.some.inj (holdsQ.symm.trans holds)
    exact ⟨x, placed⟩
  have heldNodup : held.Nodup := by
    apply List.Nodup.of_map some
    rw [← elements]
    refine nodup.map_on ?_
    intro x hx y hy same
    obtain ⟨o, holdsX, _, placedX⟩ := track.queued x hx
    obtain ⟨q, holdsY, _, placedY⟩ := track.queued y hy
    obtain rfl : o = q := Option.some.inj ((holdsX.symm.trans same).trans holdsY)
    exact Spot.node.inj (placedX.symm.trans placedY)
  have disjoint : popped.Disjoint held := by
    intro o hp hh
    obtain ⟨x, placed⟩ := spot_held o hh
    have := (track.returned o hp).2.symm.trans placed
    contradiction
  refine ⟨held, elements, (List.perm_ext_iff_of_nodup (track.once.append heldNodup disjoint)
    track.distinct).mpr ?_⟩
  intro o
  constructor
  · intro member
    rcases List.mem_append.mp member with returned | inHeld
    · exact (track.returned o returned).1
    · obtain ⟨x, hx, holds⟩ := of_held o inHeld
      obtain ⟨q, holdsQ, known, _⟩ := track.queued x hx
      obtain rfl := Option.some.inj (holdsQ.symm.trans holds)
      exact known
  · intro known
    have place := track.complete o known
    cases at_ : spot o with
    | node x =>
      simp only [at_] at place
      have : some o ∈ held.map some := elements ▸ place.2 ▸ List.mem_map_of_mem place.1
      exact List.mem_append_right _ (by simpa using this)
    | thread t => simp [at_, idle, Pc.carries] at place
    | popped =>
      simp only [at_] at place
      exact List.mem_append_left _ place

omit [DecidableEq T] in
theorem Consistent.sound {s : State T E} (consistent : Consistent s) : Sound s := by
  obtain ⟨L, place, spot, inv⟩ := consistent
  refine ⟨inv.track.once, inv.apart, ?_⟩
  intro idle
  obtain ⟨held, elements, perm⟩ := inv.track.rest idle (inv.shape.nodup .ele)
  exact ⟨L .ele, held, inv.walk idle, elements, perm⟩

/-- In every run in which no compare-exchange succeeds on a recycled node, the
list is sound in every state. -/
theorem sound_of_unrecycled {s : State T E}
    (run : (system T E).ReachableUnder Unrecycled s) : Sound s :=
  (run.invariant (fun _ first => Initial.consistent first)
    (fun _ _ _ consistent unrecycled taken => consistent.next unrecycled taken)).sound

/-- The list after its constructor. -/
def constructed : State Bool Nat where
  memory := ⟨fun _ => none, fun _ => none, fun _ => none, fun _ => none, 0, 0, 0⟩
  pc := fun _ => .idle
  pushed := []
  popped := []

theorem constructed_initial : Initial constructed :=
  ⟨fun _ => ⟨rfl, rfl⟩, rfl, rfl, rfl, fun _ => rfl, rfl, rfl⟩

/-- Two threads that take turns. -/
def turns (n : Nat) : List (Act Bool Nat) :=
  (List.replicate n [.step true, .step false]).flatten

/-- One thread alone. -/
def alone (t : Bool) (n : Nat) : List (Act Bool Nat) :=
  List.replicate n (.step t)

/-- Two pushes at once, then a pop and a push at once. -/
def taking : List (Act Bool Nat) :=
  List.flatten [[.pushTail true 10, .pushTail false 20], turns 10, alone false 2,
    [.popHead true, .pushTail false 30], turns 10]

theorem taking_runs : ((system Bool Nat).runUnder Unrecycled constructed taking).isSome := by
  decide +kernel

theorem sound_after_taking :
    ∃ s, (system Bool Nat).runUnder Unrecycled constructed taking = some s ∧ Sound s := by
  obtain ⟨s, ran⟩ := Option.isSome_iff_exists.mp taking_runs
  exact ⟨s, ran, sound_of_unrecycled (System.runUnder_reachable (.initial constructed_initial) ran)⟩

/-- A PopHead call reads the head node and its successor and is overtaken by two
pops and a push, which recycle the head node. -/
def recycling : List (Act Bool Nat) :=
  List.flatten [.pushTail true 10 :: alone true 10, .pushTail true 20 :: alone true 10,
    .popHead false :: alone false 3,
    .popHead true :: alone true 10, .popHead true :: alone true 10,
    .pushTail true 30 :: alone true 10, alone false 7, .popHead true :: alone true 10]

theorem recycling_pops_twice :
    ((system Bool Nat).run constructed recycling).map State.popped =
      some [⟨0, 10⟩, ⟨1, 20⟩, ⟨2, 30⟩, ⟨1, 20⟩] := by
  decide +kernel

theorem unsound_when_recycled :
    ¬ ∀ s, (system Bool Nat).Reachable s → Sound s := by
  intro sound
  cases ran : (system Bool Nat).run constructed recycling with
  | none => simpa [ran] using recycling_pops_twice
  | some s =>
    have popped : s.popped = [⟨0, 10⟩, ⟨1, 20⟩, ⟨2, 30⟩, ⟨1, 20⟩] := by
      simpa [ran] using recycling_pops_twice
    have once := (sound s (System.run_reachable (.initial constructed_initial) ran)).once
    rw [popped] at once
    exact absurd once (by decide)

end TestIOCP.NoLockBiList
