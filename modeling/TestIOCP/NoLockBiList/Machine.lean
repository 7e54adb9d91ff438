import TestIOCP.Transition
import Mathlib.Logic.Function.Basic

/-! CNoLockBiList as its threads run it: one step is one read or write of a
shared field or one interlocked operation, in the order of the source. The
element chain and the recycled-node chain run the same two loops, so a call
carries the chain it works on. The pprev fields are written but never read and
are left out. -/
namespace TestIOCP.NoLockBiList
open Transition

abbrev Node := Nat

/-- The two chains: phead to ptail, and pnullhead to pnulltail. -/
inductive Chain where
  | ele
  | null
  deriving DecidableEq, Repr

/-- One PushTail call and the element it pushes. Equal elements pushed twice
are two occurrences. -/
structure Occurrence (E : Type) where
  call : Nat
  ele : E
  deriving DecidableEq, Repr

/-- The fields of the list and of its nodes. A null pointer is none; allocated
counts the nodes that new has returned. -/
structure Memory (E : Type) where
  phead : Chain → Option Node
  ptail : Chain → Option Node
  pnext : Node → Option Node
  ele : Node → Option (Occurrence E)
  allocated : Nat
  nEleNum : Int
  nNodeNum : Int

/-- The pop loop runs in PopHead on the element chain, and in PopNullHead on
behalf of PushTail. -/
inductive PopCall (E : Type) where
  | popHead
  | pushTail (o : Occurrence E)
  deriving DecidableEq, Repr

def PopCall.chain : PopCall E → Chain
  | .popHead => .ele
  | .pushTail _ => .null

/-- The push loop runs in PushTail on the element chain, and in PushNullTail on
behalf of PopHead, which keeps the element it has read. -/
inductive PushCall (E : Type) where
  | pushTail
  | popHead (pele : Option (Occurrence E))
  deriving DecidableEq, Repr

def PushCall.chain : PushCall E → Chain
  | .pushTail => .ele
  | .popHead _ => .null

/-- Where a thread stands: the access it performs next and its local variables. -/
inductive Pc (E : Type) where
  | idle
  | popReadTail (c : PopCall E)
  | popReadHead (c : PopCall E) (ptailnode : Option Node)
  | popReadNext (c : PopCall E) (pheadnode : Option Node)
  | popCasTail (c : PopCall E) (ptailnode : Node)
  | popCasHead (c : PopCall E) (pheadnode ptailnode : Node)
  | popClearHead (c : PopCall E) (ptailnode : Node)
  | readEle (pnode : Node)
  | newNode (o : Occurrence E)
  | countNode (o : Occurrence E) (pnode : Node)
  | setEle (o : Occurrence E) (pnode : Node)
  | clearNext (c : PushCall E) (pnode : Node)
  | pushReadTail (c : PushCall E) (pnode : Node)
  | pushCasHead (c : PushCall E) (pnode : Node)
  | pushCasTail (c : PushCall E) (pnode ptailnode : Node)
  | pushSetTail (c : PushCall E) (pnode : Node)
  | pushSetNext (c : PushCall E) (pnode ptailnode : Node)
  | countEle (c : PushCall E)
  | fault (c : PopCall E)
  deriving DecidableEq, Repr

/-- The first statement after the pop loop has taken a node. -/
def PopCall.taken (c : PopCall E) (pnode : Node) : Pc E :=
  match c with
  | .popHead => .readEle pnode
  | .pushTail o => .setEle o pnode

/-- The first statement after the pop loop has found ptail null. -/
def PopCall.empty : PopCall E → Pc E
  | .popHead => .idle
  | .pushTail o => .newNode o

/-- One access. Reading pnext of a null pheadnode is an access violation. -/
def advance (m : Memory E) : Pc E → Memory E × Pc E
  | .idle => (m, .idle)
  | .popReadTail c => (m, .popReadHead c (m.ptail c.chain))
  | .popReadHead c ptailnode =>
    let pheadnode := m.phead c.chain
    match ptailnode with
    | none => (m, c.empty)
    | some t => if pheadnode = some t then (m, .popCasTail c t) else (m, .popReadNext c pheadnode)
  | .popReadNext c none => (m, .fault c)
  | .popReadNext c (some h) =>
    match m.pnext h with
    | none => (m, .popReadTail c)
    | some n => (m, .popCasHead c h n)
  | .popCasTail c t =>
    if m.ptail c.chain = some t then
      ({ m with ptail := Function.update m.ptail c.chain none }, .popClearHead c t)
    else (m, .popReadTail c)
  | .popCasHead c h n =>
    if m.phead c.chain = some h then
      ({ m with phead := Function.update m.phead c.chain (some n) }, c.taken h)
    else (m, .popReadTail c)
  | .popClearHead c t =>
    ({ m with phead := Function.update m.phead c.chain none }, c.taken t)
  | .readEle pnode => (m, .clearNext (.popHead (m.ele pnode)) pnode)
  | .newNode o => ({ m with allocated := m.allocated + 1 }, .countNode o m.allocated)
  | .countNode o pnode => ({ m with nNodeNum := m.nNodeNum + 1 }, .setEle o pnode)
  | .setEle o pnode =>
    ({ m with ele := Function.update m.ele pnode (some o) }, .clearNext .pushTail pnode)
  | .clearNext c pnode =>
    ({ m with pnext := Function.update m.pnext pnode none }, .pushReadTail c pnode)
  | .pushReadTail c pnode =>
    match m.ptail c.chain with
    | none => (m, .pushCasHead c pnode)
    | some t => (m, .pushCasTail c pnode t)
  | .pushCasHead c pnode =>
    if m.phead c.chain = none then
      ({ m with phead := Function.update m.phead c.chain (some pnode) }, .pushSetTail c pnode)
    else (m, .pushReadTail c pnode)
  | .pushCasTail c pnode t =>
    if m.ptail c.chain = some t then
      ({ m with ptail := Function.update m.ptail c.chain (some pnode) }, .pushSetNext c pnode t)
    else (m, .pushReadTail c pnode)
  | .pushSetTail c pnode =>
    ({ m with ptail := Function.update m.ptail c.chain (some pnode) }, .countEle c)
  | .pushSetNext c pnode t =>
    ({ m with pnext := Function.update m.pnext t (some pnode) }, .countEle c)
  | .countEle .pushTail => ({ m with nEleNum := m.nEleNum + 1 }, .idle)
  | .countEle (.popHead _) => ({ m with nEleNum := m.nEleNum - 1 }, .idle)
  | .fault c => (m, .fault c)

/-- What a PopHead call returns with this step, if it returns an element. -/
def Pc.returns : Pc E → Option (Occurrence E)
  | .countEle (.popHead pele) => pele
  | _ => none

/-- The list, its threads, and the history: the elements of the PushTail calls
made, in call order, and the elements PopHead calls have returned. -/
structure State (T E : Type) where
  memory : Memory E
  pc : T → Pc E
  pushed : List (Occurrence E)
  popped : List (Occurrence E)

inductive Act (T E : Type) where
  | pushTail (t : T) (e : E)
  | popHead (t : T)
  | step (t : T)
  deriving DecidableEq, Repr

variable {T E : Type} [DecidableEq T]

def Pc.running : Pc E → Bool
  | .idle | .fault _ => false
  | _ => true

/-- An idle thread may start a call at any time; a running one performs its
next access. -/
def next (s : State T E) : Act T E → Option (State T E)
  | .pushTail t e =>
    match s.pc t with
    | .idle =>
      let o : Occurrence E := ⟨s.pushed.length, e⟩
      some { s with
        pc := Function.update s.pc t (.popReadTail (.pushTail o))
        pushed := s.pushed ++ [o] }
    | _ => none
  | .popHead t =>
    match s.pc t with
    | .idle => some { s with pc := Function.update s.pc t (.popReadTail .popHead) }
    | _ => none
  | .step t =>
    if (s.pc t).running then
      some { s with
        memory := (advance s.memory (s.pc t)).1
        pc := Function.update s.pc t (advance s.memory (s.pc t)).2
        popped := s.popped ++ (s.pc t).returns.toList }
    else none

/-- The constructor: all pointers null. What new leaves in a node is arbitrary. -/
def Initial (s : State T E) : Prop :=
  (∀ c, s.memory.phead c = none ∧ s.memory.ptail c = none) ∧ s.memory.allocated = 0 ∧
    s.memory.nEleNum = 0 ∧ s.memory.nNodeNum = 0 ∧
    (∀ t, s.pc t = .idle) ∧ s.pushed = [] ∧ s.popped = []

def system (T E : Type) [DecidableEq T] : System (State T E) (Act T E) where
  initial := Initial
  next := next

end TestIOCP.NoLockBiList
