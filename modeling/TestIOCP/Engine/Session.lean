import TestIOCP.Program
import TestIOCP.CompletionPort
import Mathlib.Algebra.Group.Int.Defs
import Mathlib.Algebra.Group.Nat.Defs

/-! The operations of CTcpWorker, CTcpListener and CTcpConnecter: an access to a
field of an object, a call of the system, a step on the list of pooled workers.
The lists of buffers and of IO requests are left out: they hand out objects that
nobody else uses, so the fields of a posted request are those its caller set. -/
namespace TestIOCP.Engine
open Transition

abbrev Obj := Nat

/-- The counters that IsOver compares. -/
inductive Counter where
  | m_nRecvNum
  | m_nRecvedNum
  | m_nErrorNum
  | m_nWriteNum
  | m_nWritedNum
  deriving DecidableEq, Repr

/-- The counters of posted operations; the others count completions. -/
def Counter.posts : Counter → Bool
  | .m_nRecvNum | .m_nWriteNum => true
  | .m_nRecvedNum | .m_nErrorNum | .m_nWritedNum => false

/-- A long of 32 bits. -/
def wrap (i : Int) : Int := i.bmod (2 ^ 32)

structure IOReq where
  m_pObserver : Obj
  m_nOperateType : OperateType
  deriving DecidableEq, Repr

/-- F holds the fields of an object other than the counters. isOver evaluates the
comparison of IsOver, release is the step that ReleaseObject starts with, and
replies is how often the data of a read makes the object write. -/
inductive Op (F : Type) where
  | get (w : Obj)
  | set (w : Obj) (f : F → F)
  | zero (w : Obj) (c : Counter)
  | count (w : Obj) (c : Counter)
  | isOver (w : Obj)
  | associateDevice (s : Option Sock)
  | closesocket (s : Sock)
  | post (s : Option Sock) (req : IOReq)
  | replies (w : Obj)
  | release (w : Obj)
  | workerPop
  | workerNew
  | workerPush (w : Obj)
  | acceptNum (change : Int)

abbrev Res {F : Type} : Op F → Type
  | .get _ => F
  | .isOver _ | .associateDevice _ => Bool
  | .post _ _ => Outcome
  | .replies _ => Nat
  | .workerPop => Option Obj
  | .workerNew => Obj
  | _ => Unit

abbrev Call (F : Type) := Program (Op F) Res

variable {F : Type}

def perform (op : Op F) : Call F (Res op) := Program.perform op
def get (w : Obj) : Call F F := perform (.get w)
def set (w : Obj) (f : F → F) : Call F Unit := perform (.set w f)
def zero (w : Obj) (c : Counter) : Call F Unit := perform (.zero w c)
def count (w : Obj) (c : Counter) : Call F Unit := perform (.count w c)

def discard {F α : Type} (p : Call F α) : Call F Unit := do
  let _ ← p

/-- An operation that is posted and not yet dequeued, and the connection that its
object served when it was posted. -/
structure Posted where
  req : IOReq
  connection : Nat
  deriving DecidableEq, Repr

/-- What a running call still has to do with an object: it holds a worker that is in
no list, with some counters set to zero; it works on an object, and the completion it
handles or the operation it has posted is not counted yet; it has found IsOver true. -/
inductive Task where
  | idle
  | holding (w : Obj) (zeroed : List Counter)
  | working (w : Obj) (unhandled uncounted : Bool)
  | ending (w : Obj)
  deriving DecidableEq, Repr

/-- The objects, the static list of workers, the completion port. The fields after
sockets are the history: connections are numbered for each object, serving lists the
objects with a started connection that no IsOver has found over, begun and released
the connections that were started and for which ReleaseObject was called. -/
structure Shared (F : Type) where
  objects : Obj → F
  counters : Obj → Counter → Int
  m_WorkerList : List Obj
  allocated : Nat
  m_nAcceptNum : Int
  pending : List Posted
  sockets : List Sock
  associated : List Sock
  connection : Obj → Nat
  serving : List Obj
  begun : List (Obj × Nat)
  released : List (Obj × Nat)

/-- The comparison of IsOver. -/
def Over (counters : Counter → Int) : Prop :=
  wrap (counters .m_nWriteNum + counters .m_nRecvNum) ≤
    wrap (counters .m_nRecvedNum + counters .m_nWritedNum + counters .m_nErrorNum)

instance (counters : Counter → Int) : Decidable (Over counters) :=
  inferInstanceAs (Decidable (_ ≤ _))

structure Choice where
  outcome : Outcome := .success
  replies : Nat := 0
  deriving DecidableEq, Repr

def Shared.write (s : Shared F) (w : Obj) (c : Counter) (i : Int) : Shared F :=
  { s with counters := Function.update s.counters w (Function.update (s.counters w) c i) }

/-- A worker leaves the list for a new connection. -/
def Shared.take (s : Shared F) (w : Obj) : Shared F :=
  { s with connection := Function.update s.connection w (s.connection w + 1) }

/-- The first operation of a connection starts it. -/
def Shared.begin (s : Shared F) (l : Task) (w : Obj) : Shared F :=
  match l with
  | .holding _ _ => { s with serving := w :: s.serving, begun := (w, s.connection w) :: s.begun }
  | _ => s

/-- What is left of a task after an operation. -/
def Task.after (l : Task) : (op : Op F) → Res op → Task
  | .zero w c, _ =>
    match l with
    | .holding _ zeroed => .holding w (c :: zeroed)
    | l => l
  | .count w c, _ =>
    match l with
    | .working _ unhandled uncounted =>
      if c.posts then .working w unhandled false else .working w false uncounted
    | l => l
  | .isOver w, over_ => if over_ then .ending w else l
  | .post _ req, outcome =>
    match outcome with
    | .failed => l
    | _ => .working req.m_pObserver false true
  | .release _, _ | .workerPush _, _ => .idle
  | .workerPop, found =>
    match found with
    | none => l
    | some w => .holding w []
  | .workerNew, w => .holding w []
  | _, _ => l

/-- The effect of an operation on the shared state. -/
def Shared.perform (s : Shared F) (l : Task) (choice : Choice) :
    (op : Op F) → Shared F × Res op
  | .get w => (s, s.objects w)
  | .set w f => ({ s with objects := Function.update s.objects w (f (s.objects w)) }, ())
  | .zero w c => (s.write w c 0, ())
  | .count w c => (s.write w c (wrap (s.counters w c + 1)), ())
  | .isOver w =>
    if Over (s.counters w) then ({ s with serving := s.serving.filter (· ≠ w) },
      true) else (s, false)
  | .associateDevice socket =>
    match socket with
    | none => (s, false)
    | some socket =>
      if socket ∈ s.sockets ∧ socket ∉ s.associated ∧ choice.outcome ≠ .failed then
        ({ s with associated := socket :: s.associated }, true)
      else (s, false)
  | .closesocket socket =>
    ({ s with sockets := s.sockets.erase socket, associated := s.associated.erase socket }, ())
  | .post socket req =>
    if (∃ h ∈ s.sockets, socket = some h) ∧ choice.outcome ≠ .failed then
      let s := s.begin l req.m_pObserver
      ({ s with pending := ⟨req, s.connection req.m_pObserver⟩ :: s.pending }, choice.outcome)
    else (s, .failed)
  | .replies _ => (s, choice.replies)
  | .release w =>
    ({ s with
      m_WorkerList := s.m_WorkerList ++ [w]
      released := (w, s.connection w) :: s.released }, ())
  | .workerPop =>
    match s.m_WorkerList with
    | [] => (s, none)
    | w :: rest => ({ s with m_WorkerList := rest }.take w, some w)
  | .workerNew => ({ s with allocated := s.allocated + 1 }.take s.allocated, s.allocated)
  | .workerPush w => ({ s with m_WorkerList := s.m_WorkerList ++ [w] }, ())
  | .acceptNum change => ({ s with m_nAcceptNum := wrap (s.m_nAcceptNum + change) }, ())

/-- The fields that posting an operation uses. -/
class Endpoint (F : Type) where
  m_TcpSocket : F → Option Sock
  withStatus : F → Status → F
  socket_withStatus : ∀ s status, m_TcpSocket (withStatus s status) = m_TcpSocket s

/-- Connect, Read and Write post an operation and count it. -/
def postCounted [Endpoint F] (w : Obj) (type : OperateType) (c : Counter) : Call F Int := do
  let this ← get w
  match ← perform (.post (Endpoint.m_TcpSocket this) ⟨w, type⟩) with
  | .failed =>
    set w fun s => Endpoint.withStatus s .error
    return -4
  | _ =>
    count w c
    return 0

def step (s : Shared F) (l : Task) (op : Op F) (choice : Choice) :
    Option (Shared F × Task × Res op) :=
  let (s', r) := s.perform l choice op
  some (s', l.after op r, r)

end TestIOCP.Engine
