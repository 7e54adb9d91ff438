import TestIOCP.Tcp.Worker
import TestIOCP.Tcp.Listener

/-! A CTcpListener together with its CTcpWorker objects: what the handler of an AcceptEx
does with a worker, and what a worker that is over does with its listener, are the
operations of the other class. -/
namespace TestIOCP.Tcp.Accepting
open Transition Program
open Rtsp (Pooled)
open Engine (WorkerType)

/-- starting is the worker whose Start performs the operation. -/
inductive Op where
  | listener (op : Tcp.Op Listener)
  | worker (starting : Option Obj) (op : Tcp.Op Pooled)
  | m_pListener (w : Obj)
  | setListener (w pallocater : Obj)

abbrev Res : Op → Type
  | .listener op => Tcp.Res op
  | .worker _ op => Tcp.Res op
  | .m_pListener _ => Option Obj
  | .setListener _ _ => Unit

abbrev Handler := Program Op Res

def perform (op : Op) : Handler (Res op) := Program.perform op

/-- A worker gives itself to the listener that has started it. -/
def workerOp (starting : Option Obj) : (op : Tcp.Op Pooled) → Handler (Tcp.Res op)
  | .release w => do
    match ← perform (.m_pListener w) with
    | some pallocater =>
      let _ ← (Listener.releaseObject pallocater w).translate fun op => perform (.listener op)
    | none => pure ()
  | op => perform (.worker starting op)

/-- CTcpWorker::InitObject with the listener that calls it. -/
def initWorker (pallocater w : Obj) (insock : Option Sock) : Handler Unit := do
  if (← (Worker.initObject w insock).translate (workerOp none)) = 0 then
    perform (.setListener w pallocater)

def listenerOp (v : Obj) : (op : Tcp.Op Listener) → Handler (Tcp.Res op)
  | .startWorker w insock => do
    initWorker v w insock
    return decide ((← (Worker.start w).translate (workerOp (some w))) = 0)
  | op => perform (.listener op)

/-- The two classes, the listener of each worker, and what has happened: the sockets that
Accept has taken, and the sockets that were closed. -/
structure Shared where
  listener : Tcp.Shared Listener
  worker : Tcp.Shared Pooled
  m_pListener : Obj → Option Obj
  taken : List Sock
  closed : List Sock

/-- The result of a call of the system, and whether the allocator has memory. -/
structure Choice where
  outcome : Outcome
  available : Bool
  deriving DecidableEq, Repr

def closes {F : Type} : Tcp.Op F → List Sock
  | .closesocket socket => [socket]
  | _ => []

/-- A socket leaves the list for Accept, or AcceptEx is called with it. -/
def takes (s : Tcp.Shared Listener) : Tcp.Op Listener → List Sock
  | .socketPop => s.m_SocketList.eles.head?.join.toList
  | .post _ _ q _ _ => (s.reqs q).m_Socket.toList
  | _ => []

def Shared.perform (s : Shared) (c : Choice) : (op : Op) → Shared × Res op
  | .listener op =>
    let (listener, r) := { s.listener with available := c.available }.perform c.outcome op
    ({ s with listener, taken := takes s.listener op ++ s.taken, closed := closes op ++ s.closed },
      r)
  | .worker _ op =>
    let (worker, r) := { s.worker with available := c.available }.perform c.outcome op
    ({ s with worker, closed := closes op ++ s.closed }, r)
  | .m_pListener w => (s, s.m_pListener w)
  | .setListener w pallocater =>
    ({ s with m_pListener := Function.update s.m_pListener w (some pallocater) }, ())

def step (s : Shared) (_ : Unit) (op : Op) (c : Choice) : Option (Shared × Unit × Res op) :=
  let (s', r) := s.perform c op
  some (s', (), r)

/-- Calls of the owner of the listeners, and completions of both classes. -/
inductive Entry where
  | initObject (v : Obj) (named : Bool)
  | start (v : Obj) (attached : Bool)
  | stop (v : Obj)
  | accepted (posted : Posted) (error : Bool)
  | transferred (posted : Posted) (env : Rtsp.Env) (data : List CString.Byte) (error : Bool)

def handler (v : Obj) (p : ListenerCall Int) : Handler Unit := do
  let _ ← p.translate (listenerOp v)

def enter (type : WorkerType) (s : Shared) : Entry → Option (Shared × Unit × Handler Unit)
  | .initObject v named => some (s, (), handler v (Listener.initObject v named))
  | .start v attached => some (s, (), handler v (Listener.start v attached))
  | .stop v => some (s, (), handler v (Listener.stop v))
  | .accepted posted error =>
    if posted ∈ s.listener.pending then
      (s.listener.reqs posted.req).m_pObserver.map fun v =>
        ({ s with listener.pending := s.listener.pending.erase posted }, (),
          handler v (Listener.consumeReq v .SOCKET_LISTEN error posted.req))
    else none
  | .transferred posted env data error =>
    if posted ∈ s.worker.pending then
      (s.worker.reqs posted.req).m_pObserver.map fun w =>
        ({ s with worker.pending := s.worker.pending.erase posted }, (), do
          let _ ← (Worker.consumeReq type w env data error posted.req).translate (workerOp none))
    else none

def semantics (type : WorkerType) : Semantics Shared Unit Op Res Choice Entry where
  enter := enter type
  step := step

/-- No socket has been made, no worker and no request. -/
structure Initial (s : Shared) : Prop where
  listeners : ∀ v, (s.listener.objects v).m_TcpSocket = none
  workers : ∀ w, (s.worker.objects w).worker.m_TcpSocket = none ∧ s.m_pListener w = none
  requests : s.listener.m_IOReqList.eles = [] ∧ s.listener.newReqs = 0 ∧ s.listener.pending = []
  lists : s.listener.m_SocketList.eles = [] ∧ s.listener.m_WorkerList.eles = [] ∧
    s.listener.newWorkers = 0
  history : s.taken = [] ∧ s.closed = []

/-- Where a socket may be that Accept has taken. -/
inductive Place where
  | list
  | acceptEx (posted : Posted)
  | worker (w : Obj)
  | closed
  deriving DecidableEq, Repr

/-- The worker that has the socket is not in m_WorkerList. -/
def Keeps (s : Shared) : Place → Sock → Prop
  | .list, socket => some socket ∈ s.listener.m_SocketList.eles
  | .acceptEx posted, socket =>
    posted ∈ s.listener.pending ∧ (s.listener.reqs posted.req).m_Socket = some socket
  | .worker w, socket =>
    (s.worker.objects w).worker.m_TcpSocket = some socket ∧ w ∉ s.listener.m_WorkerList.eles
  | .closed, socket => socket ∈ s.closed

/-- Every socket that Accept has taken is in one place, and once there; workers in the list
have none. -/
structure Owned (s : Shared) : Prop where
  place : ∀ socket ∈ s.taken, ∃! place, Keeps s place socket
  once : ∀ socket ∈ s.taken,
    s.closed.count socket ≤ 1 ∧ s.listener.m_SocketList.eles.count (some socket) ≤ 1 ∧
      s.listener.pending.countP (fun posted => (s.listener.reqs posted.req).m_Socket =
        some socket) ≤ 1
  idle : ∀ w ∈ s.listener.m_WorkerList.eles, (s.worker.objects w).worker.m_TcpSocket = none

/-- Calls and completions come in any order. -/
def AnyOrder (_ : Shared) (_ : Entry) : Prop := True

instance (s : Shared) (e : Entry) : Decidable (AnyOrder s e) := .isTrue trivial

/-- No condition on the operations of a call. -/
def Unlimited (_ : Shared) (_ : Op) : Prop := True

theorem unlimited (s : Shared) (op : Op) : Unlimited s op := trivial

/-- A connection is not given to a worker that stands in the list once more. -/
def Unshared (s : Shared) : Entry → Prop
  | .accepted posted false => (s.listener.reqs posted.req).m_Socket ≠ none →
    ∀ w rest, s.listener.m_WorkerList.eles = w :: rest → w ∉ rest
  | _ => True

/-- Whether an operation of Start fails. -/
def Fails (c : Choice) : Tcp.Op Pooled → Prop
  | .associateDevice _ | .post _ _ _ _ _ => c.outcome = .failed
  | .bufNew | .reqNew _ => c.available = false
  | _ => False

/-- The Start of a worker that has a socket does not fail. -/
def Undisturbed (s : Shared) : Op → Choice → Prop
  | .worker (some w) op, c => (s.worker.objects w).worker.m_TcpSocket ≠ none → ¬ Fails c op
  | _, _ => True

end TestIOCP.Tcp.Accepting
