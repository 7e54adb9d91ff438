import TestIOCP.Serial
import TestIOCP.Engine.Session
import TestIOCP.Rtsp.Server

/-! The operations of CTcpWorker, CTcpConnecter and CTcpListener with the static lists
from which they take their buffers and IO requests. The reference counts before the
buffers, addresses and byte counts are left out. -/
namespace TestIOCP.Tcp
open Transition Program
open Engine (Counter Endpoint wrap)

abbrev Obj := Nat
abbrev Buf := Nat
abbrev Req := Nat

/-- The fields of CTcpWorkerIOReq, CTcpConnecterIOReq and CTcpListenerIOReq; only the
last has m_Socket, and it has no m_nOperateType. -/
structure IOReq where
  m_pObserver : Option Obj
  m_nOperateType : OperateType
  m_pDataBuf : Option Buf
  m_nBufSize : Nat
  m_Socket : Option Sock
  deriving DecidableEq, Repr

/-- The lists of sockets and of workers are CTcpListener's; a socket is missing when
WSASocket has failed. -/
inductive Op (F : Type) where
  | get (w : Obj)
  | set (w : Obj) (f : F → F)
  | bufPop
  | bufNew
  | bufAllocated
  | bufPush (b : Option Buf)
  | reqPop
  | reqNew (m_pObserver : Option Obj)
  | reqAllocated
  | reqPush (q : Req)
  | reqGet (q : Req)
  | reqSet (q : Req) (f : IOReq → IOReq)
  | memcpy (b : Buf) (size : Nat)
  | post (w : Obj) (s : Option Sock) (q : Req) (b : Option Buf) (len : Nat)
  | wsaSocket
  | closesocket (s : Sock)
  | associateDevice (s : Option Sock)
  | release (w : Obj)
  | socketPop
  | socketAllocated
  | socketPush (s : Option Sock)
  | workerPop
  | workerNew
  | workerAllocated
  | workerPush (w : Obj)
  | startWorker (w : Obj) (insock : Option Sock)

abbrev Res {F : Type} : Op F → Type
  | .get _ => F
  | .bufPop | .bufNew => Option Buf
  | .reqPop | .reqNew _ => Option Req
  | .reqGet _ => IOReq
  | .post _ _ _ _ _ => Outcome
  | .wsaSocket => Option Sock
  | .associateDevice _ | .startWorker _ _ => Bool
  | .socketPop => Option (Option Sock)
  | .workerPop | .workerNew => Option Obj
  | _ => Unit

abbrev Call (F : Type) := Program (Op F) Res

variable {F : Type}

def perform (op : Op F) : Call F (Res op) := Program.perform op
def get (w : Obj) : Call F F := perform (.get w)
def set (w : Obj) (f : F → F) : Call F Unit := perform (.set w f)
def bufPush (b : Option Buf) : Call F Unit := perform (.bufPush b)
def reqPush (q : Req) : Call F Unit := perform (.reqPush q)

def discard {α : Type} (p : Call F α) : Call F Unit := do
  let _ ← p

/-- An operation that the system has accepted and not yet completed, and the object that
has posted it. -/
structure Posted where
  req : Req
  buf : Option Buf
  object : Obj
  socket : Option Sock
  deriving DecidableEq, Repr

/-- The static lists of a class, its objects, what is outstanding, and whether the
allocator has memory. -/
structure Shared (F : Type) where
  objects : Obj → F
  m_BufList : BiList (Option Buf)
  newBufs : Nat
  m_IOReqList : BiList Req
  newReqs : Nat
  reqs : Req → IOReq
  m_SocketList : BiList (Option Sock)
  m_WorkerList : BiList Obj
  newWorkers : Nat
  pending : List Posted
  nextSock : Sock
  available : Bool

def Shared.perform (s : Shared F) (outcome : Outcome) : (op : Op F) → Shared F × Res op
  | .get w => (s, s.objects w)
  | .set w f => ({ s with objects := Function.update s.objects w (f (s.objects w)) }, ())
  | .bufPop =>
    match s.m_BufList.eles with
    | [] => (s, none)
    | b :: rest => ({ s with m_BufList.eles := rest }, b)
  | .bufNew =>
    if s.available then ({ s with newBufs := s.newBufs + 1 }, some s.newBufs) else (s, none)
  | .bufAllocated => ({ s with m_BufList := s.m_BufList.allocated }, ())
  | .bufPush b => ({ s with m_BufList := s.m_BufList.pushTail b }, ())
  | .reqPop =>
    match s.m_IOReqList.eles with
    | [] => (s, none)
    | q :: rest => ({ s with m_IOReqList.eles := rest }, some q)
  | .reqNew m_pObserver =>
    if s.available then
      ({ s with
        newReqs := s.newReqs + 1
        -- The constructor sets m_pObserver only.
        reqs := Function.update s.reqs s.newReqs { s.reqs s.newReqs with m_pObserver } },
        some s.newReqs)
    else (s, none)
  | .reqAllocated => ({ s with m_IOReqList := s.m_IOReqList.allocated }, ())
  | .reqPush q => ({ s with m_IOReqList := s.m_IOReqList.pushTail q }, ())
  | .reqGet q => (s, s.reqs q)
  | .reqSet q f => ({ s with reqs := Function.update s.reqs q (f (s.reqs q)) }, ())
  | .memcpy _ _ | .closesocket _ | .release _ => (s, ())
  | .post w socket q b _ =>
    if outcome ≠ .failed ∧ socket ≠ none then
      ({ s with pending := ⟨q, b, w, socket⟩ :: s.pending }, outcome)
    else (s, .failed)
  | .wsaSocket =>
    if outcome ≠ .failed then ({ s with nextSock := s.nextSock + 1 }, some s.nextSock) else
      (s, none)
  | .associateDevice _ | .startWorker _ _ => (s, decide (outcome ≠ .failed))
  | .socketPop =>
    match s.m_SocketList.eles with
    | [] => (s, none)
    | socket :: rest => ({ s with m_SocketList.eles := rest }, some socket)
  | .socketAllocated => ({ s with m_SocketList := s.m_SocketList.allocated }, ())
  | .socketPush socket => ({ s with m_SocketList := s.m_SocketList.pushTail socket }, ())
  | .workerPop =>
    match s.m_WorkerList.eles with
    | [] => (s, none)
    | w :: rest => ({ s with m_WorkerList.eles := rest }, some w)
  | .workerNew =>
    if s.available then ({ s with newWorkers := s.newWorkers + 1 }, some s.newWorkers) else
      (s, none)
  | .workerAllocated => ({ s with m_WorkerList := s.m_WorkerList.allocated }, ())
  | .workerPush w => ({ s with m_WorkerList := s.m_WorkerList.pushTail w }, ())

def step (s : Shared F) (_ : Unit) (op : Op F) (outcome : Outcome) :
    Option (Shared F × Unit × Res op) :=
  let (s', r) := s.perform outcome op
  some (s', (), r)

/-- A buffer from the list, or a new one. -/
def takeBuf : Call F (Option Buf) := do
  match ← perform .bufPop with
  | some pDataBuf => return some pDataBuf
  | none =>
    match ← perform .bufNew with
    | none => return none
    | some pDataBuf =>
      perform .bufAllocated
      return some pDataBuf

/-- An IO request from the list, or a new one with the observer that its constructor is given. -/
def takeReq (m_pObserver : Option Obj) : Call F (Option Req) := do
  match ← perform .reqPop with
  | some pIOReq => return some pIOReq
  | none =>
    match ← perform (.reqNew m_pObserver) with
    | none => return none
    | some pIOReq =>
      perform .reqAllocated
      return some pIOReq

/-- The counters of an object that receives and sends. -/
class Counted (F : Type) extends Endpoint F where
  counters : F → Counter → Int
  withCounters : F → (Counter → Int) → F

variable [Counted F]

def setStatus (w : Obj) (status : Status) : Call F Unit :=
  set w fun s => Endpoint.withStatus s status

def zero (w : Obj) (c : Counter) : Call F Unit :=
  set w fun s => Counted.withCounters s (Function.update (Counted.counters s) c 0)

def count (w : Obj) (c : Counter) : Call F Unit :=
  set w fun s =>
    Counted.withCounters s (Function.update (Counted.counters s) c
      (wrap (Counted.counters s c + 1)))

def isOver (w : Obj) : Call F Bool := do
  return Engine.Over (Counted.counters (← get w))

/-- Connect and DisconnectEx post a request without a buffer. -/
def postBare (w : Obj) (pIOReq : Req) (m_nOperateType : OperateType) : Call F Int := do
  perform (.reqSet pIOReq fun req =>
    { req with m_pDataBuf := none, m_nBufSize := 0, m_pObserver := some w, m_nOperateType })
  match ← perform (.post w (Endpoint.m_TcpSocket (← get w)) pIOReq none 0) with
  | .failed =>
    setStatus w .error
    reqPush pIOReq
    return -4
  | _ =>
    count w .m_nRecvNum
    return 0

/-- Read and Write: noBuf and noReq are what they return when there is no memory. A
buffer that finds no request is not given back. -/
def transfer (w : Obj) (m_nOperateType : OperateType) (m_pObserver : Option Obj) (m_nBufSize : Nat)
    (noBuf noReq : Int) (c : Counter) : Call F Int := do
  match ← takeBuf with
  | none =>
    setStatus w .error
    return noBuf
  | some pDataBuf =>
    match ← takeReq m_pObserver with
    | none =>
      setStatus w .error
      return noReq
    | some pIOReq =>
      perform (.reqSet pIOReq fun req =>
        { req with m_pObserver := some w, m_nOperateType, m_pDataBuf := some pDataBuf, m_nBufSize })
      if m_nOperateType = .SOCKET_WRITE then
        perform (.memcpy pDataBuf m_nBufSize)
      match ← perform (.post w (Endpoint.m_TcpSocket (← get w)) pIOReq
          (some pDataBuf) m_nBufSize) with
      | .failed =>
        setStatus w .error
        bufPush (some pDataBuf)
        reqPush pIOReq
        return -4
      | _ =>
        count w c
        return 0

/-- InitObject puts a new buffer and a new request in the lists. -/
def stock (m_pObserver : Option Obj) : Call F Unit := do
  let ptempbuf ← perform .bufNew
  bufPush ptempbuf
  perform .bufAllocated
  match ← perform (.reqNew m_pObserver) with
  | none => return
  | some ptempioreq =>
    reqPush ptempioreq
    perform .reqAllocated

end TestIOCP.Tcp
