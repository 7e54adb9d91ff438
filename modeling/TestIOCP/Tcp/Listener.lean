import TestIOCP.Tcp.Session

/-! CTcpListenerBase and CTcpListener. -/
namespace TestIOCP.Tcp
open Transition Program
open Engine (Endpoint wrap)

def LISTENBUFSIZE : Nat := 200

/-- The fields of CTcpListener that its methods read. -/
structure Listener where
  m_TcpSocket : Option Sock
  m_nStatus : Status
  m_nAcceptNum : Int
  deriving DecidableEq, Repr

abbrev ListenerCall := Call Listener

namespace Listener

def status (w : Obj) (m_nStatus : Status) : ListenerCall Unit :=
  set w fun o => { o with m_nStatus }

/-- A socket from the list, or a new one. -/
def takeSocket : ListenerCall (Option (Option Sock)) := do
  match ← perform .socketPop with
  | some sock => return some sock
  | none =>
    match ← perform .wsaSocket with
    | none => return none
    | some sock =>
      perform .socketAllocated
      return some (some sock)

def accept (w : Obj) : ListenerCall Int := do
  match ← takeBuf with
  | none =>
    status w .error
    return -1
  | some pDataBuf =>
    match ← takeSocket with
    | none =>
      status w .error
      bufPush (some pDataBuf)
      return -2
    | some sock =>
      match ← takeReq (some w) with
      | none =>
        status w .error
        bufPush (some pDataBuf)
        perform (.socketPush sock)
        return -3
      | some pIOReq =>
        perform (.reqSet pIOReq fun req =>
          { req with
            m_Socket := sock
            m_pDataBuf := some pDataBuf
            m_nBufSize := LISTENBUFSIZE
            m_pObserver := some w })
        match ← perform (.post w (← get w).m_TcpSocket pIOReq (some pDataBuf) LISTENBUFSIZE) with
        | .failed =>
          status w .error
          bufPush (some pDataBuf)
          perform (.socketPush sock)
          reqPush pIOReq
          return -4
        | _ => return 0

def stop (w : Obj) : ListenerCall Int := do
  status w .stop
  match (← get w).m_TcpSocket with
  | some socket =>
    perform (.closesocket socket)
    set w fun o => { o with m_TcpSocket := none }
  | none => pure ()
  return 0

/-- MakeTcpServerSocket makes the socket; attached is whether a completion port is given. -/
def start (w : Obj) (attached : Bool) : ListenerCall Int := do
  if (← get w).m_nStatus = .run then
    return 1
  let m_TcpSocket ← perform .wsaSocket
  set w fun o => { o with m_TcpSocket }
  if (← get w).m_TcpSocket = none then
    status w .error
    return -1
  if attached then
    if !(← perform (.associateDevice (← get w).m_TcpSocket)) then
      status w .error
      return -2
  if (← accept w) = 0 then
    status w .run
    return 0
  else
    return -3

def takeWorker : ListenerCall (Option Obj) := do
  match ← perform .workerPop with
  | some pworker => return some pworker
  | none =>
    match ← perform .workerNew with
    | none => return none
    | some pworker =>
      perform .workerAllocated
      return some pworker

def acceptNum (w : Obj) (change : Int) : ListenerCall Unit :=
  set w fun o => { o with m_nAcceptNum := wrap (o.m_nAcceptNum + change) }

/-- The worker's InitObject and Start touch no field and no list of the listener. -/
def consumeReq (w : Obj) (ck : OperateType) (error : Bool) (povlp : Req) : ListenerCall Int := do
  if ck = .SOCKET_LISTEN then
    if !error then
      match ← takeWorker with
      | none =>
        let req ← perform (.reqGet povlp)
        match req.m_Socket with
        | some socket => perform (.closesocket socket)
        | none => pure ()
        bufPush req.m_pDataBuf
        reqPush povlp
        return -1
      | some pworker =>
        let req ← perform (.reqGet povlp)
        bufPush req.m_pDataBuf
        reqPush povlp
        if ← perform (.startWorker pworker req.m_Socket) then
          acceptNum w 1
        else
          perform (.workerPush pworker)
    else
      let req ← perform (.reqGet povlp)
      match req.m_Socket with
      | some socket =>
        perform (.closesocket socket)
        perform (.reqSet povlp fun req => { req with m_Socket := none })
      | none => pure ()
      if req.m_pDataBuf ≠ none then
        bufPush req.m_pDataBuf
      reqPush povlp
      return -1
    discard (accept w)
  return 0

/-- A worker that has finished comes back. -/
def releaseObject (w pobject : Obj) : ListenerCall Int := do
  perform (.workerPush pobject)
  acceptNum w (-1)
  return 0

/-- What InitObject puts in the lists of sockets and of workers. -/
def initsize : Nat := 1000

/-- named is whether plocalip is a string. -/
def baseInitObject (w : Obj) (named : Bool) : ListenerCall Int := do
  if !named then
    return -1
  let ptempbuf ← perform .bufNew
  bufPush ptempbuf
  perform .bufAllocated
  (List.replicate initsize ()).forM fun _ => do
    let sock ← perform .wsaSocket
    perform (.socketPush sock)
    perform .socketAllocated
  match ← perform (.reqNew (some w)) with
  | none => return 0
  | some ptempioreq =>
    reqPush ptempioreq
    perform .reqAllocated
    return 0

def initObject (w : Obj) (named : Bool) : ListenerCall Int := do
  let _ ← baseInitObject w named
  (List.replicate initsize ()).forM fun _ => do
    match ← perform .workerNew with
    | none => return
    | some pworker =>
      perform (.workerPush pworker)
      perform .workerAllocated
  return 0

/-- Calls of the owner of listeners, completions, workers that come back, and the memory
that the allocator finds. -/
inductive Entry where
  | initObject (w : Obj) (named : Bool)
  | start (w : Obj) (attached : Bool)
  | stop (w : Obj)
  | accept (w : Obj)
  | complete (posted : Posted) (error : Bool)
  | releaseObject (w pobject : Obj)
  | memory (available : Bool)

def enter (s : Shared Listener) : Entry → Option (Shared Listener × Unit × ListenerCall Unit)
  | .initObject w named => some (s, (), discard (initObject w named))
  | .start w attached => some (s, (), discard (start w attached))
  | .stop w => some (s, (), discard (stop w))
  | .accept w => some (s, (), discard (accept w))
  | .complete posted error =>
    if posted ∈ s.pending then
      (s.reqs posted.req).m_pObserver.map fun w =>
        ({ s with pending := s.pending.erase posted }, (),
          discard (consumeReq w .SOCKET_LISTEN error posted.req))
    else none
  | .releaseObject w pobject => some (s, (), discard (releaseObject w pobject))
  | .memory available => some ({ s with available }, (), .ret ())

def semantics : Semantics (Shared Listener) Unit (Op Listener) Res Outcome Entry where
  enter := enter
  step := step

end Listener

end TestIOCP.Tcp
