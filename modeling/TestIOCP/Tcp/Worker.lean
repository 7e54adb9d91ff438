import TestIOCP.Tcp.Session
import TestIOCP.Rtsp.Isolation

/-! CTcpWorker and CRtspServer, over the lists that all workers share. -/
namespace TestIOCP.Tcp
open Transition Program
open Engine (Endpoint WorkerType)
open Rtsp (Pooled)

instance : Counted Pooled where
  m_TcpSocket o := o.worker.m_TcpSocket
  withStatus o m_nStatus := { o with worker := { o.worker with m_nStatus } }
  socket_withStatus _ _ := rfl
  counters o := o.counters
  withCounters o counters := { o with counters }

abbrev WorkerCall := Call Pooled

namespace Worker

def read (w : Obj) : WorkerCall Int :=
  transfer w .SOCKET_READ (some w) (RECVBUFSIZE - 4) (-1) (-2) .m_nRecvNum

def write (w : Obj) (datsize : Nat) : WorkerCall Int :=
  transfer w .SOCKET_WRITE (some w) datsize (-1) (-2) .m_nWriteNum

def stop (w : Obj) : WorkerCall Int := do
  setStatus w .stop
  match (← get w).worker.m_TcpSocket with
  | some socket =>
    perform (.closesocket socket)
    set w fun o => { o with worker := { o.worker with m_TcpSocket := none } }
  | none => pure ()
  return 0

def uninitObject (w : Obj) : WorkerCall Int := do
  let _ ← stop w
  return 0

/-- The release test, which ConsumeReq repeats in its branches. -/
def releaseIfOver (w : Obj) : WorkerCall Unit := do
  if ← isOver w then
    perform (.release w)

/-- CTcpWorker sends back what it has received. In CRtspServer the replies are written
while the chunk is parsed; Write changes nothing that the parser reads. -/
def readedDataProcess (type : WorkerType) (w : Obj) (pdatabuf : Option Buf) (env : Rtsp.Env)
    (data : List CString.Byte) : WorkerCall Int := do
  match type with
  | .CTcpWorker =>
    let res ← write w data.length
    bufPush pdatabuf
    return res
  | .CRtspServer =>
    let (server, replies) := Rtsp.ReadedDataProcess env (← get w).server data
    set w fun o => { o with server }
    replies.forM fun reply => discard (write w reply.message.length)
    bufPush pdatabuf
    return 0

/-- A read has received data. -/
def consumeReq (type : WorkerType) (w : Obj) (env : Rtsp.Env) (data : List CString.Byte)
    (error : Bool) (povlp : Req) : WorkerCall Int := do
  let req ← perform (.reqGet povlp)
  if !error then
    match req.m_nOperateType with
    | .SOCKET_READ =>
      count w .m_nRecvedNum
      if data.length = 0 then
        bufPush req.m_pDataBuf
        reqPush povlp
        let _ ← uninitObject w
        releaseIfOver w
        return -1
      let res ← readedDataProcess type w req.m_pDataBuf env data
      set w fun o => { o with worker := { o.worker with res } }
      reqPush povlp
      if (← get w).worker.res < 0 then
        let _ ← uninitObject w
        releaseIfOver w
        return -2
    | .SOCKET_WRITE =>
      count w .m_nWritedNum
      bufPush req.m_pDataBuf
      reqPush povlp
      return 0
    | _ =>
      bufPush req.m_pDataBuf
      reqPush povlp
      let _ ← uninitObject w
      count w .m_nErrorNum
      releaseIfOver w
      return -3
  else
    if req.m_pDataBuf ≠ none then
      bufPush req.m_pDataBuf
    reqPush povlp
    setStatus w .error
    let _ ← uninitObject w
    count w .m_nErrorNum
    releaseIfOver w
    return -4
  let res ← read w
  set w fun o => { o with worker := { o.worker with res } }
  if (← get w).worker.res < 0 then
    let _ ← uninitObject w
    releaseIfOver w
  return 0

def initObject (w : Obj) (insock : Option Sock) : WorkerCall Int := do
  if insock = none then
    return -1
  set w fun o => { o with worker := { o.worker with m_TcpSocket := insock } }
  stock (some w)
  setStatus w .stop
  return 0

def start (w : Obj) : WorkerCall Int := do
  if (← get w).worker.m_nStatus = .run then
    return 1
  if !(← perform (.associateDevice (← get w).worker.m_TcpSocket)) then
    return -1
  zero w .m_nRecvNum
  zero w .m_nRecvedNum
  zero w .m_nWriteNum
  zero w .m_nWritedNum
  if (← read w) = 0 then
    setStatus w .run
    return 0
  else
    return -2

/-- Calls of the listener, replies written from elsewhere, and completions. -/
inductive Entry where
  | initObject (w : Obj) (insock : Option Sock)
  | start (w : Obj)
  | stop (w : Obj)
  | read (w : Obj)
  | write (w : Obj) (datsize : Nat)
  | complete (posted : Posted) (env : Rtsp.Env) (data : List CString.Byte) (error : Bool)

def enter (type : WorkerType) (s : Shared Pooled) :
    Entry → Option (Shared Pooled × Unit × WorkerCall Unit)
  | .initObject w insock => some (s, (), discard (initObject w insock))
  | .start w => some (s, (), discard (start w))
  | .stop w => some (s, (), discard (stop w))
  | .read w => some (s, (), discard (read w))
  | .write w datsize => some (s, (), discard (write w datsize))
  | .complete posted env data error =>
    if posted ∈ s.pending then
      (s.reqs posted.req).m_pObserver.map fun w =>
        ({ s with pending := s.pending.erase posted }, (),
          discard (consumeReq type w env data error posted.req))
    else none

def semantics (type : WorkerType) :
    Semantics (Shared Pooled) Unit (Op Pooled) Res Outcome Entry where
  enter := enter type
  step := step

end Worker

end TestIOCP.Tcp
