import TestIOCP.Engine.Session

/-! CTcpWorker and CTcpListener. Strings, addresses and byte counts, which only the
debug output reads, are left out. -/
namespace TestIOCP.Engine
open Transition

/-- The fields of CTcpWorker that its methods read. -/
structure Worker where
  m_TcpSocket : Option Sock
  m_nStatus : Status
  res : Int
  deriving DecidableEq, Repr

instance : Endpoint Worker where
  m_TcpSocket s := s.m_TcpSocket
  withStatus s m_nStatus := { s with m_nStatus }
  socket_withStatus _ _ := rfl

/-- The argument of the template CTcpListener. -/
inductive WorkerType where
  | CTcpWorker
  | CRtspServer
  deriving DecidableEq, Repr

abbrev WorkerCall := Call Worker

def stop (w : Obj) : WorkerCall Int := do
  set w fun s => { s with m_nStatus := .stop }
  let this ← get w
  match this.m_TcpSocket with
  | some socket =>
    perform (.closesocket socket)
    set w fun s => { s with m_TcpSocket := none }
  | none => pure ()
  return 0

def uninitObject (w : Obj) : WorkerCall Int := do
  let _ ← stop w
  return 0

def read (w : Obj) : WorkerCall Int :=
  postCounted w .SOCKET_READ .m_nRecvNum

def write (w : Obj) : WorkerCall Int :=
  postCounted w .SOCKET_WRITE .m_nWriteNum

def isOver (w : Obj) : WorkerCall Bool :=
  perform (.isOver w)

/-- CTcpListener::ReleaseObject. -/
def releaseObject (w : Obj) : WorkerCall Int := do
  perform (.release w)
  perform (.acceptNum (-1))
  return 0

/-- The release test, which ConsumeReq repeats in its branches. -/
def releaseIfOver (w : Obj) : WorkerCall Unit := do
  if ← isOver w then
    let _ ← releaseObject w

/-- The replies to what was received; rtsp_send_reply ignores what Write returns. -/
def writes (w : Obj) : Nat → WorkerCall Unit
  | 0 => return
  | n + 1 => do
    let _ ← write w
    writes w n

def readedDataProcess (type : WorkerType) (w : Obj) : WorkerCall Int := do
  match type with
  | .CTcpWorker => write w
  | .CRtspServer =>
    writes w (← perform (.replies w))
    return 0

def consumeReq (type : WorkerType) (bytenumber : Nat) (error : Bool) (povlp : IOReq) :
    WorkerCall Int := do
  let w := povlp.m_pObserver
  if !error then
    match povlp.m_nOperateType with
    | .SOCKET_READ =>
      count w .m_nRecvedNum
      if bytenumber = 0 then
        let _ ← uninitObject w
        releaseIfOver w
        return -1
      let res ← readedDataProcess type w
      set w fun s => { s with res }
      if (← get w).res < 0 then
        let _ ← uninitObject w
        releaseIfOver w
        return -2
    | .SOCKET_WRITE =>
      count w .m_nWritedNum
      return 0
    | _ =>
      let _ ← uninitObject w
      count w .m_nErrorNum
      releaseIfOver w
      return -3
  else
    set w fun s => { s with m_nStatus := .error }
    let _ ← uninitObject w
    count w .m_nErrorNum
    releaseIfOver w
    return -4
  let res ← read w
  set w fun s => { s with res }
  if (← get w).res < 0 then
    let _ ← uninitObject w
    releaseIfOver w
  return 0

def initObject (w : Obj) (insock : Option Sock) : WorkerCall Int := do
  if insock = none then
    return -1
  set w fun s => { s with m_TcpSocket := insock }
  set w fun s => { s with m_nStatus := .stop }
  return 0

def start (w : Obj) : WorkerCall Int := do
  if (← get w).m_nStatus = .run then
    return 1
  if !(← perform (.associateDevice (← get w).m_TcpSocket)) then
    return -1
  zero w .m_nRecvNum
  zero w .m_nRecvedNum
  zero w .m_nWriteNum
  zero w .m_nWritedNum
  if (← read w) = 0 then
    set w fun s => { s with m_nStatus := .run }
    return 0
  else
    return -2

def takeWorker : WorkerCall Obj := do
  match ← perform .workerPop with
  | some pworker => return pworker
  | none => perform .workerNew

/-- CTcpListener::ConsumeReq for the completion of an AcceptEx on m_Socket. The next
Accept call touches no worker. -/
def accepted (error : Bool) (m_Socket : Sock) : WorkerCall Int := do
  if !error then
    let pworker ← takeWorker
    let _ ← initObject pworker (some m_Socket)
    let res ← start pworker
    if res = 0 then
      perform (.acceptNum 1)
    else
      perform (.workerPush pworker)
    return 0
  else
    perform (.closesocket m_Socket)
    return -1

/-- The events of the completion port. -/
inductive Entry where
  | accept (socket : Sock) (error : Bool)
  | complete (posted : Posted) (bytenumber : Nat) (error : Bool)
  deriving DecidableEq, Repr

/-- A new connection has a socket that is not open yet; a completion is delivered
once, with any outcome. -/
def enter (type : WorkerType) (s : Shared Worker) : Entry →
    Option (Shared Worker × Task × WorkerCall Unit)
  | .accept socket error =>
    if socket ∈ s.sockets then none
    else some ({ s with sockets := socket :: s.sockets }, .idle, discard (accepted error socket))
  | .complete posted bytenumber error =>
    if posted ∈ s.pending then
      some ({ s with pending := s.pending.erase posted },
        .working posted.req.m_pObserver true false,
        discard (consumeReq type bytenumber error posted.req))
    else none

def semantics (type : WorkerType) :
    Semantics (Shared Worker) Task (Op Worker) Res Choice Entry where
  enter := enter type
  step := step

/-- No connection yet; workers that are not allocated are as the constructor leaves
them, which does not set m_nErrorNum, m_nStatus and res. -/
structure Initial (s : Shared Worker) : Prop where
  m_WorkerList : s.m_WorkerList = List.range s.allocated
  constructed : ∀ w, (s.objects w).m_TcpSocket = none ∧
    ∀ c, c ≠ .m_nErrorNum → s.counters w c = 0
  pending : s.pending = []
  sockets : s.sockets = [] ∧ s.associated = []
  history : s.serving = [] ∧ s.begun = [] ∧ s.released = []

/-- The listener, its workers and any number of threads of the port. -/
def system (T : Type) [DecidableEq T] (type : WorkerType) :
    System (Config T (Shared Worker) Task (Op Worker) Res) (Label T Choice Entry) :=
  (semantics type).system Initial .idle

end TestIOCP.Engine
