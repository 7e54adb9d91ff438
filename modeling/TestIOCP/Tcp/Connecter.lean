import TestIOCP.Tcp.Session
import TestIOCP.Engine.Connecter

/-! CTcpConnecter, over the lists that all connecters share. -/
namespace TestIOCP.Tcp
open Transition Program
open Engine (Endpoint Counter)

/-- The fields of CTcpConnecter that its methods read. -/
structure Connecter extends Engine.Connecter where
  counters : Counter → Int

instance : Counted Connecter where
  m_TcpSocket o := o.m_TcpSocket
  withStatus o m_nStatus := { o with m_nStatus }
  socket_withStatus _ _ := rfl
  counters o := o.counters
  withCounters o counters := { o with counters }

abbrev ConnecterCall := Call Connecter

namespace Connecter

def connect (w : Obj) : ConnecterCall Int := do
  match ← takeReq none with
  | none =>
    setStatus w .error
    return -3
  | some pIOReq => postBare w pIOReq .SOCKET_CONNECT

def read (w : Obj) : ConnecterCall Int :=
  transfer w .SOCKET_READ none (RECVBUFSIZE - 4) (-1) (-2) .m_nRecvNum

def write (w : Obj) (datsize : Nat) : ConnecterCall Int := do
  let this ← get w
  if this.m_nStatus ≠ .run || !this.m_bConnected then
    return -1
  transfer w .SOCKET_WRITE none datsize (-2) (-3) .m_nWriteNum

def stop (w : Obj) : ConnecterCall Int := do
  setStatus w .stop
  match (← get w).m_TcpSocket with
  | some socket =>
    if (← get w).m_bConnected then
      match ← takeReq none with
      | none => setStatus w .error
      | some pIOReq => discard (postBare w pIOReq .SOCKET_DISCONNECT)
    perform (.closesocket socket)
    set w fun o => { o with m_TcpSocket := none }
  | none => pure ()
  return 0

def uninitObject (w : Obj) : ConnecterCall Int := do
  let _ ← stop w
  return 0

/-- The release test, which ConsumeReq repeats in its branches. -/
def releaseIfOver (w : Obj) : ConnecterCall Unit := do
  if ← isOver w then
    if (← get w).m_pAllocater ≠ none then
      perform (.release w)

def readedDataProcess (pdatabuf : Option Buf) : ConnecterCall Int := do
  bufPush pdatabuf
  return 0

/-- The next read, with which two branches of ConsumeReq end. -/
def readOrClose (w : Obj) : ConnecterCall Int := do
  if (← read w) < 0 then
    let _ ← uninitObject w
    setStatus w .error
    releaseIfOver w
    return -1
  return 0

def consumeReq (w : Obj) (bytenumber : Nat) (error : Bool) (povlp : Req) : ConnecterCall Int := do
  let req ← perform (.reqGet povlp)
  if !error then
    match req.m_nOperateType with
    | .SOCKET_CONNECT =>
      count w .m_nRecvedNum
      set w fun o => { o with m_bConnected := true }
      reqPush povlp
      readOrClose w
    | .SOCKET_DISCONNECT =>
      set w fun o => { o with m_bConnected := false }
      reqPush povlp
      count w .m_nRecvedNum
      releaseIfOver w
      return 0
    | .SOCKET_READ =>
      count w .m_nRecvedNum
      if bytenumber = 0 then
        bufPush req.m_pDataBuf
        reqPush povlp
        let _ ← uninitObject w
        releaseIfOver w
        return -1
      let res ← readedDataProcess req.m_pDataBuf
      reqPush povlp
      if res < 0 then
        let _ ← uninitObject w
        releaseIfOver w
        return -2
      readOrClose w
    | .SOCKET_WRITE =>
      count w .m_nWritedNum
      bufPush req.m_pDataBuf
      reqPush povlp
      return 0
    | _ =>
      count w .m_nErrorNum
      bufPush req.m_pDataBuf
      reqPush povlp
      let _ ← uninitObject w
      releaseIfOver w
      return -2
  else
    if req.m_pDataBuf ≠ none then
      bufPush req.m_pDataBuf
    reqPush povlp
    let _ ← uninitObject w
    setStatus w .error
    count w .m_nErrorNum
    releaseIfOver w
    return -1

/-- named is whether pserverip is a string; MakeTcpClientSocket makes the socket. -/
def initObject (w : Obj) (named : Bool) (pallocater : Option Obj) : ConnecterCall Int := do
  if !named then
    return -1
  set w fun o => { o with m_pAllocater := pallocater }
  stock none
  let m_TcpSocket ← perform .wsaSocket
  set w fun o => { o with m_TcpSocket }
  if (← get w).m_TcpSocket = none then
    return -1
  return 0

def start (w : Obj) : ConnecterCall Int := do
  if (← get w).m_nStatus = .run then
    return 1
  if !(← perform (.associateDevice (← get w).m_TcpSocket)) then
    return -4
  zero w .m_nRecvNum
  zero w .m_nRecvedNum
  zero w .m_nErrorNum
  zero w .m_nWriteNum
  zero w .m_nWritedNum
  set w fun o => { o with m_bConnected := false }
  if (← connect w) = 0 then
    setStatus w .run
    return 0
  else
    return -3

/-- Calls of the owner of connecters, and completions. -/
inductive Entry where
  | initObject (w : Obj) (named : Bool) (pallocater : Option Obj)
  | start (w : Obj)
  | stop (w : Obj)
  | read (w : Obj)
  | write (w : Obj) (datsize : Nat)
  | connect (w : Obj)
  | complete (posted : Posted) (bytenumber : Nat) (error : Bool)

def enter (s : Shared Connecter) : Entry → Option (Shared Connecter × Unit × ConnecterCall Unit)
  | .initObject w named pallocater => some (s, (), discard (initObject w named pallocater))
  | .start w => some (s, (), discard (start w))
  | .stop w => some (s, (), discard (stop w))
  | .read w => some (s, (), discard (read w))
  | .write w datsize => some (s, (), discard (write w datsize))
  | .connect w => some (s, (), discard (connect w))
  | .complete posted bytenumber error =>
    if posted ∈ s.pending then
      (s.reqs posted.req).m_pObserver.map fun w =>
        ({ s with pending := s.pending.erase posted }, (),
          discard (consumeReq w bytenumber error posted.req))
    else none

def semantics : Semantics (Shared Connecter) Unit (Op Connecter) Res Outcome Entry where
  enter := enter
  step := step

end Connecter

end TestIOCP.Tcp
