import TestIOCP.Engine.Session

/-! CTcpConnecter. Its allocater is known by the ReleaseObject calls that it receives;
m_WorkerList stands for the objects that it has been given back. -/
namespace TestIOCP.Engine
open Transition

/-- The fields of CTcpConnecter that its methods read. -/
structure Connecter where
  m_TcpSocket : Option Sock
  m_nStatus : Status
  m_bConnected : Bool
  m_pAllocater : Option Obj
  deriving DecidableEq, Repr

instance : Endpoint Connecter where
  m_TcpSocket s := s.m_TcpSocket
  withStatus s m_nStatus := { s with m_nStatus }
  socket_withStatus _ _ := rfl

abbrev ConnecterCall := Call Connecter

namespace Connecter

def connect (w : Obj) : ConnecterCall Int :=
  postCounted w .SOCKET_CONNECT .m_nRecvNum

def read (w : Obj) : ConnecterCall Int :=
  postCounted w .SOCKET_READ .m_nRecvNum

def write (w : Obj) : ConnecterCall Int := do
  let this ← get w
  if this.m_nStatus ≠ .run || !this.m_bConnected then
    return -1
  postCounted w .SOCKET_WRITE .m_nWriteNum

def stop (w : Obj) : ConnecterCall Int := do
  set w fun s => { s with m_nStatus := .stop }
  let this ← get w
  match this.m_TcpSocket with
  | some socket =>
    if this.m_bConnected then
      -- DisconnectEx; its failure only sets m_nStatus
      let _ ← postCounted w .SOCKET_DISCONNECT .m_nRecvNum
    perform (.closesocket socket)
    set w fun s => { s with m_TcpSocket := none }
  | none => pure ()
  return 0

def uninitObject (w : Obj) : ConnecterCall Int := do
  let _ ← stop w
  return 0

def isOver (w : Obj) : ConnecterCall Bool :=
  perform (.isOver w)

/-- The release test, which ConsumeReq repeats in its branches. -/
def releaseIfOver (w : Obj) : ConnecterCall Unit := do
  if ← isOver w then
    if (← get w).m_pAllocater ≠ none then
      perform (.release w)

def readedDataProcess : ConnecterCall Int := do
  return 0

/-- The next read, with which two branches of ConsumeReq end. -/
def readOrClose (w : Obj) : ConnecterCall Int := do
  if (← read w) < 0 then
    let _ ← uninitObject w
    set w fun s => { s with m_nStatus := .error }
    releaseIfOver w
    return -1
  return 0

def consumeReq (bytenumber : Nat) (error : Bool) (povlp : IOReq) : ConnecterCall Int := do
  let w := povlp.m_pObserver
  if !error then
    match povlp.m_nOperateType with
    | .SOCKET_CONNECT =>
      count w .m_nRecvedNum
      set w fun s => { s with m_bConnected := true }
      readOrClose w
    | .SOCKET_DISCONNECT =>
      set w fun s => { s with m_bConnected := false }
      count w .m_nRecvedNum
      releaseIfOver w
      return 0
    | .SOCKET_READ =>
      count w .m_nRecvedNum
      if bytenumber = 0 then
        let _ ← uninitObject w
        releaseIfOver w
        return -1
      let res ← readedDataProcess
      if res < 0 then
        let _ ← uninitObject w
        releaseIfOver w
        return -2
      readOrClose w
    | .SOCKET_WRITE =>
      count w .m_nWritedNum
      return 0
    | _ =>
      count w .m_nErrorNum
      let _ ← uninitObject w
      releaseIfOver w
      return -2
  else
    let _ ← uninitObject w
    set w fun s => { s with m_nStatus := .error }
    count w .m_nErrorNum
    releaseIfOver w
    return -1

/-- hTcpSocket is what MakeTcpClientSocket returns. -/
def initObject (w : Obj) (pallocater : Option Obj) (hTcpSocket : Option Sock) :
    ConnecterCall Int := do
  set w fun s => { s with m_pAllocater := pallocater }
  set w fun s => { s with m_TcpSocket := hTcpSocket }
  if (← get w).m_TcpSocket = none then
    return -1
  return 0

def start (w : Obj) : ConnecterCall Int := do
  if (← get w).m_nStatus = .run then
    return 1
  if !(← perform (.associateDevice (← get w).m_TcpSocket)) then
    return -4
  zero w .m_nRecvNum
  zero w .m_nRecvedNum
  zero w .m_nErrorNum
  zero w .m_nWriteNum
  zero w .m_nWritedNum
  set w fun s => { s with m_bConnected := false }
  if (← connect w) = 0 then
    set w fun s => { s with m_nStatus := .run }
    return 0
  else
    return -3

/-- What the constructor leaves. -/
def constructed : Connecter :=
  ⟨none, .stop, false, none⟩

/-- The owner of connecters makes one and initialises it, calls its methods; the
completion port delivers completions. -/
inductive Entry where
  | create (pallocater : Option Obj) (hTcpSocket : Option Sock)
  | start (w : Obj)
  | stop (w : Obj)
  | write (w : Obj)
  | complete (posted : Posted) (bytenumber : Nat) (error : Bool)
  deriving DecidableEq, Repr

def enter (s : Shared Connecter) : Entry → Option (Shared Connecter × Task × ConnecterCall Unit)
  | .create pallocater hTcpSocket =>
    if ∃ socket ∈ s.sockets, hTcpSocket = some socket then none
    else
      let w := s.allocated
      some ({ s with
        allocated := w + 1
        objects := Function.update s.objects w constructed
        counters := Function.update s.counters w fun _ => 0
        sockets := hTcpSocket.toList ++ s.sockets },
        .idle, discard (initObject w pallocater hTcpSocket))
  | .start w =>
    if w < s.allocated then some (s, .holding w [], discard (start w)) else none
  | .stop w =>
    if w < s.allocated then some (s, .working w false false, discard (stop w)) else none
  | .write w =>
    if w < s.allocated then some (s, .working w false false, discard (write w)) else none
  | .complete posted bytenumber error =>
    if posted ∈ s.pending then
      some ({ s with pending := s.pending.erase posted },
        .working posted.req.m_pObserver true false,
        discard (consumeReq bytenumber error posted.req))
    else none

def semantics : Semantics (Shared Connecter) Task (Op Connecter) Res Choice Entry where
  enter := enter
  step := step

structure Initial (s : Shared Connecter) : Prop where
  allocated : s.allocated = 0
  pending : s.pending = []
  sockets : s.sockets = [] ∧ s.associated = []
  m_WorkerList : s.m_WorkerList = []
  history : s.serving = [] ∧ s.begun = [] ∧ s.released = []

def system (T : Type) [DecidableEq T] :
    System (Config T (Shared Connecter) Task (Op Connecter) Res) (Label T Choice Entry) :=
  semantics.system Initial .idle

end Connecter

end TestIOCP.Engine
