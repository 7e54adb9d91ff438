import TestIOCP.Server.Machine

/-! The calls of the echo server: CTcpIOCPClientStub, CTcpIOCPServerImp and the consumer
CTestIOCPServerDlg. ClientStatusNotify for a closed client only sets a text of the
dialog. StopService is no call of the running server: it waits for the threads to end. -/
namespace TestIOCP.Server
open Transition

/-- RecvData and SendData differ in the type, the call of the system and the list. -/
def transfer (d : Direction) (c : Client) (pdatabuf : Block) (length : BitVec 32) : Call Int := do
  let pdata ← perform .getIOOperData
  perform (.memset pdata)
  perform (.store pdata (.oper_type d.oper_type))
  perform (.store pdata (.buf pdatabuf))
  perform (.store pdata (.len length))
  match ← perform (.post c d pdata) with
  | some err =>
    perform (.releaseIOOperData pdata)
    return -1 * (err : Int)
  | none =>
    perform (.insert c d pdata)
    return 0

def recvData (c : Client) (pdatabuf : Block) (buflength : BitVec 32) : Call Int :=
  transfer .recv c pdatabuf buflength

def sendData (c : Client) (pdatabuf : Block) (datalength : BitVec 32) : Call Int :=
  transfer .send c pdatabuf datalength

/-- The first two branches of ReleaseOperData. -/
def releaseListed (d : Direction) (c : Client) (poperdata : Record) : Call Unit := do
  perform (.store poperdata (.oper_type (-1)))
  if ← perform (.erase c d poperdata) then
    perform (.releaseIOOperData poperdata)

def releaseOperData (c : Client) (poperdata : Record) : Call Int := do
  if ← perform (.isType poperdata 0) then
    releaseListed .recv c poperdata
    return 0
  if ← perform (.isType poperdata 1) then
    releaseListed .send c poperdata
    return 0
  if ← perform (.findErase c .recv poperdata) then
    return 0
  let _ ← perform (.findErase c .send poperdata)
  return 0

/-- CTcpIOCPClientStub::CloseClient. -/
def closeStub (c : Client) : Call Int := do
  perform (.closeSocket c)
  perform (.drain c .recv)
  perform (.drain c .send)
  return 0

def removeRealClient (pclient : Client) : Call Int := do
  let num ← perform (.eraseRealClient pclient)
  if num < 1 then
    return 0
  let _ ← closeStub pclient
  perform (.pushFreeClient pclient)
  return 0

/-- CTcpIOCPServerImp::CloseClient. -/
def closeClient (pclient : Client) : Call Int := do
  let _ ← removeRealClient pclient
  return 0

/-- ClientStatusNotify for a new client. -/
def clientStatusNotify (pclient : Client) : Call Int := do
  let pdata ← perform .getMemBlock
  let ret ← recvData pclient pdata 4096
  if ret < 0 then
    let _ ← closeClient pclient
    perform (.releaseMemBlock pdata)
  return 0

/-- The echo of what was received. -/
def reply (pclient : Client) (pdatabuf : Block) (datalength : BitVec 32) : Call Unit := do
  let ret ← sendData pclient pdatabuf (datalength + 14)
  if ret < 0 then
    let _ ← closeClient pclient
    perform (.releaseMemBlock pdatabuf)

/-- Where OperateNotify posts the next read it does what ClientStatusNotify does. -/
def operateNotify (opertype : Int) (pclient : Client) (ret_code : BitVec 32) (pdatabuf : Block)
    (datalength : BitVec 32) : Call Int := do
  if datalength.toInt ≤ 0 then
    perform (.releaseMemBlock pdatabuf)
    let _ ← closeClient pclient
    return 0
  if opertype = 0 then
    if ret_code = 0 then
      reply pclient pdatabuf datalength
      let _ ← clientStatusNotify pclient
      return 0
    perform (.releaseMemBlock pdatabuf)
    let _ ← closeClient pclient
    return 0
  if opertype = 1 then
    if ret_code ≠ 0 then
      let _ ← closeClient pclient
    perform (.releaseMemBlock pdatabuf)
  return 0

/-- What WorkThread does with a completion in both of its branches. -/
def notify (pclient : Client) (pio : Record) (ret_code transferred : BitVec 32) : Call Unit := do
  let oper_type ← perform (.operType pio)
  let pdatabuf ← perform (.buf pio)
  let _ ← releaseOperData pclient pio
  let _ ← operateNotify oper_type pclient ret_code pdatabuf transferred

/-- WorkThread from one completion to the next; lasterr is missing when bret is true.
The type 100, which ends a thread, comes from StopService. -/
def workThread (lasterr : Option (BitVec 32)) (pclient : Client) (pio : Record)
    (transferred : BitVec 32) : Call Unit := do
  match lasterr with
  | some lasterr => notify pclient pio lasterr transferred
  | none =>
    let oper_type ← perform (.switch pio)
    if oper_type = 0 ∨ oper_type = 1 then
      notify pclient pio 0 transferred

/-- AcceptThread from one accepted socket to the next. -/
def acceptThread (sAccept : Option Sock) : Call Unit := do
  let pclient ← perform .getFreeClient
  perform (.initClient pclient sAccept)
  perform (.addRealClient pclient)
  if ← perform (.createIoCompletionPort sAccept pclient) then
    let _ ← clientStatusNotify pclient
  else
    let _ ← removeRealClient pclient

/-- CTcpIOCPClientManager::CloseAllClient, which StopService calls when the threads have
ended. -/
def closeAllClient : Call Int := do
  let clients ← perform .realClients
  clients.forM fun c => do
    let _ ← closeStub c
    perform (.pushFreeClient c)
  perform .clearRealClients
  return 0

/-- What starts a call: a socket or INVALID_SOCKET is accepted, a completion is dequeued,
a client is closed. -/
inductive Event where
  | accept (invalid : Bool)
  | dequeue (posted : Posted) (lasterr : Option (BitVec 32)) (transferred : BitVec 32)
  | closeClient (c : Client)
  deriving DecidableEq, Repr

def WAIT_TIMEOUT : BitVec 32 := 258
def ERROR_ABANDONED_WAIT_0 : BitVec 32 := 735

/-- A completion is delivered once and with the key of its socket, with any outcome but
the two that come without a completion. -/
def enter (s : Shared) : Event → Option (Shared × Task × Call Unit)
  | .accept true => some (s, {}, acceptThread none)
  | .accept false =>
    some ({ s with sockets := s.sockets + 1, opened := s.sockets :: s.opened },
      { accepted := some s.sockets }, acceptThread (some s.sockets))
  | .dequeue posted lasterr transferred =>
    match s.key posted.socket with
    | none => none
    | some pclient =>
      if posted ∈ s.pending ∧ lasterr ≠ some WAIT_TIMEOUT ∧
        lasterr ≠ some ERROR_ABANDONED_WAIT_0 then
        some ({ s with pending := s.pending.erase posted },
          { hold := .dequeued posted.record
            blocks := [(s.records posted.record).buf]
            completion := some posted
            client := some pclient },
          workThread lasterr pclient posted.record transferred)
      else none
  | .closeClient c =>
    if c < s.m_FreeClientList.allocated then
      some (s, { client := some c }, do let _ ← closeClient c)
    else none

/-- A call of RecvData or SendData with any buffer, for any consumer of the server. -/
structure Request where
  direction : Direction
  client : Client
  buffer : Block
  length : BitVec 32
  deriving DecidableEq, Repr

def enterAny (s : Shared) : Event ⊕ Request → Option (Shared × Task × Call Unit)
  | .inl e => enter s e
  | .inr ⟨d, c, buffer, length⟩ =>
    if c < s.m_FreeClientList.allocated then
      some (s, { client := some c }, do let _ ← transfer d c buffer length)
    else none

/-- What an event leaves, and the call that it starts. -/
inductive Entered (s : Shared) : Shared → Task → Call Unit → Prop where
  | invalid : Entered s s {} (acceptThread none)
  | accepted : Entered s { s with sockets := s.sockets + 1, opened := s.sockets :: s.opened }
    { accepted := some s.sockets } (acceptThread (some s.sockets))
  | dequeued {posted : Posted} {pclient : Client} (lasterr : Option (BitVec 32))
    (transferred : BitVec 32) (key : s.key posted.socket = some pclient)
    (pending : posted ∈ s.pending) : Entered s { s with pending := s.pending.erase posted }
    { hold := .dequeued posted.record
      blocks := [(s.records posted.record).buf]
      completion := some posted
      client := some pclient } (workThread lasterr pclient posted.record transferred)
  | closed {c : Client} (known : c < s.m_FreeClientList.allocated) :
    Entered s s { client := some c } (do let _ ← closeClient c)

/-- What a call of RecvData or SendData leaves. -/
inductive Requested (s : Shared) : Shared → Task → Call Unit → Prop where
  | posted {c : Client} (d : Direction) (buffer : Block) (length : BitVec 32)
    (known : c < s.m_FreeClientList.allocated) :
    Requested s s { client := some c } (do let _ ← transfer d c buffer length)

theorem enter_cases {s s' : Shared} {e : Event} {l : Task} {p : Call Unit}
    (entered : enter s e = some (s', l, p)) : Entered s s' l p := by
  cases e with
  | accept invalid =>
    cases invalid with
    | true =>
      cases entered
      exact .invalid
    | false =>
      cases entered
      exact .accepted
  | dequeue posted lasterr transferred =>
    simp only [enter] at entered
    split at entered
    · contradiction
    rename_i key
    split at entered
    · rename_i delivered
      cases entered
      exact .dequeued lasterr transferred key delivered.1
    · contradiction
  | closeClient c =>
    simp only [enter] at entered
    split at entered
    · rename_i known
      cases entered
      exact .closed known
    · contradiction

theorem enterAny_cases {s s' : Shared} {e : Event ⊕ Request} {l : Task} {p : Call Unit}
    (entered : enterAny s e = some (s', l, p)) : Entered s s' l p ∨ Requested s s' l p := by
  cases e with
  | inl e => exact .inl (enter_cases entered)
  | inr request =>
    simp only [enterAny] at entered
    split at entered
    · rename_i known
      cases entered
      exact .inr (.posted _ _ _ known)
    · contradiction

/-- The server after InitServer and StartService, with no client yet. -/
structure Initial (s : Shared) : Prop where
  m_FreeList : s.m_FreeList = ⟨List.range 1000, 1000⟩
  m_FreeClientList : s.m_FreeClientList = ⟨List.range 1000, 1000⟩
  clients : ∀ c, s.clients c = ⟨none, fun _ => []⟩
  m_RealClientList : s.m_RealClientList = []
  memory : s.memory = ⟨[], NULL + 1⟩
  sockets : s.sockets = 0 ∧ s.opened = [] ∧ s.key = fun _ => none
  pending : s.pending = []

def semantics : Semantics Shared Task Op Res Choice Event where
  enter := enter
  step := step

def semanticsAny : Semantics Shared Task Op Res Choice (Event ⊕ Request) where
  enter := enterAny
  step := step

/-- The echo server with any number of threads. -/
def system (T : Type) [DecidableEq T] :
    System (Config T Shared Task Op Res) (Label T Choice Event) :=
  semantics.system Initial {}

/-- The server when other calls may post operations too. -/
def systemAny (T : Type) [DecidableEq T] :
    System (Config T Shared Task Op Res) (Label T Choice (Event ⊕ Request)) :=
  semanticsAny.system Initial {}

end TestIOCP.Server
