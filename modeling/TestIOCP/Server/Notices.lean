import TestIOCP.Erasure
import TestIOCP.Server.Calls

/-! What CTcpIOCPServerImp tells its consumer. The server of Server.Calls, whose calls of
ClientStatusNotify are operations now; beside the state it keeps which connections have
been associated with the completion port, which ones a CloseClient took off
m_RealClientList, and what has been told. A connection is a stub and how often it had been
handed out. -/
namespace TestIOCP.Server.Notices
open Transition Program

structure Connection where
  client : Client
  number : Nat
  deriving DecidableEq, Repr

/-- A ClientStatusNotify, and the connection that it is about: for 0 the one that its
AcceptThread has associated, for 1 the one that its CloseClient has removed, if any. -/
structure Notice where
  client : Client
  status_code : Int
  connection : Option Connection
  deriving DecidableEq, Repr

/-- early are the connections that were removed before AcceptThread told of them. -/
structure Shared where
  server : Server.Shared
  associated : List Connection := []
  removals : List Connection := []
  early : List Connection := []
  notices : List Notice := []

/-- What a call has to do with a connection: it sets it up, it has to tell the consumer
that it is there, it has removed it and has to tell that. -/
inductive Hand where
  | nothing
  | connecting (x : Connection)
  | announcing (x : Connection)
  | removed (x : Connection)
  deriving DecidableEq, Repr

/-- The connection that a notice would be about. -/
def Hand.owes (status_code : Int) : Hand → Option Connection
  | .announcing x => if status_code = 0 then some x else none
  | .removed x => if status_code = 1 then some x else none
  | _ => none

structure Local where
  task : Task := {}
  hand : Hand := .nothing
  deriving DecidableEq, Repr

/-- closing marks what RemoveRealClient does for CloseClient. -/
inductive Op where
  | op (closing : Bool) (o : Server.Op)
  | report (pclient : Client) (status_code : Int)
  deriving DecidableEq, Repr

abbrev Res : Op → Type
  | .op _ o => Server.Res o
  | .report _ _ => Unit

abbrev Call := Program Op Res

def act (o : Server.Op) : Call (Server.Res o) :=
  Program.perform (Op.op false o)

def report (pclient : Client) (status_code : Int) : Call Unit :=
  Program.perform (Op.report pclient status_code)

def lift (closing : Bool) (p : Server.Call α) : Call α :=
  p.translate fun o => Program.perform (Op.op closing o)

/-- CTcpIOCPServerImp::CloseClient. -/
def closeClient (pclient : Client) : Call Int := do
  let _ ← lift true (removeRealClient pclient)
  report pclient 1
  return 0

/-- A read is posted, or the client is closed. -/
def postRead (pclient : Client) : Call Int := do
  let pdata ← act .getMemBlock
  let ret ← lift false (recvData pclient pdata 4096)
  if ret < 0 then
    let _ ← closeClient pclient
    act (.releaseMemBlock pdata)
  return 0

/-- ClientStatusNotify for a new client. -/
def clientStatusNotify (pclient : Client) : Call Int := do
  report pclient 0
  postRead pclient

/-- The echo of what was received. -/
def reply (pclient : Client) (pdatabuf : Block) (datalength : BitVec 32) : Call Unit := do
  let ret ← lift false (sendData pclient pdatabuf (datalength + 14))
  if ret < 0 then
    let _ ← closeClient pclient
    act (.releaseMemBlock pdatabuf)

def operateNotify (opertype : Int) (pclient : Client) (ret_code : BitVec 32) (pdatabuf : Block)
    (datalength : BitVec 32) : Call Int := do
  if datalength.toInt ≤ 0 then
    act (.releaseMemBlock pdatabuf)
    let _ ← closeClient pclient
    return 0
  if opertype = 0 then
    if ret_code = 0 then
      reply pclient pdatabuf datalength
      let _ ← postRead pclient
      return 0
    act (.releaseMemBlock pdatabuf)
    let _ ← closeClient pclient
    return 0
  if opertype = 1 then
    if ret_code ≠ 0 then
      let _ ← closeClient pclient
    act (.releaseMemBlock pdatabuf)
  return 0

/-- What WorkThread does with a completion in both of its branches. -/
def notify (pclient : Client) (pio : Record) (ret_code transferred : BitVec 32) : Call Unit := do
  let oper_type ← act (.operType pio)
  let pdatabuf ← act (.buf pio)
  let _ ← lift false (releaseOperData pclient pio)
  let _ ← operateNotify oper_type pclient ret_code pdatabuf transferred

/-- WorkThread from one completion to the next. -/
def workThread (lasterr : Option (BitVec 32)) (pclient : Client) (pio : Record)
    (transferred : BitVec 32) : Call Unit := do
  match lasterr with
  | some lasterr => notify pclient pio lasterr transferred
  | none =>
    let oper_type ← act (.switch pio)
    if oper_type = 0 ∨ oper_type = 1 then
      notify pclient pio 0 transferred

/-- AcceptThread from one accepted socket to the next. -/
def acceptThread (sAccept : Option Sock) : Call Unit := do
  let pclient ← act .getFreeClient
  act (.initClient pclient sAccept)
  act (.addRealClient pclient)
  if ← act (.createIoCompletionPort sAccept pclient) then
    let _ ← clientStatusNotify pclient
  else
    let _ ← lift false (removeRealClient pclient)

/-- The call that an event starts. -/
def handle (s : Server.Shared) : Event → Call Unit
  | .accept invalid => acceptThread (if invalid then none else some s.sockets)
  | .dequeue posted lasterr transferred =>
    match s.key posted.socket with
    | some pclient => workThread lasterr pclient posted.record transferred
    | none => return
  | .closeClient c => do let _ ← closeClient c

def enter (s : Shared) (e : Event) : Option (Shared × Local × Call Unit) :=
  (Server.enter s.server e).map fun (server, task, _) =>
    ({ s with server }, { task }, handle s.server e)

namespace Shared

/-- The connection that a stub serves. -/
def current (s : Shared) (c : Client) : Connection :=
  ⟨c, s.server.connection c⟩

/-- The connections for which the consumer was told a status code. -/
def told (s : Shared) (status_code : Int) : List Connection :=
  s.notices.filterMap fun n => if n.status_code = status_code then n.connection else none

/-- What is written down of an operation of the server. -/
def note (s : Shared) (hand : Hand) (closing : Bool) : (o : Server.Op) →
    Server.Res o → Shared × Hand
  | .getFreeClient, c => (s, .connecting (s.current c))
  | .createIoCompletionPort _ _, ok =>
    match hand with
    | .connecting x =>
      if ok then ({ s with associated := x :: s.associated }, .announcing x) else (s, .nothing)
    | hand => (s, hand)
  | .eraseRealClient c, num =>
    if ¬ closing then (s, hand)
    else if num < 1 then (s, .nothing)
    else
      let x := s.current c
      ({ s with
        removals := x :: s.removals
        early := if x ∈ s.told 0 then s.early else x :: s.early }, .removed x)
  | _, _ => (s, hand)

end Shared

def step (s : Shared) (l : Local) : (op : Op) → Choice → Option (Shared × Local × Res op)
  | .op closing o, choice =>
    let (server, r) := s.server.perform choice o
    let (s', hand) := { s with server }.note l.hand closing o r
    some (s', ⟨l.task.after o r, hand⟩, r)
  | .report c status_code, _ =>
    let notice := ⟨c, status_code, l.hand.owes status_code⟩
    some ({ s with notices := s.notices ++ [notice] }, { l with hand := .nothing }, ())

/-- The server has just started, and nothing has been told. -/
structure Initial (s : Shared) : Prop where
  server : Server.Initial s.server
  connections : s.associated = [] ∧ s.removals = [] ∧ s.early = []
  notices : s.notices = []

def semantics : Semantics Shared Local Op Res Choice Event where
  enter := enter
  step := step

/-- The echo server with any number of threads. -/
def system (T : Type) [DecidableEq T] :
    System (Config T Shared Local Op Res) (Label T Choice Event) :=
  semantics.system Initial {}

/-- The client that a CloseClient is about to remove. -/
def Op.removes : Op → Option Client
  | .op true (.eraseRealClient c) => some c
  | _ => none

/-- A CloseClient finds its client in m_RealClientList. -/
def Found (s : Shared) (op : Op) : Prop :=
  ∀ c ∈ op.removes, c ∈ s.server.m_RealClientList

instance (s : Shared) (op : Op) : Decidable (Found s op) :=
  inferInstanceAs (Decidable (∀ c ∈ op.removes, c ∈ s.server.m_RealClientList))

/-- What the consumer is told balances what happened to the connections. A notice is
about a connection of its client; a CloseClient that tells of one has removed it. Every
associated connection is told of once, or this is the next thing that AcceptThread does.
No connection is removed twice; every removed one is told of once, or its CloseClient is
still running. The end of a connection is told after its begin if it came after that. -/
structure Balanced {T : Type} (s : Config T Shared Local Op Res) : Prop where
  named : ∀ n ∈ s.shared.notices, ∃ x, n.connection = some x ∧ x.client = n.client ∧
    (n.status_code = 0 ∧ x ∈ s.shared.associated ∨ n.status_code = 1 ∧ x ∈ s.shared.removals)
  opened : ∀ x ∈ s.shared.associated,
    ((s.shared.told 0).count x = 1 ∧ ∀ t, (s.own t).hand ≠ .announcing x) ∨
    ((s.shared.told 0).count x = 0 ∧ ∃! t, (s.own t).hand = .announcing x ∧
      ∃ rest, s.code t = .call (.report x.client 0) rest)
  removedOnce : s.shared.removals.Nodup
  closed : ∀ x ∈ s.shared.removals,
    ((s.shared.told 1).count x = 1 ∧ ∀ t, (s.own t).hand ≠ .removed x) ∨
    ((s.shared.told 1).count x = 0 ∧ ∃! t, (s.own t).hand = .removed x ∧ s.code t ≠ .ret ())
  ordered : ∀ x ∈ s.shared.told 1, x ∉ s.shared.early →
    [⟨x.client, 0, some x⟩, ⟨x.client, 1, some x⟩].Sublist s.shared.notices

end TestIOCP.Server.Notices
