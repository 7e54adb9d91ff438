import TestIOCP.Server.Calls

/-! AcceptThread as the loop that it is. The server of Server.Calls, where the sockets come
out of WSAAccept in this loop, GetFreeClient may have no memory for a stub, and every
closesocket is written down. Beside the loop the other threads make their calls, and
StopService clears m_bAcceptRunning. -/
namespace TestIOCP.Server.AcceptLoop
open Transition Program

/-- Where AcceptThread is: before the test of m_bAcceptRunning, in the body of the loop, or
it has left the loop. -/
inductive Position where
  | test
  | body
  | left
  deriving DecidableEq, Repr

/-- closed are the sockets that closesocket was called for, the last one first. -/
structure Shared where
  server : Server.Shared
  m_bAcceptRunning : Bool
  acceptThread : Position
  closed : List Sock

/-- What a call has besides its task: a socket from WSAAccept that it has neither given to
a stub nor closed, a stub without a socket that it is setting up or putting back, whether
it is an iteration of AcceptThread, and whether it has a reason to leave the loop. -/
structure Local where
  task : Task := {}
  sAccept : Option Sock := none
  bare : Option Client := none
  accepting : Bool := false
  broken : Bool := false
  deriving DecidableEq, Repr

/-- The end of an iteration is again or leave. -/
inductive Op where
  | server (op : Server.Op)
  | WSAAccept
  | getFreeClient
  | closesocket (sock : Option Sock)
  | again
  | leave
  deriving DecidableEq, Repr

/-- INVALID_SOCKET and NULL are none. -/
abbrev Res : Op → Type
  | .server op => Server.Res op
  | .WSAAccept => Option Sock
  | .getFreeClient => Option Client
  | _ => Unit

abbrev Call := Program Op Res

def perform (op : Op) : Call (Res op) := Program.perform op

def act (op : Server.Op) : Call (Server.Res op) :=
  perform (.server op)

def lift (p : Server.Call α) : Call α :=
  p.translate act

def FD_ACCEPT : BitVec 32 := 8

/-- What an iteration gets from the network: the wait has timed out, WSAEnumNetworkEvents
has failed, or there are events, with the error of FD_ACCEPT. -/
inductive Network where
  | timeout
  | failed
  | events (lNetworkEvents : BitVec 32) (iErrorCode : Int)
  deriving DecidableEq, Repr

/-- A socket has been accepted, or not; false is the break. -/
def accepted (sAccept : Option Sock) : Call Bool := do
  match ← perform .getFreeClient with
  | none =>
    perform (.closesocket sAccept)
    return true
  | some pclient =>
    act (.initClient pclient sAccept)
    act (.addRealClient pclient)
    if ← act (.createIoCompletionPort sAccept pclient) then
      let _ ← lift (clientStatusNotify pclient)
      return true
    else
      let _ ← lift (removeRealClient pclient)
      return false

/-- The body of the loop in AcceptThread. -/
def body : Network → Call Bool
  | .timeout => return true
  | .failed => return false
  | .events lNetworkEvents iErrorCode => do
    if lNetworkEvents &&& FD_ACCEPT ≠ 0 then
      if iErrorCode = 0 then
        let sAccept ← perform .WSAAccept
        accepted sAccept
      else
        return true
    else
      return true

def iteration (network : Network) : Call Unit := do
  if ← body network then
    perform .again
  else
    perform .leave

/-- What starts a call: AcceptThread comes to the test of its flag, StopService begins, or
another thread calls the server. -/
inductive Event where
  | acceptThread (network : Network)
  | stopService
  | call (e : Server.Event ⊕ Request)
  deriving DecidableEq, Repr

/-- A call of another thread accepts nothing. -/
def other : Server.Event ⊕ Request → Bool
  | .inl (.accept _) => false
  | _ => true

def enter (s : Shared) : Event → Option (Shared × Local × Call Unit)
  | .acceptThread network =>
    if s.acceptThread = .test then
      if s.m_bAcceptRunning then
        some ({ s with acceptThread := .body },
          { accepting := true, broken := network = .failed }, iteration network)
      else
        some ({ s with acceptThread := .left }, {}, .ret ())
    else
      none
  | .stopService => some ({ s with m_bAcceptRunning := false }, {}, .ret ())
  | .call e =>
    if other e then
      (enterAny s.server e).map fun entered =>
        ({ s with server := entered.1 }, { task := entered.2.1 }, lift entered.2.2)
    else
      none

/-- The socket that CloseClient of a stub gives to closesocket. -/
def closes (s : Server.Shared) : Server.Op → Option Sock
  | .closeSocket c => (s.clients c).m_Socket
  | _ => none

/-- The effect of an operation. There may be no memory for a stub only when the list of
free ones is empty. -/
def Shared.perform (s : Shared) (choice : Choice) : (op : Op) → Shared × Res op
  | .server op =>
    ({ s with
      server := (s.server.perform choice op).1
      closed := (closes s.server op).toList ++ s.closed }, (s.server.perform choice op).2)
  | .WSAAccept =>
    if choice.error = none then
      ({ s with
        server.sockets := s.server.sockets + 1
        server.opened := s.server.sockets :: s.server.opened }, some s.server.sockets)
    else (s, none)
  | .getFreeClient =>
    if s.server.m_FreeClientList.free = [] ∧ choice.error ≠ none then (s, none)
    else ({ s with server := (s.server.perform choice .getFreeClient).1 },
      some (s.server.perform choice .getFreeClient).2)
  | .closesocket sock =>
    ({ s with
      server.opened := s.server.opened.filter fun socket => sock ≠ some socket
      closed := sock.toList ++ s.closed }, ())
  | .again => ({ s with acceptThread := .test }, ())
  | .leave => ({ s with acceptThread := .left }, ())

/-- What an operation of the server changes of a call besides its task. -/
def Local.tend (l : Local) : (op : Server.Op) → Server.Res op → Local
  | .initClient _ _, _ => { l with sAccept := none, bare := none }
  | .closeSocket c, _ => { l with bare := some c }
  | .pushFreeClient _, _ => { l with bare := none }
  | .createIoCompletionPort _ _, ok => { l with broken := !ok }
  | _, _ => l

def Local.after (l : Local) : (op : Op) → Res op → Local
  | .server op, r => { l.tend op r with task := l.task.after op r }
  | .WSAAccept, sAccept => { l with sAccept, task.accepted := sAccept }
  | .getFreeClient, some c => { l with task := l.task.after .getFreeClient c, bare := some c }
  | .getFreeClient, none => l
  | .closesocket _, _ => { l with sAccept := none }
  | .again, _ | .leave, _ => { l with accepting := false }

def step (s : Shared) (l : Local) (op : Op) (choice : Choice) :
    Option (Shared × Local × Res op) :=
  some ((s.perform choice op).1, l.after op (s.perform choice op).2, (s.perform choice op).2)

/-- The server after StartService. -/
structure Initial (s : Shared) : Prop where
  server : Server.Initial s.server
  m_bAcceptRunning : s.m_bAcceptRunning = true
  acceptThread : s.acceptThread = .test
  closed : s.closed = []

def semantics : Semantics Shared Local Op Res Choice Event where
  enter := enter
  step := step

/-- AcceptThread and any number of other threads. -/
def system (T : Type) [DecidableEq T] :
    System (Config T Shared Local Op Res) (Label T Choice Event) :=
  semantics.system Initial {}

/-- What an operation is after WSAAccept when GetFreeClient finds a stub. -/
def erased : (op : Op) → Server.Call (Res op)
  | .server op => Program.perform op
  | .getFreeClient => do
    let c ← Program.perform Server.Op.getFreeClient
    return some c
  | .WSAAccept => .ret none
  | .closesocket _ | .again | .leave => .ret ()

@[simp] theorem lift_erased (p : Server.Call α) : (lift p).translate erased = p := by
  induction p with
  | ret a => rfl
  | call op rest ih => exact congrArg (Program.call op) (funext ih)

@[simp] theorem act_erased (op : Server.Op) :
    (act op).translate erased = (Program.perform op : Server.Call _) := rfl

/-- With a stub for the socket, an iteration is what Server.Calls has as AcceptThread. -/
theorem accepted_erased (sAccept : Option Sock) :
    ((accepted sAccept).translate erased >>= fun _ => .ret ()) = acceptThread sAccept := by
  have branch (ok : Bool) (c : Client) :
      ((if ok then do let _ ← lift (clientStatusNotify c); return true
        else do let _ ← lift (removeRealClient c); return false : Call Bool).translate erased >>=
          fun _ => .ret ()) =
        (if ok then do let _ ← clientStatusNotify c
          else do let _ ← removeRealClient c : Server.Call Unit) := by
    cases ok
    all_goals
      simp only [if_true, if_false, Bool.false_eq_true, translate_bind, lift_erased, bind_assoc]
      rfl
  refine congrArg (Program.call Server.Op.getFreeClient) (funext fun c => ?_)
  refine congrArg (Program.call (Server.Op.initClient c sAccept)) (funext fun _ => ?_)
  refine congrArg (Program.call (Server.Op.addRealClient c)) (funext fun _ => ?_)
  refine congrArg (Program.call (Server.Op.createIoCompletionPort sAccept c)) (funext fun ok => ?_)
  exact branch ok c

end TestIOCP.Server.AcceptLoop
