import TestIOCP.Program
import TestIOCP.Pool
import TestIOCP.CompletionPort
import Mathlib.Data.List.Sort

/-! The objects of TestIOCPServer: the records of CTcpIOCPTool, the stubs of
CTcpIOCPClientManager, the blocks of CMemCache, sockets and the completion port. An
operation is a critical section, a call of the system, or an access to a field outside
of one. Left out is what only debug output reads: time stamps, sequence numbers,
m_nStatus, peer addresses and the counts of closed clients. -/
namespace TestIOCP.Server
open Transition

/-- The address of an IO_OPER_DATA. -/
abbrev Record := Nat

/-- The address of a block of memory, or NULL. -/
abbrev Block := Nat

/-- The address of a CTcpIOCPClientStub. -/
abbrev Client := Nat

def NULL : Nat := 0

inductive Direction where
  | recv
  | send
  deriving DecidableEq, Repr

def Direction.oper_type : Direction → Int
  | .recv => 0
  | .send => 1

structure IO_OPER_DATA where
  oper_type : Int
  buf : Block
  len : BitVec 32
  deriving DecidableEq, Repr

inductive Field where
  | oper_type (i : Int)
  | buf (b : Block)
  | len (n : BitVec 32)
  deriving DecidableEq, Repr

def IO_OPER_DATA.assign (data : IO_OPER_DATA) : Field → IO_OPER_DATA
  | .oper_type oper_type => { data with oper_type }
  | .buf buf => { data with buf }
  | .len len => { data with len }

/-- A record after memset. -/
def IO_OPER_DATA.zero : IO_OPER_DATA := ⟨0, NULL, 0⟩

/-- The keys of m_RecvList and m_SendList, in the order of the map. -/
structure CTcpIOCPClientStub where
  m_Socket : Option Sock
  list : Direction → List Record

/-- map::insert. -/
def insertKey (r : Nat) (keys : List Nat) : List Nat :=
  if r ∈ keys then keys else keys.orderedInsert (· ≤ ·) r

/-- The number of blocks in a slab of CMemCache::GetMemBlock: there are 32 lists, and the
first one of large enough blocks is used. -/
def slab (blocksize : Nat) : Nat :=
  match (List.range 32).find? (fun i => blocksize ≤ 2 <<< i) with
  | some i => if 12 < i ∧ i ≤ 16 then 100 else if 16 < i then 5 else 1000
  | none => 0

inductive Op where
  | getIOOperData
  | releaseIOOperData (pdata : Record)
  | memset (pdata : Record)
  | store (pdata : Record) (field : Field)
  | switch (pio : Record)
  | operType (pio : Record)
  | buf (pio : Record)
  | isType (poperdata : Record) (i : Int)
  | post (c : Client) (d : Direction) (pdata : Record)
  | insert (c : Client) (d : Direction) (pdata : Record)
  | erase (c : Client) (d : Direction) (poperdata : Record)
  | findErase (c : Client) (d : Direction) (poperdata : Record)
  | closeSocket (c : Client)
  | drain (c : Client) (d : Direction)
  | getFreeClient
  | initClient (c : Client) (sock : Option Sock)
  | addRealClient (c : Client)
  | eraseRealClient (c : Client)
  | pushFreeClient (c : Client)
  | realClients
  | clearRealClients
  | createIoCompletionPort (sock : Option Sock) (c : Client)
  | getMemBlock
  | releaseMemBlock (pdata : Block)
  deriving DecidableEq, Repr

/-- A post returns the error that is not WSA_IO_PENDING, if there is one. -/
abbrev Res : Op → Type
  | .getIOOperData => Record
  | .switch _ | .operType _ => Int
  | .buf _ | .getMemBlock => Block
  | .isType _ _ | .erase _ _ _ | .findErase _ _ _ | .createIoCompletionPort _ _ => Bool
  | .post _ _ _ => Option Nat
  | .eraseRealClient _ => Nat
  | .getFreeClient => Client
  | .realClients => List Client
  | _ => Unit

/-- The stub that an operation works on. -/
def Op.client : Op → Option Client
  | .post c _ _ | .insert c _ _ | .erase c _ _ | .findErase c _ _ | .closeSocket c | .drain c _
  | .initClient c _ | .addRealClient c | .eraseRealClient c | .pushFreeClient c
  | .createIoCompletionPort _ c => some c
  | _ => none

abbrev Call := Program Op Res

def perform (op : Op) : Call (Res op) := Program.perform op

/-- An accepted WSARecv or WSASend whose completion is not dequeued, with the stub that
posted it and the connection that this stub served. -/
structure Posted where
  record : Record
  socket : Sock
  client : Client
  connection : Nat
  deriving DecidableEq, Repr

/-- Which record a call has in its hands: it got it from m_FreeList, fills it, has
posted it and not inserted it in a list, has dequeued its completion and not read
oper_type, is about to release it, has taken it off its list. -/
inductive Hold where
  | nothing
  | obtained (r : Record)
  | building (r : Record) (data : IO_OPER_DATA)
  | posted (r : Record)
  | dequeued (r : Record)
  | handling (r : Record)
  | erased (r : Record)
  deriving DecidableEq, Repr

/-- What a call has: its record, the blocks that it obtained or whose completion it
dequeued, the completion that it handles, the socket it accepted, its client, a stub
that it got from m_FreeClientList or took off m_RealClientList and that is in no list. -/
structure Task where
  hold : Hold := .nothing
  blocks : List Block := []
  completion : Option Posted := none
  accepted : Option Sock := none
  client : Option Client := none
  handed : Option Client := none
  closing : Option Client := none
  deriving DecidableEq, Repr

/-- Sockets are numbered as they are accepted, key is what the port was told for them.
connection counts how often GetFreeClient has handed a stub out. -/
structure Shared where
  records : Record → IO_OPER_DATA
  m_FreeList : Pool
  clients : Client → CTcpIOCPClientStub
  m_FreeClientList : Pool
  m_RealClientList : List Client
  memory : Pool
  sockets : Nat
  opened : List Sock
  key : Sock → Option Client
  pending : List Posted
  connection : Client → Nat

namespace Shared

def write (s : Shared) (r : Record) (f : IO_OPER_DATA → IO_OPER_DATA) : Shared :=
  { s with records := Function.update s.records r (f (s.records r)) }

def setSocket (s : Shared) (c : Client) (m_Socket : Option Sock) : Shared :=
  { s with clients := Function.update s.clients c { s.clients c with m_Socket } }

def setList (s : Shared) (c : Client) (d : Direction) (keys : List Record) : Shared :=
  let list := Function.update (s.clients c).list d keys
  { s with clients := Function.update s.clients c { s.clients c with list } }

end Shared

/-- What the environment decides: whether a call of the system fails, and the error of
a failed post less one. -/
structure Choice where
  error : Option Nat := none
  deriving DecidableEq, Repr

def WSAENOTSOCK : Nat := 10038

/-- The effect of an operation on the shared state. -/
def Shared.perform (s : Shared) (choice : Choice) : (op : Op) → Shared × Res op
  | .getIOOperData =>
    ({ s with m_FreeList := (s.m_FreeList.take 1000).2 }, (s.m_FreeList.take 1000).1)
  | .releaseIOOperData r => ({ s with m_FreeList := s.m_FreeList.give [r] }, ())
  | .memset r => (s.write r fun _ => .zero, ())
  | .store r field => (s.write r (·.assign field), ())
  | .switch r | .operType r => (s, (s.records r).oper_type)
  | .buf r => (s, (s.records r).buf)
  | .isType r i => (s, (s.records r).oper_type = i)
  | .post c _ r =>
    match (s.clients c).m_Socket with
    | none => (s, some WSAENOTSOCK)
    | some socket =>
      if socket ∉ s.opened then (s, some WSAENOTSOCK)
      else match choice.error with
        | some error => (s, some (error + 1))
        | none => ({ s with pending := ⟨r, socket, c, s.connection c⟩ :: s.pending }, none)
  | .insert c d r => (s.setList c d (insertKey r ((s.clients c).list d)), ())
  | .erase c d r => (s.setList c d (((s.clients c).list d).erase r), r ∈ (s.clients c).list d)
  | .findErase c d r =>
    if r ∈ (s.clients c).list d then
      ({ (s.setList c d (((s.clients c).list d).erase r)).write r (·.assign (.oper_type (-1))) with
        m_FreeList := s.m_FreeList.give [r] }, true)
    else (s, false)
  | .closeSocket c =>
    match (s.clients c).m_Socket with
    | none => (s, ())
    | some socket => ({ s with opened := s.opened.erase socket }.setSocket c none, ())
  | .drain c d =>
    ({ s.setList c d [] with
      records := fun r =>
        if r ∈ (s.clients c).list d then (s.records r).assign (.oper_type (-1)) else s.records r
      m_FreeList := s.m_FreeList.give ((s.clients c).list d) }, ())
  | .getFreeClient =>
    let c := (s.m_FreeClientList.take 1000).1
    ({ s with
      m_FreeClientList := (s.m_FreeClientList.take 1000).2
      connection := Function.update s.connection c (s.connection c + 1) }, c)
  | .initClient c sock => (s.setSocket c sock, ())
  | .addRealClient c => ({ s with m_RealClientList := insertKey c s.m_RealClientList }, ())
  | .eraseRealClient c =>
    ({ s with m_RealClientList := s.m_RealClientList.erase c },
      if c ∈ s.m_RealClientList then 1 else 0)
  | .pushFreeClient c => ({ s with m_FreeClientList := s.m_FreeClientList.give [c] }, ())
  | .realClients => (s, s.m_RealClientList)
  | .clearRealClients => ({ s with m_RealClientList := [] }, ())
  | .createIoCompletionPort sock c =>
    match sock with
    | none => (s, false)
    | some socket =>
      if socket ∈ s.opened ∧ choice.error = none then
        ({ s with key := Function.update s.key socket (some c) }, true)
      else (s, false)
  | .getMemBlock =>
    ({ s with memory := (s.memory.take (slab 4096)).2 }, (s.memory.take (slab 4096)).1)
  | .releaseMemBlock b => ({ s with memory := s.memory.give [b] }, ())

/-- What is left of a task after an operation. -/
def Task.after (l : Task) : (op : Op) → Res op → Task
  | .getIOOperData, r => { l with hold := .obtained r }
  | .memset r, _ => { l with hold := .building r .zero }
  | .store _ field, _ =>
    match l.hold with
    | .building r data => { l with hold := .building r (data.assign field) }
    | _ => l
  | .post _ _ r, error =>
    match error, l.hold with
    | none, .building _ data => { l with hold := .posted r, blocks := l.blocks.erase data.buf }
    | _, _ => l
  | .insert _ _ _, _ | .releaseIOOperData _, _ => { l with hold := .nothing }
  | .switch _, oper_type => if oper_type = 0 ∨ oper_type = 1 then l else { l with hold := .nothing }
  | .operType r, _ => { l with hold := .handling r }
  | .erase _ _ r, found => { l with hold := if found then .erased r else .nothing }
  | .findErase _ d _, found => if found ∨ d = .send then { l with hold := .nothing } else l
  | .getFreeClient, c => { l with client := some c, handed := some c }
  | .addRealClient _, _ => { l with handed := none }
  | .eraseRealClient c, num => if num < 1 then l else { l with closing := some c }
  | .pushFreeClient _, _ => { l with closing := none }
  | .createIoCompletionPort _ _, _ => { l with accepted := none }
  | .getMemBlock, b => { l with blocks := b :: l.blocks }
  | .releaseMemBlock b, _ => { l with blocks := l.blocks.erase b }
  | _, _ => l

theorem Task.after_eraseRealClient (l : Task) (c : Client) (num : Nat) :
    l.after (.eraseRealClient c) num = if num < 1 then l else { l with closing := some c } := by
  simp only [Task.after]

theorem Task.after_eraseRealClient_same (l : Task) (c : Client) (num : Nat) :
    ∃ closing, l.after (.eraseRealClient c) num = { l with closing } := by
  rw [Task.after_eraseRealClient]
  split
  · exact ⟨l.closing, rfl⟩
  · exact ⟨some c, rfl⟩

def step (s : Shared) (l : Task) (op : Op) (choice : Choice) : Option (Shared × Task × Res op) :=
  let (s', r) := s.perform choice op
  some (s', l.after op r, r)

end TestIOCP.Server
