import TestIOCP.CompletionPort
import TestIOCP.Serial
import Mathlib.Data.BitVec

/-! CUdpReceiver and the two static pools that all receivers share. Every
operation below is one access to memory that another thread can reach, one call
of the operating system or one call of an observer. CNoLockBiList is a queue
here. The fields of an IO request are private to the call that has taken it. -/
namespace TestIOCP.Udp

abbrev Buf := Nat
abbrev Req := Nat

structure Receiver where
  m_UdpSocket : Option Sock
  m_nStatus : Status
  m_nRecvNum : BitVec 32
  m_nRecvedNum : BitVec 32
  m_nPacketNum : BitVec 32
  m_nRecvBytesNum : BitVec 32
  deriving DecidableEq, Repr

/-- CUdpReceiverIOReq; m_pObserver is the receiver that its completion calls. -/
structure IOReq (R : Type) where
  m_pObserver : R
  m_pDataBuf : Option Buf
  m_nBufSize : Nat

inductive Op (R O : Type) where
  | get (r : R)
  | set (r : R) (f : Receiver → Receiver)
  | bufPop
  | bufNew
  | bufPush (b : Buf)
  | clearRef (b : Buf)
  | addRef (b : Buf)
  | releaseRef (b : Buf)
  | reqPop
  | reqNew (r : R)
  | reqPush (q : Req)
  | reqGet (q : Req)
  | setObserver (q : Req) (r : R)
  | setDataBuf (q : Req) (b : Buf) (size : Nat)
  | makeMultiSocket
  | associateDevice (s : Sock)
  | closesocket (s : Sock)
  | wsaRecv (s : Option Sock) (q : Req) (b : Buf)
  | lock (r : R)
  | unlock (r : R)
  | importData (iter : O) (rest : List O) (b : Buf) (datasize : Int)
  | importNull (iter : O)
  | fault

/-- The results; addRef and releaseRef return the count before the operation,
importData whether the observer calls ReturnBuf before it returns: the outcome
success. A fault is the access violation of a null buffer. -/
abbrev Res {R O : Type} : Op R O → Type
  | .get _ => Receiver
  | .bufPop => Option Buf
  | .bufNew => Buf
  | .addRef _ | .releaseRef _ => BitVec 32
  | .reqPop => Option Req
  | .reqNew _ => Req
  | .reqGet _ => IOReq R
  | .makeMultiSocket => Option Sock
  | .associateDevice _ => Bool
  | .wsaRecv _ _ _ => Outcome
  | .importData _ _ _ _ => Bool
  | _ => Unit

abbrev Call (R O : Type) := Program (Op R O) Res

variable {R O : Type}

def perform (op : Op R O) : Call R O (Res op) := Program.perform op
def get (r : R) : Call R O Receiver := perform (.get r)
def set (r : R) (f : Receiver → Receiver) : Call R O Unit := perform (.set r f)
def bufPop : Call R O (Option Buf) := perform .bufPop
def bufNew : Call R O Buf := perform .bufNew
def bufPush (b : Buf) : Call R O Unit := perform (.bufPush b)
def reqPop : Call R O (Option Req) := perform .reqPop
def reqNew (r : R) : Call R O Req := perform (.reqNew r)
def reqPush (q : Req) : Call R O Unit := perform (.reqPush q)
def importNull (iter : O) : Call R O Unit := perform (.importNull iter)

def returnBuf (pbuf : Buf) : Call R O Int := do
  let val ← perform (.releaseRef pbuf)
  if val = 1 then
    bufPush pbuf
  return 0

/-- One pass of the delivery loop: the observer at the iterator takes the buffer
and may give it back before ImportData returns. -/
def deliver (pdatabuf : Buf) (datasize : Int) : List O → Call R O Unit
  | [] => return
  | iter :: rest => do
    let _ ← perform (.addRef pdatabuf)
    let returned ← perform (.importData iter rest pdatabuf datasize)
    if returned then
      let _ ← returnBuf pdatabuf
    deliver pdatabuf datasize rest

def readedDataProcess (observers : R → List O) (r : R) (pdatabuf : Buf) (datasize : Int) :
    Call R O Int := do
  if (observers r).isEmpty then
    bufPush pdatabuf
  else
    perform (.lock r)
    deliver pdatabuf datasize (observers r)
    perform (.unlock r)
  return 0

def takeBuf : Call R O Buf := do
  match ← bufPop with
  | some pDataBuf => return pDataBuf
  | none => bufNew

def takeReq (r : R) : Call R O Req := do
  match ← reqPop with
  | none => reqNew r
  | some pIOReq =>
    perform (.setObserver pIOReq r)
    return pIOReq

def read (r : R) : Call R O Int := do
  let pDataBuf ← takeBuf
  perform (.clearRef pDataBuf)
  let pIOReq ← takeReq r
  perform (.setDataBuf pIOReq pDataBuf RECVBUFSIZE)
  let this ← get r
  match ← perform (.wsaRecv this.m_UdpSocket pIOReq pDataBuf) with
  | .failed =>
    set r fun s => { s with m_nStatus := .error }
    bufPush pDataBuf
    reqPush pIOReq
    return -4
  | _ =>
    set r fun s => { s with m_nStatus := .run }
    set r fun s => { s with m_nRecvNum := s.m_nRecvNum + 1 }
    return 0

def consumeReq (observers : R → List O) (r : R) (bytenumber : Int) (error : Bool) (povlp : Req) :
    Call R O Int := do
  set r fun s => { s with m_nRecvedNum := s.m_nRecvedNum + 1 }
  let req ← perform (.reqGet povlp)
  if error then
    match req.m_pDataBuf with
    | some b => bufPush b
    | none => pure ()
    reqPush povlp
    set r fun s => { s with m_nStatus := .error }
    return -1
  else
    set r fun s => { s with m_nRecvBytesNum := s.m_nRecvBytesNum + BitVec.ofInt 32 bytenumber }
    set r fun s => { s with m_nPacketNum := s.m_nPacketNum + BitVec.ofInt 32 bytenumber }
    match req.m_pDataBuf with
    | some b => let _ ← readedDataProcess observers r b bytenumber
    | none => perform .fault
    reqPush povlp
    let _ ← read r
    return 0

def initObject (r : R) : Call R O Int := do
  bufPush (← bufNew)
  reqPush (← reqNew r)
  return 0

def start (r : R) : Call R O Int := do
  let this ← get r
  if this.m_nStatus = .run then
    return 1
  let socket ← perform .makeMultiSocket
  set r fun s => { s with m_UdpSocket := socket }
  match socket with
  | none => return -1
  | some m_UdpSocket =>
    if !(← perform (.associateDevice m_UdpSocket)) then
      return -4
    set r fun s => { s with m_nRecvNum := 0 }
    set r fun s => { s with m_nRecvedNum := 0 }
    set r fun s => { s with m_nRecvBytesNum := 0 }
    let _ ← read r
    return 0

def stop (observers : R → List O) (r : R) : Call R O Int := do
  set r fun s => { s with m_nStatus := .stop }
  let this ← get r
  match this.m_UdpSocket with
  | some socket =>
    perform (.closesocket socket)
    set r fun s => { s with m_UdpSocket := none }
  | none => pure ()
  (observers r).forM importNull
  set r fun s => { s with m_nRecvBytesNum := 0 }
  return 0

section
open Program
variable {P : Op R O → Prop} {b : Buf}

theorem takeBuf_every (pop : P .bufPop) (new : P .bufNew) : (takeBuf : Call R O Buf).Every P := by
  refine .bind (.perform pop) fun found => ?_
  cases found with
  | none => exact .perform new
  | some b => trivial

theorem takeReq_every {r : R} (pop : P .reqPop) (new : P (.reqNew r))
    (set : ∀ q, P (.setObserver q r)) :
    (takeReq r : Call R O Req).Every P := by
  refine .bind (.perform pop) fun found => ?_
  cases found with
  | none => exact .perform new
  | some q => exact .bind (.perform (set q)) fun _ => trivial

theorem returnBuf_every (release : P (.releaseRef b)) (push : P (.bufPush b)) :
    (returnBuf b : Call R O Int).Every P := by
  refine .bind (.perform release) fun val => ?_
  split
  · exact .bind (.perform push) fun _ => trivial
  · trivial

theorem deliver_every {datasize : Int} (list : List O) (add : P (.addRef b))
    (import_ : ∀ iter rest, P (.importData iter rest b datasize)) (release : P (.releaseRef b))
    (push : P (.bufPush b)) : (deliver b datasize list : Call R O Unit).Every P := by
  induction list with
  | nil => trivial
  | cons iter rest ih =>
    refine .bind (.perform add) fun _ => .bind (.perform (import_ iter rest)) fun returned => ?_
    split
    · exact (returnBuf_every release push).bind fun _ => ih
    · exact ih

theorem readedDataProcess_every {observers : R → List O} {r : R} {datasize : Int}
    (push : P (.bufPush b))
    (lock : P (.lock r)) (unlock : P (.unlock r)) (add : P (.addRef b))
    (import_ : ∀ iter rest, P (.importData iter rest b datasize)) (release : P (.releaseRef b)) :
    (readedDataProcess observers r b datasize).Every P := by
  simp only [readedDataProcess]
  split
  · exact .bind (.perform push) fun _ => trivial
  · refine .bind (.perform lock) fun _ => ?_
    exact (deliver_every _ add import_ release push).bind fun _ =>
      .bind (.perform unlock) fun _ => trivial

theorem initObject_every {r : R} (new : P .bufNew) (push : ∀ b, P (.bufPush b))
    (newReq : P (.reqNew r))
    (pushReq : ∀ q, P (.reqPush q)) : (initObject r : Call R O Int).Every P :=
  .bind (.perform new) fun b => .bind (.perform (push b)) fun _ => .bind (.perform newReq) fun q =>
    .bind (.perform (pushReq q)) fun _ => trivial

end

end TestIOCP.Udp
