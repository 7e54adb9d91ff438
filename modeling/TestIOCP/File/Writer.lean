import TestIOCP.CompletionPort
import TestIOCP.CString
import Mathlib.Data.BitVec
import Mathlib.Logic.Function.Basic

/-! CFileWriter and the two static lists that all writers share. A call is a function of
the state and of what the system answers. -/
namespace TestIOCP.File
open CString (Byte)

abbrev Buf := Nat
abbrev Req := Nat

def WFILEBUFSIZE : Nat := 640 * 1024

/-- INVALID_HANDLE_VALUE is the missing handle. -/
structure FileWriter where
  m_hFileDest : Option Nat
  m_nRecvPackets : BitVec 32
  m_nWritedPackets : BitVec 32
  m_pCurBuf : Option Buf
  m_nCurSize : Nat
  m_nWriteNum : BitVec 32
  m_nWritedNum : BitVec 32
  deriving DecidableEq, Repr

def constructed : FileWriter :=
  ⟨none, 0, 0, none, 0, 0, 0⟩

structure IOReq (W : Type) where
  m_pObserver : W
  m_pDataBuf : Option Buf
  m_nBufSize : Nat
  m_nDataSize : Nat
  Offset : BitVec 32
  OffsetHigh : BitVec 32
  deriving DecidableEq, Repr

/-- A WriteFile that was accepted and whose completion is not yet consumed, and what the
buffer held when it was called. -/
structure Write (W : Type) where
  req : Req
  writer : W
  buf : Buf
  size : Nat
  contents : List Byte
  deriving DecidableEq, Repr

/-- The last two fields are the history of each writer: what WriteFile was given, and what
ImportData was given. -/
structure Files (W : Type) where
  writers : W → FileWriter
  m_BufList : BiList (Option Buf)
  newBufs : Nat
  memory : Buf → List Byte
  m_IOReqList : BiList (Option Req)
  newReqs : Nat
  reqs : Req → IOReq W
  writing : List (Write W)
  payloads : W → List (List Byte)
  imported : W → List Byte

/-- What the system answers in one call: whether each allocation finds memory, and what
WriteFile does. -/
structure Api where
  newBuf : Bool
  newReq : Bool
  nextBuf : Bool
  writeFile : Outcome
  deriving DecidableEq, Repr

/-- Some bytes of an array are written. -/
def store (array : List Byte) (at_ : Nat) (data : List Byte) : List Byte :=
  array.take at_ ++ data ++ array.drop (at_ + data.length)

variable {W : Type} [DecidableEq W]

namespace Files

def set (s : Files W) (w : W) (f : FileWriter → FileWriter) : Files W :=
  { s with writers := Function.update s.writers w (f (s.writers w)) }

/-- A buffer from the list, or a new one. -/
def takeBuf (s : Files W) (available : Bool) : Files W × Option Buf :=
  match s.m_BufList.popHead with
  | (m_BufList, some pDataBuf) => ({ s with m_BufList }, some pDataBuf)
  | (m_BufList, none) =>
    if available then
      ({ s with m_BufList := m_BufList.allocated, newBufs := s.newBufs + 1 }, some s.newBufs)
    else ({ s with m_BufList }, none)

/-- An IO request from the list, or a new one, with its fields set. -/
def takeReq (s : Files W) (available : Bool) (req : IOReq W) : Files W × Option Req :=
  match s.m_IOReqList.popHead with
  | (m_IOReqList, some pOverlap) =>
    ({ s with m_IOReqList, reqs := Function.update s.reqs pOverlap req }, some pOverlap)
  | (m_IOReqList, none) =>
    if available then
      ({ s with
        m_IOReqList := m_IOReqList.allocated
        newReqs := s.newReqs + 1
        reqs := Function.update s.reqs s.newReqs req }, some s.newReqs)
    else ({ s with m_IOReqList }, none)

/-- WriteFile, and whether it was accepted. -/
def writeFile (s : Files W) (outcome : Outcome) (w : W) (pOverlap : Req) : Files W × Bool :=
  match (s.writers w).m_pCurBuf with
  | some b =>
    if outcome ≠ .failed then
      let size := (s.writers w).m_nCurSize
      ({ s with
        writing := ⟨pOverlap, w, b, size, s.memory b⟩ :: s.writing
        payloads := Function.update s.payloads w (s.payloads w ++ [(s.memory b).take size]) }, true)
    else (s, false)
  | none => (s, false)

/-- The lines of ImportData that write m_pCurBuf out, which stand in it twice. They return
whether pbufsource gets its buffer back, and nothing if there is no request. -/
def writeCurBuf (s : Files W) (api : Api) (w : W) : Files W × Option Bool :=
  let this := s.writers w
  match s.takeReq api.newReq
    ⟨w, this.m_pCurBuf, WFILEBUFSIZE, this.m_nCurSize, 0xffffffff, 0xffffffff⟩ with
  | (s, none) => (s, none)
  | (s, some pOverlap) =>
    let (s, bsuc) := s.writeFile api.writeFile w pOverlap
    let s := if bsuc then s else { s with m_IOReqList := s.m_IOReqList.pushTail (some pOverlap) }
    (s.set w fun o => { o with m_nWriteNum := o.m_nWriteNum + 1 }, some !bsuc)

end Files

open Files

/-- What ImportData returns, and how often it calls ReturnBuf, if there is a pbufsource. -/
structure Result (W : Type) where
  state : Files W
  res : Int
  returned : Nat

def flush (api : Api) (s : Files W) (w : W) : Result W :=
  let clear (s : Files W) := s.set w fun o => { o with m_pCurBuf := none, m_nCurSize := 0 }
  if 0 < (s.writers w).m_nCurSize then
    match s.writeCurBuf api w with
    | (s, none) => ⟨s, -3, 1⟩
    | (s, some returned) => ⟨clear s, 0, returned.toNat⟩
  else ⟨clear s, 0, 0⟩

/-- A buffer for the first packet. -/
def firstBuf (api : Api) (s : Files W) (w : W) : Except (Result W) (Files W) :=
  if (s.writers w).m_pCurBuf = none then
    match s.takeBuf api.newBuf with
    | (s, none) => .error ⟨s, -2, 1⟩
    | (s, m_pCurBuf) => .ok (s.set w fun o => { o with m_pCurBuf, m_nCurSize := 0 })
  else .ok s

/-- A packet that does not fit any more goes to another buffer. -/
def nextBuf (api : Api) (s : Files W) (w : W) (datasize : Nat) :
    Except (Result W) (Files W × Nat) :=
  if (s.writers w).m_nCurSize + datasize > WFILEBUFSIZE then
    match s.writeCurBuf api w with
    | (s, none) => .error ⟨s, -3, 1⟩
    | (s, some returned) =>
      match s.takeBuf api.nextBuf with
      | (s, none) => .error ⟨s.set w fun o => { o with m_pCurBuf := none }, -2, returned.toNat + 1⟩
      | (s, m_pCurBuf) =>
        .ok (s.set w fun o => { o with m_pCurBuf, m_nCurSize := 0 }, returned.toNat)
  else .ok (s, 0)

/-- memcpy to the end of what the current buffer holds. -/
def append (s : Files W) (w : W) (data : List Byte) : Files W :=
  match (s.writers w).m_pCurBuf with
  | some b =>
    { s with
      memory :=
        Function.update s.memory b (store (s.memory b) (s.writers w).m_nCurSize data) }.set w
      fun o => { o with m_nCurSize := o.m_nCurSize + data.length }
  | none => s

/-- The bytes of a packet are counted, and noted in the history. -/
def receive (s : Files W) (w : W) (data : List Byte) : Files W :=
  { s with imported := Function.update s.imported w (s.imported w ++ data) }.set w
    fun o => { o with m_nRecvPackets := o.m_nRecvPackets + BitVec.ofNat 32 data.length }

/-- The packet is what pdatabuf holds; one of datasize 0 flushes. -/
def importData (api : Api) (s : Files W) (w : W) (data : List Byte) : Result W :=
  let s := receive s w data
  if (s.writers w).m_hFileDest = none then
    ⟨s, -1, if data.length = 0 then 0 else 1⟩
  else if data.length = 0 then
    flush api s w
  else
    match firstBuf api s w with
    | .error failed => failed
    | .ok s =>
      match nextBuf api s w data.length with
      | .error failed => failed
      | .ok (s, returned) => ⟨append s w data, 0, returned + 1⟩

def consumeReq (s : Files W) (w : W) (error : Bool) (povlp : Req) : Files W :=
  let req := s.reqs povlp
  let s := s.set w fun o => { o with m_nWritedNum := o.m_nWritedNum + 1 }
  let s := if error then s else
    s.set w fun o =>
      { o with m_nWritedPackets := o.m_nWritedPackets + BitVec.ofNat 32 req.m_nDataSize }
  { s with
    m_BufList := s.m_BufList.pushTail req.m_pDataBuf
    m_IOReqList := s.m_IOReqList.pushTail (some povlp) }

/-- A new buffer for the list. -/
def stockBuf (s : Files W) (available : Bool) : Files W :=
  let ptempbuf := if available then some s.newBufs else none
  { s with
    m_BufList := (s.m_BufList.pushTail ptempbuf).allocated
    newBufs := if available then s.newBufs + 1 else s.newBufs }

/-- A new request for the list. -/
def stockReq (s : Files W) (available : Bool) (w : W) : Files W :=
  let ptempioreq := if available then some s.newReqs else none
  { s with
    m_IOReqList := (s.m_IOReqList.pushTail ptempioreq).allocated
    newReqs := if available then s.newReqs + 1 else s.newReqs
    reqs := if available then Function.update s.reqs s.newReqs { s.reqs s.newReqs with
      m_pDataBuf := none, m_nBufSize := 0, m_nDataSize := 0, m_pObserver := w } else s.reqs }

/-- named is whether pfilepath is a path; CreateFile returns m_hFileDest. -/
def initObject (api : Api) (s : Files W) (w : W) (named : Bool) (m_hFileDest : Option Nat) :
    Files W × Int :=
  if !named then
    (s, -1)
  else
    let s := s.set w fun o => { o with m_hFileDest }
    if m_hFileDest = none then
      (s, -2)
    else
      let s := s.set w fun o => { o with m_nRecvPackets := 0, m_nWritedPackets := 0 }
      (stockReq (stockBuf (stockBuf s api.newBuf) api.nextBuf) api.newReq w, 0)

end TestIOCP.File
