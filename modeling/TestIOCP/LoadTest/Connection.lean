import TestIOCP.CString

/-! G-TcpClientDemoMain.h: one connection of the load test against a server, the packs that
it posts and the way it takes apart what comes back. A read or a write outside of the
memory that is there ends the process. -/
namespace TestIOCP.LoadTest
open CString

/-- The four bytes of an unsigned int, the least one first. -/
def le32 (x : BitVec 32) : List Byte :=
  [(x.toNat % 256).toUInt8, (x.toNat / 256 % 256).toUInt8, (x.toNat / 65536 % 256).toUInt8,
    (x.toNat / 16777216).toUInt8]

def load32 (memory : List Byte) (at_ : Nat) : Option (BitVec 32) :=
  match memory.drop at_ with
  | a :: b :: c :: d :: _ =>
    some (BitVec.ofNat 32 (a.toNat + 256 * b.toNat + 65536 * c.toNat + 16777216 * d.toNat))
  | _ => none

def store32 (memory : List Byte) (at_ : Nat) (x : BitVec 32) : Option (List Byte) :=
  if at_ + 4 ≤ memory.length then some (memory.take at_ ++ le32 x ++ memory.drop (at_ + 4))
  else none

def HEAD_FLAG : BitVec 32 := 0x1FFFFFF1

/-! The fields of PACK_HEAD, and its size. -/

def unHeadFlag : Nat := 0
def unLen : Nat := 4
def unCRC : Nat := 8
def unIndex : Nat := 12
def pOwner : Nat := 16
def unTickCount : Nat := 20
def sizeofPackHead : Nat := 24

/-- The sum over unLen bytes of some memory. -/
def GetCRC (pBuf : List Byte) (unLen : BitVec 32) : Option (BitVec 32) :=
  if unLen.toNat ≤ pBuf.length then
    some ((pBuf.take unLen.toNat).foldl
      (fun Result c => (Result ^^^ BitVec.ofNat 32 c.toNat) + BitVec.ofNat 32 c.toNat) 0)
  else none

/-- The parameters of CServerTestTool, which the dialog sets at any time. -/
structure CServerTestTool where
  m_unSendFlag : BitVec 32
  m_unSendSpaceTimeOfOnce : BitVec 32
  m_unSendPacketNumberOfOnce : BitVec 32
  m_unSendPacketSize : BitVec 32
  deriving DecidableEq, Repr

/-- m_pBufSave is the part of a pack that is kept, of m_unLenSave bytes. -/
structure CConnection where
  m_unTime : BitVec 32
  m_unSendBytes : BitVec 32
  m_unRecvBytes : BitVec 32
  m_unIndexError : BitVec 32
  m_unCRCError : BitVec 32
  m_unIndexRecv : BitVec 32
  m_unIndexSend : BitVec 32
  m_unSendTickCount : BitVec 32
  m_unConnectTickCount : BitVec 32
  m_unPerHandle : BitVec 32
  m_unInlineTime : BitVec 32
  m_bAllowFree : Bool
  m_pBufSave : Option (List Byte)
  m_pPackHead : Option (List Byte)
  m_unPackSize : BitVec 32
  deriving DecidableEq, Repr

/-- What a call meets: the ticks, the address of the connection, and what HeapAlloc gives
for the pack, with the bytes that are in it. -/
structure Env where
  GetTickCount : Nat → BitVec 32
  this : BitVec 32
  granted : Bool
  content : Nat → Byte

def HeapAlloc (env : Env) (unLen : BitVec 32) : Option (List Byte) :=
  if env.granted then some ((List.range unLen.toNat).map env.content) else none

def CConnection.new (env : Env) (unPackSize unInlineTime : BitVec 32) : CConnection where
  m_unTime := 0
  m_unSendBytes := 0
  m_unRecvBytes := 0
  m_unIndexError := 0
  m_unCRCError := 0
  m_unIndexRecv := 0
  m_unIndexSend := 0
  m_unSendTickCount := 0
  m_unConnectTickCount := 0
  m_unPerHandle := 0
  m_unInlineTime := unInlineTime
  m_bAllowFree := false
  m_pBufSave := none
  m_pPackHead := HeapAlloc env unPackSize
  m_unPackSize := unPackSize

namespace CConnection

/-! ### Sending -/

/-- One pass of the loop in SendPack: the pack that is posted. -/
def stamp (env : Env) (tick : BitVec 32) (c : CConnection) (pack : List Byte) :
    Option (CConnection × List Byte) := do
  let pack ← store32 pack unHeadFlag HEAD_FLAG
  let pack ← store32 pack unLen c.m_unPackSize
  let pack ← store32 pack pOwner env.this
  let index := c.m_unIndexSend + 1
  let index := if index = 0 then 1 else index
  let pack ← store32 pack unIndex index
  let pack ← store32 pack unTickCount tick
  let crc ← GetCRC (pack.drop 12) (c.m_unPackSize - 12)
  let pack ← store32 pack unCRC crc
  return ({ c with m_unIndexSend := index, m_unSendTickCount := tick, m_pPackHead := some pack },
    pack)

/-- The loop in SendPack, with the packs that are posted; a call of GetTickCount has a number. -/
def stamps (env : Env) : Nat → Nat → CConnection → List Byte →
    Option (CConnection × List (List Byte))
  | 0, _, c, _ => some (c, [])
  | i + 1, tick, c, pack => do
    let (c, pack) ← c.stamp env (env.GetTickCount tick) pack
    let (c, packs) ← stamps env i (tick + 1) c pack
    return (c, pack :: packs)

def SendPack (env : Env) (tool : CServerTestTool) (c : CConnection) (unSendCount : BitVec 32) :
    Option (CConnection × List (List Byte)) :=
  let c :=
    if c.m_unPackSize ≠ tool.m_unSendPacketSize then
      { c with
        m_unPackSize := tool.m_unSendPacketSize
        m_pPackHead := HeapAlloc env tool.m_unSendPacketSize }
    else c
  match c.m_pPackHead with
  | none => some (c, [])
  | some pack => stamps env unSendCount.toNat 0 c pack

/-! ### The events of a connection -/

def OnConnected (env : Env) (tool : CServerTestTool) (c : CConnection)
    (unPerHandle : BitVec 32) : Option (CConnection × List (List Byte)) :=
  let c := if c.m_unConnectTickCount = 0 then
    { c with m_unConnectTickCount := env.GetTickCount 0 } else c
  let c := { c with
    m_unPerHandle := unPerHandle
    m_unIndexRecv := 1
    m_unIndexSend := 0
    m_pBufSave := none }
  if c.m_unInlineTime ≠ 0 ∨ c.m_unInlineTime = 0 ∧ tool.m_unSendFlag ≠ 1 then
    c.SendPack env tool 1
  else some (c, [])

def OnDisconnected (env : Env) (tool : CServerTestTool) (c : CConnection) (unFlag : BitVec 32) :
    Option (CConnection × List (List Byte)) :=
  if unFlag = 1 then some (c, [])
  else if unFlag = 2 then some ({ c with m_bAllowFree := true }, [])
  else if unFlag = 3 then
    if c.m_unInlineTime = 0 ∧ tool.m_unSendFlag = 3 then c.SendPack env tool 1 else some (c, [])
  else some (c, [])

def OnSended (env : Env) (tool : CServerTestTool) (c : CConnection) (unLen : BitVec 32) :
    Option (CConnection × List (List Byte)) :=
  let c := { c with m_unSendBytes := c.m_unSendBytes + unLen }
  if tool.m_unSendFlag = 2 then c.SendPack env tool 1 else some (c, [])

/-- A pack whose sum was right. -/
def counted (c : CConnection) (index len time : BitVec 32) : CConnection :=
  { c with
    m_unIndexError := c.m_unIndexError + (if c.m_unIndexRecv ≠ index then 1 else 0)
    m_unIndexRecv := c.m_unIndexRecv + 1
    m_unRecvBytes := c.m_unRecvBytes + len
    m_unTime := if time = 0 then 1 else time }

/-- The loop of OnReceive over the data that are left, with the memory that lies beyond them:
what is kept of them when it ends. Without progress it would not end. -/
def takePacks (env : Env) (beyond : List Byte) : Nat → CConnection → List Byte →
    Option (CConnection × Option (List Byte))
  | 0, _, _ => none
  | passes + 1, c, data =>
    if data = [] then some (c, none)
    else do
      let memory := data ++ beyond
      let flag ← load32 memory unHeadFlag
      if flag ≠ HEAD_FLAG then return (c, none)
      let len ← load32 memory unLen
      if data.length < len.toNat then return (c, some data)
      let sum ← GetCRC (memory.drop unIndex) (len - 12)
      let crc ← load32 memory unCRC
      if sum ≠ crc then return ({ c with m_unCRCError := c.m_unCRCError + 1 }, none)
      let index ← load32 memory unIndex
      let sentAt ← load32 memory unTickCount
      let c := c.counted index len (env.GetTickCount passes - sentAt)
      takePacks env beyond passes c (data.drop len.toNat)

/-- The data in the buffer that the loop runs over, if it does: those that were kept and the
new ones are put together, up to a limit. -/
def merged (c : CConnection) (pBuf : List Byte) : Option (Option (List Byte)) :=
  match c.m_pBufSave with
  | none => some (some pBuf)
  | some saved =>
    let unPacksLen : BitVec 32 := BitVec.ofNat 32 saved.length + BitVec.ofNat 32 pBuf.length
    if 1024 * 1024 * 1 < unPacksLen.toNat then some none
    else if saved.length + pBuf.length ≤ unPacksLen.toNat then some (some (saved ++ pBuf))
    else none

/-- In one of the modes something that comes back is answered first. -/
def answer (env : Env) (tool : CServerTestTool) (c : CConnection) :
    Option (CConnection × List (List Byte)) :=
  if tool.m_unSendFlag = 4 then c.SendPack env tool 1 else some (c, [])

def OnReceive (env : Env) (tool : CServerTestTool) (c : CConnection) (pBuf beyond : List Byte) :
    Option (CConnection × List (List Byte)) := do
  let (c, packs) ← c.answer env tool
  match ← c.merged pBuf with
  | none => return ({ c with m_pBufSave := none }, packs)
  | some data =>
    let (c, kept) ← takePacks env beyond (data.length + 1) { c with m_pBufSave := none } data
    return ({ c with m_pBufSave := kept }, packs)

/-! ### The sending thread -/

/-- What SendThreadProc does with a connection in one pass, unless it is over; the tick is
that of the pass. -/
def sendThreadPass (env : Env) (tool : CServerTestTool) (c : CConnection) (dwTickCount : BitVec 32)
    (connected : Bool) : Option (CConnection × List (List Byte)) :=
  if c.m_bAllowFree then some (c, [])
  else if c.m_unInlineTime ≠ 0 ∧ c.m_unSendBytes ≠ 0 ∧ (c.m_unInlineTime = 1 ∨
      c.m_unInlineTime ≤ dwTickCount - c.m_unConnectTickCount) then
    some ({ c with m_unSendBytes := 0 }, [])
  else if tool.m_unSendFlag = 1 ∧ connected ∧
      tool.m_unSendSpaceTimeOfOnce ≤ dwTickCount - c.m_unSendTickCount then
    c.SendPack env tool tool.m_unSendPacketNumberOfOnce
  else some (c, [])

/-- What SendThreadProc does with a connection when the mode has changed. -/
def sendThreadSwitch (env : Env) (tool : CServerTestTool) (c : CConnection) (connected : Bool) :
    Option (CConnection × List (List Byte)) :=
  if (tool.m_unSendFlag = 2 ∨ tool.m_unSendFlag = 4) ∧ connected then c.SendPack env tool 1
  else some (c, [])

end CConnection

end TestIOCP.LoadTest
