/-! What the classes of the IOCP engine share: IOCompletionPortBase.h, and how a
call of the system can end. -/
namespace TestIOCP

/-- A socket handle; INVALID_SOCKET is the missing one. -/
abbrev Sock := Nat

inductive Status where
  | stop
  | run
  | error
  deriving DecidableEq, Repr

/-- The CK_ constants. -/
inductive OperateType where
  | FILE_READ
  | FILE_WRITE
  | SOCKET_READ
  | SOCKET_WRITE
  | SOCKET_LISTEN
  | SOCKET_CONNECT
  | SOCKET_DISCONNECT
  deriving DecidableEq, Repr

def RECVBUFSIZE : Nat := 2048

/-- What the environment decides: whether a call of the system fails, succeeds
or is pending. -/
inductive Outcome where
  | failed
  | pending
  | success
  deriving DecidableEq, Repr

/-- A CNoLockBiList, which counts the elements that were allocated for it. -/
structure BiList (α : Type) where
  eles : List α
  m_nAllocatedEleNum : BitVec 32

def BiList.pushTail {α : Type} (l : BiList α) (e : α) : BiList α :=
  { l with eles := l.eles ++ [e] }

def BiList.allocated {α : Type} (l : BiList α) : BiList α :=
  { l with m_nAllocatedEleNum := l.m_nAllocatedEleNum + 1 }

/-- NULL if the list is empty or holds NULL. -/
def BiList.popHead {α : Type} (l : BiList (Option α)) : BiList (Option α) × Option α :=
  match l.eles with
  | [] => (l, none)
  | e :: rest => ({ l with eles := rest }, e)

end TestIOCP
