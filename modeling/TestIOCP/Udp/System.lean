import TestIOCP.Udp.Receiver
import TestIOCP.Ledger

/-! The threads that run the receivers' code: calls of the owner, handlers of
dequeued completions, and observers that return buffers later. Each observer
calls ReturnBuf once for each delivery, at once or later, in any order. The
history fields number the references that addRef hands out and say what each
running call has in its hands. -/
namespace TestIOCP.Udp
open Transition

/-- A WSARecv that is posted and not yet dequeued. -/
structure Posted where
  req : Req
  buf : Buf
  socket : Sock
  deriving DecidableEq, Repr

structure Pool (R O : Type) where
  m_BufList : List Buf
  allocatedBufs : Nat
  refCount : Buf → BitVec 32
  m_IOReqList : List Req
  allocatedReqs : Nat
  reqs : Req → IOReq R
  reading : List Posted
  /-- The references that have not been given back. -/
  refs : List (Nat × Buf)
  /-- The deliveries whose observers have not yet called ReturnBuf. -/
  owed : List (Nat × O × Buf)
  nextRef : Nat

structure Shared (R O : Type) where
  pool : Pool R O
  receivers : R → Receiver
  locked : R → Bool
  sockets : List Sock
  nextSock : Sock

/-- What a running call has in its hands: a buffer of its own, with its count set
to zero or not yet; the buffer of its delivery loop while observers remain; the
reference that it is to give back; an IO request and the buffer noted in it. -/
structure Hand where
  buf : Option Buf := none
  zero : Bool := false
  loop : Option Buf := none
  ref : Option (Nat × Buf) := none
  req : Option Req := none
  filled : Option Buf := none
  deriving DecidableEq, Repr

/-- The handler of a completion starts with the buffer and the request. -/
def Posted.hand (posted : Posted) : Hand where
  buf := some posted.buf
  zero := true
  req := some posted.req
  filled := some posted.buf

inductive Entry (R : Type) where
  | init (r : R)
  | start (r : R)
  | stop (r : R)
  | consume (povlp : Req) (bytenumber : Int) (error : Bool)
  | returnBuf (delivery : Nat)
  deriving DecidableEq, Repr

variable {R O T : Type} [DecidableEq R] [DecidableEq O]

def Pool.step (p : Pool R O) (h : Hand) : (op : Op R O) → Outcome →
    Option (Pool R O × Hand × Res op)
  | .bufPop, _ =>
    match p.m_BufList with
    | [] => some (p, h, none)
    | b :: rest => some ({ p with m_BufList := rest },
      { h with buf := some b, zero := false }, some b)
  | .bufNew, _ =>
    some ({ p with allocatedBufs := p.allocatedBufs + 1 },
      { h with buf := some p.allocatedBufs, zero := false }, p.allocatedBufs)
  | .bufPush b, _ => some ({ p with m_BufList := p.m_BufList ++ [b] }, { h with buf := none }, ())
  | .clearRef b, _ =>
    some ({ p with refCount := Function.update p.refCount b 0 }, { h with zero := true }, ())
  | .addRef b, _ =>
    some ({ p with
        refCount := Function.update p.refCount b (p.refCount b + 1)
        refs := (p.nextRef, b) :: p.refs
        nextRef := p.nextRef + 1 },
      { h with buf := none, loop := some b, ref := some (p.nextRef, b) }, p.refCount b)
  | .releaseRef b, _ =>
    some ({ p with
        refCount := Function.update p.refCount b (p.refCount b - 1)
        refs := h.ref.elim p.refs p.refs.erase },
      { h with
        ref := none
        buf := if p.refCount b = 1 then some b else h.buf
        zero := if p.refCount b = 1 then true else h.zero }, p.refCount b)
  | .reqPop, _ =>
    match p.m_IOReqList with
    | [] => some (p, h, none)
    | q :: rest =>
      some ({ p with m_IOReqList := rest }, { h with req := some q, filled := none }, some q)
  | .reqNew r, _ =>
    some ({ p with
        allocatedReqs := p.allocatedReqs + 1
        reqs := Function.update p.reqs p.allocatedReqs ⟨r, none, 0⟩ },
      { h with req := some p.allocatedReqs, filled := none }, p.allocatedReqs)
  | .reqPush q, _ =>
    some ({ p with m_IOReqList := p.m_IOReqList ++ [q] },
      { h with req := none, filled := none }, ())
  | .reqGet q, _ => some (p, h, p.reqs q)
  | .setObserver q r, _ =>
    let req := { p.reqs q with m_pObserver := r }
    some ({ p with reqs := Function.update p.reqs q req }, h, ())
  | .setDataBuf q b size, _ =>
    let req := { p.reqs q with m_pDataBuf := some b, m_nBufSize := size }
    some ({ p with reqs := Function.update p.reqs q req }, { h with filled := some b }, ())
  | .importData iter rest b _, outcome =>
    let loop := if rest.isEmpty then none else h.loop
    if outcome = .success then some (p, { h with loop }, true)
    else match h.ref with
      | some (n, _) =>
        some ({ p with owed := (n, iter, b) :: p.owed }, { h with loop, ref := none }, false)
      | none => none
  | _, _ => none

/-- Operations on the fields of a receiver and on sockets; the others are on the
pools. -/
def step (s : Shared R O) (h : Hand) (op : Op R O) (outcome : Outcome) :
    Option (Shared R O × Hand × Res op) :=
  match op with
  | .get r => some (s, h, s.receivers r)
  | .set r f =>
    some ({ s with receivers := Function.update s.receivers r (f (s.receivers r)) }, h, ())
  | .makeMultiSocket =>
    if outcome = .failed then some (s, h, none)
    else some ({ s with sockets := s.nextSock :: s.sockets, nextSock := s.nextSock + 1 }, h,
      some s.nextSock)
  | .associateDevice _ => some (s, h, decide (outcome ≠ .failed))
  | .closesocket socket => some ({ s with sockets := s.sockets.erase socket }, h, ())
  | .lock r =>
    if s.locked r then none else some ({ s with locked := Function.update s.locked r true }, h, ())
  | .unlock r => some ({ s with locked := Function.update s.locked r false }, h, ())
  | .importNull _ => some (s, h, ())
  | .wsaRecv (some socket) q b =>
    if socket ∈ s.sockets ∧ outcome ≠ .failed then
      some ({ s with pool.reading := ⟨q, b, socket⟩ :: s.pool.reading },
        { h with buf := none, req := none, filled := none }, outcome)
    else some (s, h, .failed)
  | .wsaRecv none _ _ => some (s, h, .failed)
  | op => (s.pool.step h op outcome).map fun (pool, h', res) => ({ s with pool }, h', res)

def discard {α : Type} (p : Call R O α) : Call R O Unit := do
  let _ ← p

def enter (observers : R → List O) (s : Shared R O) :
    Entry R → Option (Shared R O × Hand × Call R O Unit)
  | .init r => some (s, {}, discard (initObject r))
  | .start r => some (s, {}, discard (start r))
  | .stop r => some (s, {}, discard (stop observers r))
  | .consume povlp bytenumber error =>
    (s.pool.reading.find? (fun x => x.req = povlp)).map fun posted =>
      ({ s with pool.reading := s.pool.reading.erase posted },
        posted.hand,
        discard (consumeReq observers (s.pool.reqs posted.req).m_pObserver bytenumber
          error posted.req))
  | .returnBuf delivery =>
    (s.pool.owed.find? (fun x => x.1 = delivery)).map fun due =>
      ({ s with pool.owed := s.pool.owed.erase due },
        { ref := some (due.1, due.2.2) }, discard (returnBuf due.2.2))

def semantics (observers : R → List O) :
    Semantics (Shared R O) Hand (Op R O) Res Outcome (Entry R) where
  enter := enter observers
  step := step

end TestIOCP.Udp
