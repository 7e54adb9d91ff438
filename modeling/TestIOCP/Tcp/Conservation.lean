import TestIOCP.Tcp.Balance
import TestIOCP.Tcp.Worker
import TestIOCP.Tcp.Connecter
import TestIOCP.Tcp.Parts

/-! No buffer and no IO request of the TCP classes is lost or in two places. -/
namespace TestIOCP.Tcp
open Transition Program Semantics

variable {α : Type} {l : Unit} {fits : IOReq → Prop} {bs : List Buf} {qs : List Req}
  {b : Buf} {q : Req}

/-- No list has an element yet, nothing is outstanding and there is memory. -/
structure Initial {F : Type} (s : Shared F) : Prop where
  lists : s.m_BufList = ⟨[], 0⟩ ∧ s.m_IOReqList = ⟨[], 0⟩
  allocated : s.newBufs = 0 ∧ s.newReqs = 0
  pending : s.pending = []
  available : s.available = true

/-- Every buffer and every request is in its list or goes with one operation that is
outstanding, and the numbers of allocated elements agree with that. -/
structure Conserved {F : Type} (s : Shared F) : Prop where
  buffers : (s.m_BufList.eles ++ (s.pending.filterMap Posted.buf).map some).Perm
    ((List.range s.newBufs).map some)
  requests : (s.m_IOReqList.eles ++ s.pending.map Posted.req).Perm (List.range s.newReqs)
  allocatedBufs : s.m_BufList.m_nAllocatedEleNum =
    BitVec.ofNat 32 (s.m_BufList.eles.length + (s.pending.filterMap Posted.buf).length)
  allocatedReqs : s.m_IOReqList.m_nAllocatedEleNum =
    BitVec.ofNat 32 (s.m_IOReqList.eles.length + s.pending.length)
  carries : ∀ p ∈ s.pending, (s.reqs p.req).m_pDataBuf = p.buf
  observers : ∀ p ∈ s.pending, (s.reqs p.req).m_pObserver = some p.object

/-- The static lists of a class are conserved in every run of its calls and handlers, each
of them one step, whenever none of them is running. -/
def Conserves (T : Type) [DecidableEq T] {F E : Type}
    (m : Semantics (Shared F) Unit (Op F) Res Outcome E)
    (permitted : Shared F → E → Prop) : Prop :=
  ∀ c : Config T (Shared F) Unit (Op F) Res,
    (m.system Initial ()).ReachableUnder (Serial permitted Free) c → (∀ t, c.code t = .ret ()) →
      Conserved c.shared

section
variable {F : Type} {s : Shared F}

theorem Initial.held (first : Initial s) : Held fits s [] [] := by
  obtain ⟨⟨bufs, reqs⟩, ⟨newBufs, newReqs⟩, pending, available⟩ := first
  refine ⟨⟨⟨?_, ?_⟩, ⟨?_⟩, ?_, ?_⟩, available⟩
  · rw [reqs, newReqs, pending]
    exact .refl _
  · simp [pending]
  · rw [bufs, newBufs, pending]
    exact .refl _
  · rw [reqs, newReqs]
    rfl
  · rw [bufs, newBufs]
    rfl

theorem Held.conserved (held : Held fits s [] []) : Conserved s := by
  have buffers := held.buffers.once
  have requests := held.requests.once
  refine ⟨?_, ?_, ?_, ?_, fun p inside => (held.requests.noted p inside).2.1,
    fun p inside => (held.requests.noted p inside).1⟩
  · simpa [Stocked] using buffers
  · simpa [Stocked] using requests
  · have count := buffers.length
    simp only [List.map_nil, List.length_nil, List.length_map, List.length_range] at count
    rw [held.allocatedBufs, ← count, Nat.add_zero]
  · have count := requests.length
    simp only [List.length_nil, List.length_map, List.length_range] at count
    rw [held.allocatedReqs, ← count, Nat.add_zero]

/-- A completion gives to the handler what was posted, as it was noted. -/
theorem Held.complete {p : Posted} (held : Held fits s [] []) (member : p ∈ s.pending) :
    Held fits { s with pending := s.pending.erase p } (p.buf.toList ++ []) [p.req] ∧
      (s.reqs p.req).m_pDataBuf = p.buf ∧ fits (s.reqs p.req) :=
  ⟨⟨⟨held.requests.complete member, held.buffers.complete member, held.allocatedReqs,
      held.allocatedBufs⟩,
    held.available⟩, (held.requests.noted p member).2⟩

/-- A call that starts in the state as it is. -/
theorem Balanced.entered {s' : Shared F} {n : Call F Int} {p : Call F Unit}
    (balanced : Balanced fits n)
    (held : Held fits s [] []) (same : some (s, (), Tcp.discard n) = some (s', l, p)) :
    p.Ensures step Free s' l (fun _ s _ => Held fits s [] []) := by
  cases same
  exact balanced.discard s () [] [] held

/-- A class conserves its lists if each of its calls does. -/
theorem Conserves.of_calls {T E : Type} [DecidableEq T]
    {m : Semantics (Shared F) Unit (Op F) Res Outcome E}
    {permitted : Shared F → E → Prop} (fits : IOReq → Prop) (steps : m.step = step)
    (calls : ∀ s e s' l p, Held fits s [] [] → permitted s e → m.enter s e = some (s', l, p) →
      p.Ensures step Free s' l (fun _ s _ => Held fits s [] [])) : Conserves T m permitted := by
  intro c run rest
  refine Held.conserved (holds_at_rest (I := fun s => Held fits s [] [])
    (fun _ first => first.held) ?_ run rest)
  rw [steps]
  exact calls

end

/-- Every operation of a worker or a listener has a buffer. -/
def Buffered (req : IOReq) : Prop :=
  req.m_pDataBuf ≠ none

namespace Worker
open Rtsp (Pooled)
open Engine (WorkerType)
variable {s : Shared Pooled} {w : Obj}

theorem stop_balanced (w : Obj) : Balanced fits (stop w) := by
  refine .of_plain (Every.bind (.perform trivial) fun _ => ?_)
  refine Every.bind (.perform trivial) fun this => ?_
  cases this.worker.m_TcpSocket with
  | none => trivial
  | some socket =>
    exact Every.bind (.perform trivial) fun _ => Every.bind (.perform trivial) fun _ => trivial

theorem uninitObject_balanced (w : Obj) : Balanced fits (uninitObject w) :=
  (stop_balanced w).bind fun _ => .ret _

theorem releaseIfOver_balanced (w : Obj) : Balanced fits (releaseIfOver w) := by
  refine Balanced.bind ((Balanced.get w).bind fun _ => .ret _) fun over_ => ?_
  split
  · exact .perform trivial
  · exact .ret _

theorem read_balanced (w : Obj) : Balanced Buffered (read w) :=
  transfer_balanced _ _ _ _ _ fun _ buffered _ => buffered

theorem write_balanced (w : Obj) (datsize : Nat) : Balanced Buffered (write w datsize) :=
  transfer_balanced _ _ _ _ _ fun _ buffered _ => buffered

/-- What is written is written before the buffer of the chunk goes back. -/
theorem readedDataProcess_held (held : Held Buffered s (b :: bs) qs) (type : WorkerType)
    (env : Rtsp.Env) (data : List CString.Byte) :
    (readedDataProcess type w (some b) env data).Ensures step Free s l (fun _ s' _ =>
      Held Buffered s' bs qs) := by
  cases type with
  | CTcpWorker =>
    refine (write_balanced w data.length s l _ _ held).seq fun res s l held => ?_
    exact held.bufPush.seq fun _ _ _ held => held.1
  | CRtspServer =>
    refine ensures_get.mpr ?_
    obtain ⟨server, replies⟩ := Rtsp.ReadedDataProcess env (s.objects w).server data
    refine (held.set _ _).seq fun _ s l held => ?_
    have written : Balanced Buffered (replies.forM fun reply =>
        discard (write w reply.message.length)) :=
      .forM fun reply => (write_balanced w _).discard
    refine (written s l _ _ held).seq fun _ s l held => ?_
    exact held.bufPush.seq fun _ _ _ held => held.1

theorem consumeReq_held (held : Held Buffered s (b :: bs) (q :: qs))
    (noted : (s.reqs q).m_pDataBuf = some b)
    (type : WorkerType) (env : Rtsp.Env) (data : List CString.Byte) (error : Bool) :
    (consumeReq type w env data error q).Ensures step Free s l (fun _ s' _ =>
      Held Buffered s' bs qs) := by
  have close {α : Type} {p : WorkerCall α} (rest : Balanced Buffered p) :
      Balanced Buffered (do let _ ← uninitObject w; p) :=
    (uninitObject_balanced w).bind fun _ => rest
  have release (n : Int) : Balanced Buffered (do releaseIfOver w; return n : WorkerCall Int) :=
    (releaseIfOver_balanced w).bind fun _ => .ret n
  have counted (c : Engine.Counter) (n : Int) :
      Balanced Buffered (do count w c; releaseIfOver w; return n : WorkerCall Int) :=
    (Balanced.set _ _).bind fun _ => release n
  simp only [Worker.consumeReq]
  cases error with
  | true =>
    refine ensures_reqGet.mpr ?_
    simp only [noted, ne_eq, reduceCtorEq, not_false_eq_true, if_true]
    exact held.giveBack ((Balanced.set _ _).bind fun _ => close (counted _ _))
  | false =>
    refine ensures_reqGet.mpr ?_
    rw [noted]
    cases operate : (s.reqs q).m_nOperateType with
    | SOCKET_READ =>
      refine (held.set _ _).seq fun _ s l held => ?_
      split
      · exact held.giveBack (close (release _))
      · refine (readedDataProcess_held held type env data).seq fun res s l held => ?_
        refine (held.set _ _).seq fun _ s l held => ?_
        refine held.reqBack ((Balanced.get w).bind fun this => ?_)
        split
        · exact close (release _)
        · refine (read_balanced w).bind fun res => ?_
          refine (Balanced.set _ _).bind fun _ => (Balanced.get w).bind fun this => ?_
          split
          · exact close (release _)
          · exact .ret _
    | SOCKET_WRITE =>
      refine (held.set _ _).seq fun _ s l held => ?_
      exact held.giveBack (.ret _)
    | _ => exact held.giveBack (close (counted _ _))

theorem initObject_balanced (w : Obj) (insock : Option Sock) :
    Balanced Buffered (initObject w insock) := by
  simp only [initObject]
  split
  · exact .ret _
  · refine (Balanced.set _ _).bind fun _ => (stock_balanced (some w)).bind fun _ => ?_
    exact (Balanced.set _ _).bind fun _ => .ret _

theorem start_balanced (w : Obj) : Balanced Buffered (start w) := by
  have zero (c : Engine.Counter) : Balanced Buffered (zero w c : WorkerCall Unit) :=
    .perform trivial
  refine (Balanced.get w).bind fun this => ?_
  split
  · exact .ret _
  refine (Balanced.get w).bind fun this => Balanced.bind (.perform trivial) fun associated => ?_
  split
  · exact .ret _
  refine (zero _).bind fun _ => (zero _).bind fun _ => (zero _).bind fun _ =>
    (zero _).bind fun _ => ?_
  refine (read_balanced w).bind fun res => ?_
  split
  · exact (Balanced.set _ _).bind fun _ => .ret _
  · exact .ret _

theorem enter_held {type : WorkerType} {s' : Shared Pooled} {e : Entry} {p : WorkerCall Unit}
    (held : Held Buffered s [] [])
    (entered : enter type s e = some (s', l, p)) :
    p.Ensures step Free s' l (fun _ s _ => Held Buffered s [] []) := by
  cases e with
  | initObject w insock => exact (initObject_balanced w insock).entered held entered
  | start w => exact (start_balanced w).entered held entered
  | stop w => exact (stop_balanced w).entered held entered
  | read w => exact (read_balanced w).entered held entered
  | write w datsize => exact (write_balanced w datsize).entered held entered
  | complete posted env data error =>
    simp only [enter] at entered
    split at entered
    · rename_i member
      obtain ⟨w, -, same⟩ := Option.map_eq_some_iff.mp entered
      cases same
      obtain ⟨held, carries, fits⟩ := held.complete member
      obtain ⟨b, buffer⟩ := Option.ne_none_iff_exists'.mp fits
      rw [← carries, buffer] at held
      exact (consumeReq_held held buffer type env data error).seq fun _ _ _ held => held
    · cases entered

end Worker

namespace Connecter
variable {s : Shared Connecter} {w : Obj}

/-- Only ConnectEx and DisconnectEx have no buffer. -/
def Fits (req : IOReq) : Prop :=
  req.m_pDataBuf = none ↔ req.m_nOperateType = .SOCKET_CONNECT ∨ req.m_nOperateType =
    .SOCKET_DISCONNECT

theorem read_balanced (w : Obj) : Balanced Fits (read w) :=
  transfer_balanced _ _ _ _ _ fun _ buffered reads => by simp [Fits, buffered, reads]

theorem write_balanced (w : Obj) (datsize : Nat) : Balanced Fits (write w datsize) := by
  refine (Balanced.get w).bind fun this => ?_
  split
  · exact .ret _
  · exact transfer_balanced _ _ _ _ _ fun _ buffered writes => by simp [Fits, buffered, writes]

theorem connect_balanced (w : Obj) : Balanced Fits (connect w) := by
  intro s l bs qs held
  refine (held.takeReq none).seq ?_
  rintro r s l ⟨q, found, held⟩
  subst found
  exact held.postBare _ fun _ bare connects => by simp [Fits, bare, connects]

/-- Stop asks for the disconnection before it closes the socket. -/
theorem stop_balanced (w : Obj) : Balanced Fits (stop w) := by
  refine (Balanced.set _ _).bind fun _ => (Balanced.get w).bind fun this => ?_
  have close (socket : Sock) : Balanced Fits (do
      perform (.closesocket socket)
      set w fun o => { o with m_TcpSocket := none }
      return 0 : ConnecterCall Int) :=
    .of_plain (Every.bind (.perform trivial) fun _ =>
      Every.bind (.perform trivial) fun _ => trivial)
  cases this.m_TcpSocket with
  | none => exact .ret _
  | some socket =>
    refine (Balanced.get w).bind fun this => ?_
    split
    · intro s l bs qs held
      refine (held.takeReq none).seq ?_
      rintro r s l ⟨q, found, held⟩
      subst found
      have posted := held.postBare (w := w) (s := s) (l := l) .SOCKET_DISCONNECT
        fun _ bare disconnects => by simp [Fits, bare, disconnects]
      refine Ensures.bind (Ensures.bind (posted.mono fun _ s l held => ?_))
      exact close socket s l bs qs held
    · exact close socket

theorem uninitObject_balanced (w : Obj) : Balanced Fits (uninitObject w) :=
  (stop_balanced w).bind fun _ => .ret _

theorem releaseIfOver_balanced (w : Obj) : Balanced fits (releaseIfOver w) := by
  refine Balanced.bind ((Balanced.get w).bind fun _ => .ret _) fun over_ => ?_
  split
  · refine (Balanced.get w).bind fun this => ?_
    split
    · exact .perform trivial
    · exact .ret _
  · exact .ret _

theorem readOrClose_balanced (w : Obj) : Balanced Fits (readOrClose w) := by
  refine (read_balanced w).bind fun res => ?_
  split
  · refine (uninitObject_balanced w).bind fun _ => (Balanced.set _ _).bind fun _ => ?_
    exact (releaseIfOver_balanced w).bind fun _ => .ret _
  · exact .ret _

theorem start_balanced (w : Obj) : Balanced Fits (start w) := by
  have zero (c : Engine.Counter) : Balanced Fits (zero w c : ConnecterCall Unit) := .perform trivial
  refine (Balanced.get w).bind fun this => ?_
  split
  · exact .ret _
  refine (Balanced.get w).bind fun this => Balanced.bind (.perform trivial) fun associated => ?_
  split
  · exact .ret _
  refine (zero _).bind fun _ => (zero _).bind fun _ => (zero _).bind fun _ =>
    (zero _).bind fun _ => ?_
  refine (zero _).bind fun _ => (Balanced.set _ _).bind fun _ =>
    (connect_balanced w).bind fun res => ?_
  split
  · exact (Balanced.set _ _).bind fun _ => .ret _
  · exact .ret _

theorem initObject_balanced (w : Obj) (named : Bool) (pallocater : Option Obj) :
    Balanced Fits (initObject w named pallocater) := by
  simp only [initObject]
  split
  · exact .ret _
  refine (Balanced.set _ _).bind fun _ => (stock_balanced none).bind fun _ => ?_
  refine Balanced.bind (.perform trivial) fun m_TcpSocket => (Balanced.set _ _).bind fun _ => ?_
  refine (Balanced.get w).bind fun this => ?_
  split <;> exact .ret _

/-- What the branches of ConsumeReq do is balanced but for the request that they give back
and its buffer, if it has one. -/
theorem consumeReq_held {m_pDataBuf : Option Buf}
    (held : Held Fits s (m_pDataBuf.toList ++ bs) (q :: qs))
    (noted : (s.reqs q).m_pDataBuf = m_pDataBuf ∧ Fits (s.reqs q)) (bytenumber : Nat)
    (error : Bool) :
    (consumeReq w bytenumber error q).Ensures step Free s l (fun _ s' _ => Held Fits s' bs qs) := by
  obtain ⟨carried, fits⟩ := noted
  rw [Fits, carried] at fits
  have close {α : Type} {p : ConnecterCall α} (rest : Balanced Fits p) :
      Balanced Fits (do let _ ← uninitObject w; p) :=
    (uninitObject_balanced w).bind fun _ => rest
  have release (n : Int) : Balanced Fits (do releaseIfOver w; return n : ConnecterCall Int) :=
    (releaseIfOver_balanced w).bind fun _ => .ret n
  simp only [Connecter.consumeReq]
  cases error with
  | true =>
    have after : Balanced Fits (do
        let _ ← uninitObject w
        setStatus w .error
        count w .m_nErrorNum
        releaseIfOver w
        return -1 : ConnecterCall Int) :=
      close ((Balanced.set _ _).bind fun _ => (Balanced.set _ _).bind fun _ => release _)
    refine ensures_reqGet.mpr ?_
    rw [carried]
    cases m_pDataBuf with
    | none => exact held.reqBack after
    | some b => exact held.giveBack after
  | false =>
    refine ensures_reqGet.mpr ?_
    rw [carried]
    cases operate : (s.reqs q).m_nOperateType with
    | SOCKET_CONNECT =>
      obtain rfl : m_pDataBuf = none := fits.mpr (.inl operate)
      refine (held.set _ _).seq fun _ s l held => (held.set _ _).seq fun _ s l held => ?_
      exact held.reqBack (readOrClose_balanced w)
    | SOCKET_DISCONNECT =>
      obtain rfl : m_pDataBuf = none := fits.mpr (.inr operate)
      refine (held.set _ _).seq fun _ s l held => ?_
      exact held.reqBack ((Balanced.set _ _).bind fun _ => release _)
    | SOCKET_READ =>
      obtain ⟨b, rfl⟩ := Option.ne_none_iff_exists'.mp (mt fits.mp (by simp [operate]))
      refine (held.set _ _).seq fun _ s l held => ?_
      split
      · exact held.giveBack (close (release _))
      · refine Ensures.bind (Ensures.bind (held.bufPush.mono fun _ s l held => ?_))
        refine held.1.reqBack ?_
        split
        · exact close (release _)
        · exact readOrClose_balanced w
    | SOCKET_WRITE =>
      obtain ⟨b, rfl⟩ := Option.ne_none_iff_exists'.mp (mt fits.mp (by simp [operate]))
      refine (held.set _ _).seq fun _ s l held => ?_
      exact held.giveBack (.ret _)
    | _ =>
      obtain ⟨b, rfl⟩ := Option.ne_none_iff_exists'.mp (mt fits.mp (by simp [operate]))
      refine (held.set _ _).seq fun _ s l held => ?_
      exact held.giveBack (close (release _))

theorem enter_held {s' : Shared Connecter} {e : Entry} {p : ConnecterCall Unit}
    (held : Held Fits s [] [])
    (entered : enter s e = some (s', l, p)) :
    p.Ensures step Free s' l (fun _ s _ => Held Fits s [] []) := by
  cases e with
  | initObject w named pallocater =>
    exact (initObject_balanced w named pallocater).entered held entered
  | start w => exact (start_balanced w).entered held entered
  | stop w => exact (stop_balanced w).entered held entered
  | read w => exact (read_balanced w).entered held entered
  | write w datsize => exact (write_balanced w datsize).entered held entered
  | connect w => exact (connect_balanced w).entered held entered
  | complete posted bytenumber error =>
    simp only [enter] at entered
    split at entered
    · rename_i member
      obtain ⟨w, -, same⟩ := Option.map_eq_some_iff.mp entered
      cases same
      obtain ⟨held, noted⟩ := held.complete member
      exact (consumeReq_held held noted bytenumber error).seq fun _ _ _ held => held
    · cases entered

end Connecter

namespace Listener
variable {s : Shared Listener} {w : Obj}

theorem accept_balanced (w : Obj) : Balanced Buffered (accept w) := by
  intro s l bs qs held
  refine held.takeBuf.seq ?_
  rintro r s l ⟨b, found, held⟩
  subst found
  refine (Balanced.of_plain (takeSocket_every trivial trivial trivial) s l _ _ held).seq
    fun found s l held => ?_
  cases found with
  | none =>
    refine (held.set _ _).seq fun _ s l held => ?_
    exact Ensures.bind (held.bufPush.mono fun _ _ _ held => held.1)
  | some sock =>
    refine (held.takeReq (some w)).seq ?_
    rintro r s l ⟨q, found, held⟩
    subst found
    refine (held.reqSet _).seq ?_
    rintro _ s l ⟨held, reqs⟩
    refine ensures_get.mpr ?_
    refine (held.post (b := some b) (w := w) _ LISTENBUFSIZE ?_).seq fun r s' l after => ?_
    · rw [reqs]
      exact ⟨rfl, rfl, by simp [Buffered]⟩
    · rcases after with ⟨rfl, rfl⟩ | ⟨accepted, held⟩
      · refine (held.set _ _).seq fun _ s l held => ?_
        refine held.bufPush.seq ?_
        rintro _ s l ⟨held, _⟩
        have back : Balanced Buffered (perform (.socketPush sock) : ListenerCall Unit) :=
          .perform trivial
        refine (back s l _ _ held).seq fun _ s l held => ?_
        exact held.reqPush.seq fun _ _ _ held => held
      · cases r with
        | failed => exact absurd rfl accepted
        | pending | success => exact held

theorem stop_balanced (w : Obj) : Balanced fits (stop w) := by
  refine .of_plain (Every.bind (.perform trivial) fun _ => ?_)
  refine Every.bind (.perform trivial) fun this => ?_
  cases this.m_TcpSocket with
  | none => trivial
  | some socket =>
    exact Every.bind (.perform trivial) fun _ => Every.bind (.perform trivial) fun _ => trivial

theorem start_balanced (w : Obj) (attached : Bool) : Balanced Buffered (start w attached) := by
  have last : Balanced Buffered (do
      if (← accept w) = 0 then
        status w .run
        return 0
      else
        return -3 : ListenerCall Int) := by
    refine (accept_balanced w).bind fun res => ?_
    split
    · exact (Balanced.set _ _).bind fun _ => .ret _
    · exact .ret _
  refine (Balanced.get w).bind fun this => ?_
  split
  · exact .ret _
  refine Balanced.bind (.perform trivial) fun m_TcpSocket => (Balanced.set _ _).bind fun _ => ?_
  refine (Balanced.get w).bind fun this => ?_
  split
  · exact (Balanced.set _ _).bind fun _ => .ret _
  cases attached with
  | false => exact last
  | true =>
    refine (Balanced.get w).bind fun this => Balanced.bind (.perform trivial) fun associated => ?_
    split
    · exact (Balanced.set _ _).bind fun _ => .ret _
    · exact last

theorem initObject_balanced (w : Obj) (named : Bool) : Balanced Buffered (initObject w named) := by
  simp only [initObject, baseInitObject]
  generalize List.replicate initsize () = items
  refine Balanced.bind ?_ fun _ => Balanced.bind (.forM fun _ => ?_) fun _ => .ret _
  · split
    · exact .ret _
    refine stockBuf_balanced (Balanced.bind (.forM fun _ => ?_) fun _ => ?_)
    · exact .of_plain (Every.bind (.perform trivial) fun _ => Every.bind (.perform trivial) fun _ =>
        .perform trivial)
    · exact stockReq_balanced (some w) fun _ => ⟨_, .ret 0, rfl⟩
  · refine Balanced.bind (.perform trivial) fun made => ?_
    cases made with
    | none => exact .ret _
    | some pworker => exact Balanced.bind (.perform trivial) fun _ => .perform trivial

theorem releaseObject_balanced (w pobject : Obj) : Balanced fits (releaseObject w pobject) :=
  Balanced.bind (.perform trivial) fun _ => (Balanced.set _ _).bind fun _ => .ret _

/-- Every branch of ConsumeReq gives the buffer and the request back, with or without a worker. -/
theorem consumeReq_held (held : Held Buffered s (b :: bs) (q :: qs))
    (noted : (s.reqs q).m_pDataBuf = some b) (error : Bool) :
    (consumeReq w .SOCKET_LISTEN error q).Ensures step Free s l (fun _ s' _ =>
      Held Buffered s' bs qs) := by
  simp only [Listener.consumeReq, if_true]
  cases error with
  | true =>
    refine ensures_reqGet.mpr ?_
    simp only [noted, ne_eq, reduceCtorEq, not_false_eq_true, if_true]
    cases (s.reqs q).m_Socket with
    | none => exact held.giveBack (.ret _)
    | some socket =>
      refine ensures_op.mpr fun _ => ?_
      refine ((held.congr rfl).reqSet _).seq ?_
      rintro _ s l ⟨held, _⟩
      exact held.giveBack (.ret _)
  | false =>
    refine (plain_ensures (takeWorker_every trivial trivial trivial)).seq fun found s' l same => ?_
    have held := held.congr same
    have noted : (s'.reqs q).m_pDataBuf = some b := by
      simp only [stocks, Prod.mk.injEq] at same
      rw [same.2.2.2.2.1, noted]
    cases found with
    | none =>
      refine ensures_reqGet.mpr ?_
      rw [noted]
      cases (s'.reqs q).m_Socket with
      | none => exact held.giveBack (.ret _)
      | some socket =>
        refine ensures_op.mpr fun _ => ?_
        exact (held.congr rfl).giveBack (.ret _)
    | some pworker =>
      refine ensures_reqGet.mpr ?_
      rw [noted]
      have next : Balanced Buffered (do
          discard (accept w)
          return 0 : ListenerCall Int) :=
        (accept_balanced w).discard.bind fun _ => .ret _
      refine held.giveBack (Balanced.bind (.perform trivial) fun started => ?_)
      split
      · exact (Balanced.set _ _).bind fun _ => next
      · exact Balanced.bind (.perform trivial) fun _ => next

/-- The allocator always has memory. -/
def Supplied (_ : Shared Listener) : Entry → Prop
  | .memory available => available = true
  | _ => True

instance (s : Shared Listener) : (e : Entry) → Decidable (Supplied s e)
  | .memory available => inferInstanceAs (Decidable (available = true))
  | .initObject _ _ | .start _ _ | .stop _ | .accept _ | .complete _ _ |
    .releaseObject _ _ => .isTrue trivial

theorem enter_held {s' : Shared Listener} {e : Entry} {p : ListenerCall Unit}
    (held : Held Buffered s [] [])
    (supplied : Supplied s e) (entered : enter s e = some (s', l, p)) :
    p.Ensures step Free s' l (fun _ s _ => Held Buffered s [] []) := by
  cases e with
  | initObject w named => exact (initObject_balanced w named).entered held entered
  | start w attached => exact (start_balanced w attached).entered held entered
  | stop w => exact (stop_balanced w).entered held entered
  | accept w => exact (accept_balanced w).entered held entered
  | releaseObject w pobject => exact (releaseObject_balanced w pobject).entered held entered
  | memory available =>
    cases entered
    obtain rfl : available = true := supplied
    exact held.congr (by rw [stocks, stocks, held.available])
  | complete posted error =>
    simp only [enter] at entered
    split at entered
    · rename_i member
      obtain ⟨w, -, same⟩ := Option.map_eq_some_iff.mp entered
      cases same
      obtain ⟨held, carries, fits⟩ := held.complete member
      obtain ⟨b, buffer⟩ := Option.ne_none_iff_exists'.mp fits
      rw [← carries, buffer] at held
      exact (consumeReq_held held buffer error).seq fun _ _ _ held => held
    · cases entered

end Listener

theorem pools_conserved {T : Type} [DecidableEq T] :
    (∀ type, Conserves T (Worker.semantics type) AnyOrder) ∧
      Conserves T Connecter.semantics AnyOrder ∧
      Conserves T Listener.semantics Listener.Supplied :=
  ⟨fun _ => .of_calls Buffered rfl fun _ _ _ _ _ held _ entered => Worker.enter_held held entered,
    .of_calls Connecter.Fits rfl fun _ _ _ _ _ held _ entered => Connecter.enter_held held entered,
    .of_calls Buffered rfl fun _ _ _ _ _ held supplied entered =>
      Listener.enter_held held supplied entered⟩

theorem unused_initial {F : Type} (object : F) : Initial (unused object) :=
  ⟨⟨rfl, rfl⟩, ⟨rfl, rfl⟩, rfl, rfl⟩

/-- A worker reads, a second one writes and is stopped. -/
def workers : List (Worker.Entry × Outcome) :=
  [(.initObject 0 (some 5), .success), (.start 0, .pending), (.write 1 8, .failed),
    (.initObject 1 (some 6), .success), (.write 1 8, .pending),
    (.complete ⟨1, some 1, 1, some 6⟩ .blank [] true, .pending)]

/-- A connecter connects and receives, and is stopped while it reads. -/
def connecters : List (Connecter.Entry × Outcome) :=
  [(.initObject 0 true none, .success), (.start 0, .pending),
    (.complete ⟨0, none, 0, some 0⟩ 0 false, .pending), (.stop 0, .pending)]

/-- A listener accepts; its next AcceptEx is aborted. -/
def listeners : List (Listener.Entry × Outcome) :=
  [(.start 0 true, .pending), (.complete ⟨0, some 0, 0, some 0⟩ false, .pending),
    (.complete ⟨0, some 0, 0, some 0⟩ true, .pending)]

theorem Conserves.ran {F E : Type} {m : Semantics (Shared F) Unit (Op F) Res Outcome E}
    {permitted : Shared F → E → Prop} [∀ s e, Decidable (permitted s e)]
    (conserves : Conserves Unit m permitted)
    {object : F} {events : List (E × Outcome)} {s : Shared F}
    (ran : m.calls permitted (unused object) events = some s) : Conserved s := by
  obtain ⟨c, reached, rfl, idle⟩ :=
    calls_reachable (m := m) (s := ⟨unused object, fun _ => (), fun _ => .ret ()⟩)
    (fun _ _ => trivial) () (.initial ⟨unused_initial object, fun _ => ⟨rfl, rfl⟩⟩)
      (fun _ => rfl) ran
  exact conserves c reached idle

theorem workers_run :
    ((Worker.semantics .CTcpWorker).calls AnyOrder
      (unused ⟨⟨none, .stop, 0⟩, fun _ => 0, Rtsp.blank⟩) workers).map
      (fun s => (s.m_BufList.eles, s.pending)) =
        some ([some 2, some 1], [⟨0, some 0, 0, some 5⟩]) := by
  decide +kernel

theorem connecters_run :
    (Connecter.semantics.calls AnyOrder
      (unused ⟨⟨none, .stop, false, none⟩, fun _ => 0⟩) connecters).map
      (fun s => (s.m_IOReqList.eles, s.pending)) =
        some ([], [⟨1, none, 0, some 0⟩, ⟨0, some 0, 0, some 0⟩]) := by
  decide +kernel

theorem listeners_run :
    (Listener.semantics.calls Listener.Supplied (unused ⟨none, .stop, 0⟩) listeners).map
      (fun s => (s.m_BufList.eles, s.pending)) = some ([some 0], []) := by
  decide +kernel

theorem pools_conserved_after_runs :
    (∃ s : Shared Rtsp.Pooled, s.pending = [⟨0, some 0, 0, some 5⟩] ∧ Conserved s) ∧
      (∃ s : Shared Connecter, s.pending =
        [⟨1, none, 0, some 0⟩, ⟨0, some 0, 0, some 0⟩] ∧ Conserved s) ∧
      (∃ s : Shared Listener, s.m_BufList.eles = [some 0] ∧ Conserved s) := by
  obtain ⟨workers_, connecters_, listeners_⟩ := pools_conserved (T := Unit)
  obtain ⟨s₁, ran₁, after₁⟩ := Option.map_eq_some_iff.mp workers_run
  obtain ⟨s₂, ran₂, after₂⟩ := Option.map_eq_some_iff.mp connecters_run
  obtain ⟨s₃, ran₃, after₃⟩ := Option.map_eq_some_iff.mp listeners_run
  exact ⟨⟨s₁, (Prod.mk.inj after₁).2, (workers_ .CTcpWorker).ran ran₁⟩,
    ⟨s₂, (Prod.mk.inj after₂).2, connecters_.ran ran₂⟩,
    ⟨s₃, (Prod.mk.inj after₃).1, listeners_.ran ran₃⟩⟩

end TestIOCP.Tcp
