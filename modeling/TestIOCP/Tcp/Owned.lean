import TestIOCP.Tcp.Owners
import TestIOCP.Tcp.Parts

/-! A socket that Accept has taken is always somewhere, and nowhere twice, unless the Start
of a worker fails or a worker stands in the list twice. -/
namespace TestIOCP.Tcp.Accepting
open Transition Program Semantics
open Rtsp (Pooled)
open Engine (WorkerType)

variable {α β : Type} {s s' s₁ : Shared} {hand : Option Sock} {qs : List Req} {q : Req}
  {v w : Obj} {x : Sock}

/-- The state when the allocator has been asked. -/
theorem supplied (s : Shared) (available : Bool) :
    Same s { s with listener.available := available } :=
  ⟨rfl, rfl, rfl, rfl, rfl, rfl, fun _ => rfl, fun _ => rfl, rfl, rfl, rfl, rfl, rfl⟩

/-- An operation of a listener, when the allocator has been asked. -/
def Shared.after (s : Shared) (outcome : Outcome) (op : Tcp.Op Listener) : Shared :=
  { s with
    listener := (s.listener.perform outcome op).1
    taken := takes s.listener op ++ s.taken
    closed := closes op ++ s.closed }

theorem neutral_after (op : Tcp.Op Listener) (neutral : Neutral (.listener op))
    (outcome : Outcome) :
    Same s (s.after outcome op) :=
  neutral.same ⟨outcome, s.listener.available⟩

/-- How operations of the listener are embedded. -/
def Plain (h : (op : Tcp.Op Listener) → Handler (Tcp.Res op)) : Prop :=
  ∀ op, (∀ w insock, op ≠ .startWorker w insock) → h op = perform (.listener op)

/-- A call of a listener goes on with the next operation. -/
theorem Owning.next {h : (op : Tcp.Op Listener) → Handler (Tcp.Res op)} {op : Tcp.Op Listener}
    {rest : Tcp.Res op → ListenerCall α} {Q : α → Shared → Prop} (owning : Owning s hand qs)
    (plain : h op = perform (.listener op))
    (next : ∀ s₀ outcome, Same s s₀ → Owning s₀ hand qs →
      Always ((rest (s₀.listener.perform outcome op).2).translate h) (s₀.after outcome op) Q) :
    Always ((Tcp.perform op >>= rest).translate h) s Q :=
  (always_listener plain).mpr fun c =>
    next _ c.outcome (supplied s c.available) ((supplied s c.available).owning owning)

/-- Past an operation that moves nothing. -/
theorem Owning.pass {h : (op : Tcp.Op Listener) → Handler (Tcp.Res op)} {op : Tcp.Op Listener}
    {rest : Tcp.Res op → ListenerCall α} {Q : α → Shared → Prop} (owning : Owning s hand qs)
    (plain : h op = perform (.listener op)) (neutral : Neutral (.listener op))
    (next : ∀ r s', Same s s' → Owning s' hand qs → Always ((rest r).translate h) s' Q) :
    Always ((Tcp.perform op >>= rest).translate h) s Q := by
  refine owning.next plain fun s₀ outcome same owning => ?_
  have same' := neutral_after (s := s₀) op neutral outcome
  exact next _ _ (same.trans same') (same'.owning owning)

theorem plain_listenerOp (v : Obj) : Plain (listenerOp v) := by
  intro op other
  cases op
  case startWorker w insock => exact absurd rfl (other w insock)
  all_goals rfl

theorem calm_always {h : (op : Tcp.Op Listener) → Handler (Tcp.Res op)} {p : ListenerCall α}
    (plain : Plain h)
    (calm : p.Every fun op => Neutral (.listener op)) :
      Always (p.translate h) s fun _ s' => Same s s' := by
  refine neutral_always (calm.translate fun op neutral => ?_)
  rw [plain op]
  · exact Every.perform neutral
  · rintro w insock rfl
    exact neutral

namespace Owning

theorem reqPush (owning : Owning s hand (q :: qs)) :
    Owning { s with listener.m_IOReqList := s.listener.m_IOReqList.pushTail q } hand qs :=
  ⟨owning.requests.push, owning.apart.congr (fun _ _ => Iff.rfl) rfl rfl rfl rfl,
    owning.staff.congr (fun _ => rfl) rfl rfl rfl⟩

theorem reqPop {rest : List Req} (owning : Owning s hand qs)
    (list : s.listener.m_IOReqList.eles = q :: rest) :
    Owning { s with listener.m_IOReqList.eles := rest } hand (q :: qs) :=
  ⟨owning.requests.pop list, owning.apart.congr (fun _ _ => Iff.rfl) rfl rfl rfl rfl,
    owning.staff.congr (fun _ => rfl) rfl rfl rfl⟩

theorem reqNew (owning : Owning s hand qs) (req : IOReq) :
    Owning { s with
      listener.newReqs := s.listener.newReqs + 1
      listener.reqs := Function.update s.listener.reqs s.listener.newReqs req } hand
          (s.listener.newReqs :: qs) := by
  have others : ∀ p ∈ s.listener.pending, p.req ≠ s.listener.newReqs := fun p inside =>
    Nat.ne_of_lt (owning.requests.known p inside)
  exact ⟨owning.requests.new req,
    (owning.apart.write others req).congr (fun _ _ => Iff.rfl) rfl rfl rfl rfl,
    owning.staff.congr (fun _ => rfl) rfl rfl rfl⟩

/-- A request in the hands of the call is written. -/
theorem reqSet (owning : Owning s hand (q :: qs)) (req : IOReq) :
    Owning { s with listener.reqs := Function.update s.listener.reqs q req } hand (q :: qs) :=
  ⟨owning.requests.write req, owning.apart.write owning.requests.apart req,
    owning.staff.congr (fun _ => rfl) rfl rfl rfl⟩

/-- What the list holds may be INVALID_SOCKET. -/
theorem socketPop {sock : Option Sock} {rest : List (Option Sock)} (owning : Owning s none qs)
    (list : s.listener.m_SocketList.eles = sock :: rest) :
    Owning { s with listener.m_SocketList.eles := rest, taken := sock.toList ++ s.taken } sock
      qs := by
  refine ⟨owning.requests.congr rfl rfl rfl rfl, ?_, owning.staff.congr (fun _ => rfl) rfl rfl rfl⟩
  cases sock with
  | some x => exact owning.apart.pop list
  | none => exact owning.apart.discard list

theorem fresh (owning : Owning s none qs) :
    Owning { s with listener.nextSock := s.listener.nextSock + 1 } (some s.listener.nextSock) qs :=
  ⟨owning.requests.congr rfl rfl rfl rfl, owning.apart.fresh,
    owning.staff.congr (fun _ => rfl) rfl rfl rfl⟩

/-- AcceptEx is refused. -/
theorem attempt (owning : Owning s hand qs) :
    Owning { s with taken := hand.toList ++ s.taken } hand qs :=
  ⟨owning.requests, owning.apart.attempt, owning.staff.congr (fun _ => rfl) rfl rfl rfl⟩

/-- AcceptEx is outstanding. -/
theorem post {posted : Posted} (owning : Owning s hand (posted.req :: qs))
    (socket : (s.listener.reqs posted.req).m_Socket = hand)
    (noted : (s.listener.reqs posted.req).m_pObserver = some posted.object ∧
      (s.listener.reqs posted.req).m_pDataBuf = posted.buf) :
    Owning { s with
      listener.pending := posted :: s.listener.pending
      taken := hand.toList ++ s.taken } none qs := by
  refine ⟨(owning.requests.post ⟨noted.1, noted.2, trivial⟩).congr rfl rfl rfl rfl, ?_,
    owning.staff.congr (fun _ => rfl) rfl rfl rfl⟩
  exact owning.apart.attempt.post socket

theorem socketPush (owning : Owning s hand qs) :
    Owning { s with listener.m_SocketList := s.listener.m_SocketList.pushTail hand } none qs :=
  ⟨owning.requests.congr rfl rfl rfl rfl, owning.apart.push,
    owning.staff.congr (fun _ => rfl) rfl rfl rfl⟩

/-- A worker without a socket goes to the list. -/
theorem workerPush (owning : Owning s hand qs)
    (idle : (s.worker.objects w).worker.m_TcpSocket = none)
    (born : w < s.listener.newWorkers) :
    Owning { s with listener.m_WorkerList := s.listener.m_WorkerList.pushTail w } hand qs := by
  refine ⟨owning.requests.congr rfl rfl rfl rfl,
    owning.apart.congr (fun _ _ => Iff.rfl) rfl rfl rfl rfl, ?_, ?_⟩
  · intro u inside
    rcases List.mem_append.mp inside with inside | inside
    · exact owning.staff.idle u inside
    · rw [List.mem_singleton.mp inside, idle]
  · intro u new
    obtain ⟨before, unlisted, rest⟩ := owning.staff.unborn u new
    refine ⟨before, fun inside => ?_, rest⟩
    rcases List.mem_append.mp inside with inside | inside
    · exact unlisted inside
    · obtain rfl := List.mem_singleton.mp inside
      exact absurd born (Nat.not_lt.mpr new)

/-- A worker closes its socket. -/
theorem stop {object : Pooled} (owning : Owning s hand qs)
    (has : (s.worker.objects w).worker.m_TcpSocket = some x)
    (socket : object.worker.m_TcpSocket = none) :
    Owning { s with
      worker.objects := Function.update s.worker.objects w object
      closed := x :: s.closed } hand qs := by
  have none_ (u : Obj) (before : (s.worker.objects u).worker.m_TcpSocket = none) :
      (Function.update s.worker.objects w object u).worker.m_TcpSocket = none := by
    by_cases same : u = w
    · subst same
      rw [Function.update_self, socket]
    · rw [Function.update_of_ne same, before]
  refine ⟨owning.requests, owning.apart.stop has socket, fun u inside =>
    none_ u (owning.staff.idle u inside), fun u new => ?_⟩
  obtain ⟨before, rest⟩ := owning.staff.unborn u new
  exact ⟨none_ u before, rest⟩

end Owning

/-- A request is taken, or there is none. -/
theorem takeReq_always (owning : Owning s hand qs) (v : Obj) (m_pObserver : Option Obj) :
    Always ((takeReq m_pObserver : ListenerCall (Option Req)).translate
      (listenerOp v)) s fun r s' =>
      Owning s' hand (r.toList ++ qs) := by
  refine owning.next rfl fun s outcome _ owning => ?_
  simp only [Shared.after, Tcp.Shared.perform, takes, closes]
  cases list : s.listener.m_IOReqList.eles with
  | cons q rest => exact owning.reqPop list
  | nil =>
    refine owning.next rfl fun s outcome _ owning => ?_
    simp only [Shared.after, Tcp.Shared.perform, takes, closes]
    by_cases memory : s.listener.available = true
    · simp only [if_pos memory]
      have made := owning.reqNew { s.listener.reqs s.listener.newReqs with m_pObserver }
      refine made.next rfl fun s outcome _ owning => ?_
      exact (neutral_after .reqAllocated trivial outcome).owning owning
    · simp only [if_neg memory]
      exact owning

/-- A new socket is in hand, or WSASocket has failed. -/
theorem wsaSocket_always {h : (op : Tcp.Op Listener) → Handler (Tcp.Res op)}
    {rest : Option Sock → ListenerCall α}
    {Q : α → Shared → Prop} (owning : Owning s none qs)
    (plain : h .wsaSocket = perform (.listener .wsaSocket))
    (next : ∀ sock s', Owning s' sock qs → Always ((rest sock).translate h) s' Q) :
    Always ((Tcp.perform .wsaSocket >>= rest).translate h) s Q := by
  refine owning.next plain fun s outcome _ owning => ?_
  simp only [Shared.after, Tcp.Shared.perform, takes, closes]
  by_cases made : outcome ≠ .failed
  · simp only [if_pos made]
    exact next _ _ owning.fresh
  · simp only [if_neg made]
    exact next _ _ owning

/-- A socket is taken from the list or made, or there is none. -/
theorem takeSocket_always (owning : Owning s none qs) (v : Obj) :
    Always (Listener.takeSocket.translate (listenerOp v)) s fun r s' => Owning s' r.join qs := by
  refine owning.next rfl fun s outcome _ owning => ?_
  simp only [Shared.after, Tcp.Shared.perform, takes, closes]
  cases list : s.listener.m_SocketList.eles with
  | cons sock rest => exact owning.socketPop list
  | nil =>
    refine wsaSocket_always owning rfl fun sock s owning => ?_
    cases sock with
    | none => exact owning
    | some x => exact owning.pass rfl trivial fun _ _ _ owning => owning

theorem accept_always (owning : Owning s none qs) (v : Obj) :
    Always ((Listener.accept v).translate (listenerOp v)) s fun _ s' => Owning s' none qs := by
  refine (calm_always (plain_listenerOp v) (takeBuf_every trivial trivial trivial)).next
    fun found s same => ?_
  replace owning := same.owning owning
  cases found with
  | none => exact owning.pass rfl (fun _ => rfl) fun _ _ _ owning => owning
  | some b =>
    refine (takeSocket_always owning v).next fun found s owning => ?_
    cases found with
    | none =>
      refine owning.pass rfl (fun _ => rfl) fun _ s _ owning => ?_
      exact owning.pass rfl trivial fun _ _ _ owning => owning
    | some sock =>
      refine (takeReq_always owning v (some v)).next fun found s owning => ?_
      cases found with
      | none =>
        refine owning.pass rfl (fun _ => rfl) fun _ s _ owning => ?_
        refine owning.pass rfl trivial fun _ s _ owning => ?_
        exact owning.next rfl fun s _ _ owning => owning.socketPush
      | some q =>
        refine owning.next rfl fun s outcome _ owning => ?_
        refine Owning.pass (owning.reqSet _) rfl trivial fun r s₁ same owning => ?_
        have req : s₁.listener.reqs q = { s.listener.reqs q with
            m_Socket := sock, m_pDataBuf := some b, m_nBufSize := LISTENBUFSIZE,
                m_pObserver := some v } := by
          rw [same.reqs]
          exact Function.update_self q _ _
        refine owning.next rfl fun s₂ outcome same owning => ?_
        rw [← same.reqs] at req
        have taken : (s₂.listener.reqs q).m_Socket.toList = sock.toList := by rw [req]
        simp only [Shared.after, Tcp.Shared.perform, takes, closes, taken]
        by_cases possible : outcome ≠ .failed ∧ r.m_TcpSocket ≠ none
        · simp only [if_pos possible]
          have posted : Owning { s₂ with
              listener.pending := ⟨q, some b, v, r.m_TcpSocket⟩ :: s₂.listener.pending
              taken := sock.toList ++ s₂.taken } none qs :=
            Owning.post owning (by rw [req]) (by rw [req]; exact ⟨rfl, rfl⟩)
          cases outcome with
          | failed => exact absurd rfl possible.1
          | pending | success => exact posted
        · simp only [if_neg possible]
          refine owning.attempt.pass rfl (fun _ => rfl) fun _ s _ owning => ?_
          refine owning.pass rfl trivial fun _ s _ owning => ?_
          refine owning.next rfl fun s _ _ owning => ?_
          exact owning.socketPush.next rfl fun s _ _ owning => owning.reqPush

theorem equipped (s : Shared) (available : Bool) :
    Same s { s with worker.available := available } :=
  ⟨rfl, rfl, rfl, rfl, rfl, rfl, fun _ => rfl, fun _ => rfl, rfl, rfl, rfl, rfl, rfl⟩

/-- An operation of a worker, when the allocator has been asked. -/
def Shared.did (s : Shared) (outcome : Outcome) (op : Tcp.Op Pooled) : Shared :=
  { s with
    worker := (s.worker.perform outcome op).1
    closed := closes op ++ s.closed }

theorem neutral_did (op : Tcp.Op Pooled) (quiet : Quiet op) (outcome : Outcome) :
    Same s (s.did outcome op) :=
  have neutral : Neutral (.worker none op) := quiet
  neutral.same ⟨outcome, s.worker.available⟩

/-- A call of a worker goes on with the next operation. -/
theorem Owning.does {starting : Option Obj} {op : Tcp.Op Pooled} {rest : Tcp.Res op → WorkerCall α}
    {Q : α → Shared → Prop} (owning : Owning s hand qs)
    (plain : workerOp starting op = perform (.worker starting op))
    (next : ∀ s₀ outcome, Same s s₀ → Owning s₀ hand qs →
      Always ((rest (s₀.worker.perform outcome op).2).translate (workerOp starting))
        (s₀.did outcome op) Q) :
    Always ((Tcp.perform op >>= rest).translate (workerOp starting)) s Q :=
  (always_worker plain).mpr fun c _ =>
    next _ c.outcome (equipped s c.available) ((equipped s c.available).owning owning)

/-- Past a quiet part of a worker's call. -/
theorem Owning.quietly {p : WorkerCall α} {f : α → WorkerCall β} {starting : Option Obj}
    {Q : β → Shared → Prop}
    (owning : Owning s hand qs) (quiet : p.Every Quiet)
    (next : ∀ a s', Same s s' → Owning s' hand qs →
      Always ((f a).translate (workerOp starting)) s' Q) :
    Always ((p >>= f).translate (workerOp starting)) s Q :=
  (quiet_always quiet starting).next fun a s' same => next a s' same (same.owning owning)

theorem quiet_transfer (w : Obj) (m_nOperateType : OperateType)
    (m_pObserver : Option Obj) (size : Nat)
    (noBuf noReq : Int) (c : Engine.Counter) :
    (transfer w m_nOperateType m_pObserver size noBuf noReq c : WorkerCall Int).Every Quiet := by
  refine Every.bind (takeBuf_every trivial trivial trivial) fun found => ?_
  cases found with
  | none => exact Every.bind (.perform fun _ => rfl) fun _ => trivial
  | some b =>
    refine Every.bind (takeReq_every trivial trivial trivial) fun found => ?_
    cases found with
    | none => exact Every.bind (.perform fun _ => rfl) fun _ => trivial
    | some q =>
      refine Every.bind (.perform trivial) fun _ => ?_
      split
      on_goal 1 => refine Every.bind (.perform trivial) fun _ => ?_
      all_goals
        refine Every.bind (.perform trivial) fun _ =>
          Every.bind (.perform trivial) fun outcome => ?_
        cases outcome with
        | failed =>
          exact Every.bind (.perform fun _ => rfl) fun _ => Every.bind (.perform trivial) fun _ =>
            Every.bind (.perform trivial) fun _ => trivial
        | pending | success => exact Every.bind (.perform fun _ => rfl) fun _ => trivial

theorem quiet_readedDataProcess (type : WorkerType) (w : Obj) (b : Option Buf) (env : Rtsp.Env)
    (data : List CString.Byte) : (Worker.readedDataProcess type w b env data).Every Quiet := by
  cases type with
  | CTcpWorker =>
    refine Every.bind (quiet_transfer _ _ _ _ _ _ _) fun res => ?_
    exact Every.bind (.perform trivial) fun _ => trivial
  | CRtspServer =>
    refine Every.bind (.perform trivial) fun o => ?_
    obtain ⟨server, replies⟩ := Rtsp.ReadedDataProcess env o.server data
    refine Every.bind (.perform fun _ => rfl) fun _ => Every.bind (.forM fun reply _ => ?_)
      fun _ => Every.bind (.perform trivial) fun _ => trivial
    exact Every.bind (quiet_transfer _ _ _ _ _ _ _) fun _ => trivial

/-- A worker that stops closes its socket, if it has one. -/
theorem stop_always (owning : Owning s hand qs) (w : Obj) (starting : Option Obj) :
    Always ((Worker.uninitObject w).translate (workerOp starting)) s fun _ s' =>
      Owning s' hand qs ∧ (s'.worker.objects w).worker.m_TcpSocket = none := by
  have stopped : Always ((Worker.stop w).translate (workerOp starting)) s fun _ s' =>
      Owning s' hand qs ∧ (s'.worker.objects w).worker.m_TcpSocket = none := by
    refine owning.quietly (.perform fun _ => rfl) fun _ s _ owning => ?_
    refine owning.does rfl fun s _ _ owning => ?_
    cases has : (s.worker.objects w).worker.m_TcpSocket with
    | none =>
      simp only [Shared.did, Tcp.Shared.perform, closes, has]
      exact ⟨owning, has⟩
    | some x =>
      simp only [Shared.did, Tcp.Shared.perform, closes, has]
      refine (always_worker rfl).mpr fun c _ => (always_worker rfl).mpr fun c' _ => ⟨?_, ?_⟩
      · exact (equipped _ c'.available).owning (owning.stop has rfl)
      · simp only [Shared.perform, Tcp.Shared.perform, Function.update_self]
  exact stopped.next fun _ _ after => after

theorem release_always (owning : Owning s hand qs)
    (idle : (s.worker.objects w).worker.m_TcpSocket = none)
    (starting : Option Obj) : Always (workerOp starting (.release w)) s fun _ s' =>
      Owning s' hand qs := by
  refine always_call.mpr fun c _ => ?_
  cases listened : s.m_pListener w with
  | none =>
    simp only [Shared.perform, listened]
    exact owning
  | some v =>
    simp only [Shared.perform, listened]
    have born : w < s.listener.newWorkers := by
      by_contra new
      simp [(owning.staff.unborn w (Nat.not_lt.mp new)).2.2] at listened
    change Always ((Listener.releaseObject v w).translate (fun op => perform (.listener op)) >>=
      fun _ => pure ()) s _
    refine Always.seq (R := fun _ s' => Owning s' hand qs) ?_ fun _ _ owning => owning
    refine owning.next rfl fun s₀ _ same owning => ?_
    have pushed := owning.workerPush ((same.workers w).trans idle) (same.newWorkers ▸ born)
    exact pushed.pass rfl (fun _ => rfl) fun _ _ _ owning => owning

theorem releaseIfOver_always (owning : Owning s hand qs)
    (idle : (s.worker.objects w).worker.m_TcpSocket = none)
    (starting : Option Obj) :
    Always ((Worker.releaseIfOver w).translate (workerOp starting)) s fun _ s' =>
      Owning s' hand qs := by
  refine owning.quietly (Every.bind (.perform trivial) fun _ =>
    trivial) fun over_ s same owning => ?_
  split
  · exact (release_always owning ((same.workers w).trans idle) starting).seq
      fun _ _ owning => owning
  · exact owning

/-- What the branches of ConsumeReq end with. -/
theorem quit_always {p : WorkerCall Unit} (owning : Owning s hand qs) (quiet : p.Every Quiet)
    (w : Obj) (n : Int) :
    Always ((do let _ ← Worker.uninitObject w; p; Worker.releaseIfOver w; return n :
      WorkerCall Int).translate
      (workerOp none)) s fun _ s' => Owning s' hand qs := by
  refine (stop_always owning w none).next ?_
  rintro _ s ⟨owning, idle⟩
  refine owning.quietly quiet fun _ s same owning => ?_
  exact (releaseIfOver_always owning ((same.workers w).trans idle) none).next
    fun _ _ owning => owning

/-- A worker that handles a completion takes no socket, and loses its own only by closing it. -/
theorem transferred_always (owning : Owning s none []) (type : WorkerType) (w : Obj)
    (env : Rtsp.Env) (data : List CString.Byte) (error : Bool) (povlp : Req) :
    Always ((Worker.consumeReq type w env data error povlp).translate (workerOp none)) s
      fun _ s' => Owning s' none [] := by
  refine owning.quietly (.perform trivial) fun req s _ owning => ?_
  have nothing : (pure () : WorkerCall Unit).Every Quiet := trivial
  have counts (c : Engine.Counter) : (count w c : WorkerCall Unit).Every Quiet :=
    .perform fun _ => rfl
  cases error with
  | true =>
    simp only [Bool.not_true, Bool.false_eq_true, if_false]
    split
    on_goal 1 => refine owning.quietly (.perform trivial) fun _ s _ owning => ?_
    all_goals
      refine owning.quietly (.perform trivial) fun _ s _ owning => ?_
      refine owning.quietly (.perform fun _ => rfl) fun _ s _ owning => ?_
      exact quit_always owning (counts _) w (-4)
  | false =>
    simp only [Bool.not_false, if_true]
    cases req.m_nOperateType with
    | SOCKET_READ =>
      refine owning.quietly (counts _) fun _ s _ owning => ?_
      split
      · refine owning.quietly (.perform trivial) fun _ s _ owning => ?_
        refine owning.quietly (.perform trivial) fun _ s _ owning => ?_
        exact quit_always owning nothing w (-1)
      · refine owning.quietly (quiet_readedDataProcess _ _ _ _ _) fun res s _ owning => ?_
        refine owning.quietly (.perform fun _ => rfl) fun _ s _ owning => ?_
        refine owning.quietly (.perform trivial) fun _ s _ owning => ?_
        refine owning.quietly (.perform trivial) fun o s _ owning => ?_
        split
        · exact quit_always owning nothing w (-2)
        · refine owning.quietly (quiet_transfer _ _ _ _ _ _ _) fun res s _ owning => ?_
          refine owning.quietly (.perform fun _ => rfl) fun _ s _ owning => ?_
          refine owning.quietly (.perform trivial) fun o s _ owning => ?_
          split
          · exact quit_always owning nothing w 0
          · exact owning
    | SOCKET_WRITE =>
      refine owning.quietly (counts _) fun _ s _ owning => ?_
      refine owning.quietly (.perform trivial) fun _ s _ owning => ?_
      exact owning.quietly (.perform trivial) fun _ s _ owning => owning
    | _ =>
      refine owning.quietly (.perform trivial) fun _ s _ owning => ?_
      refine owning.quietly (.perform trivial) fun _ s _ owning => ?_
      exact quit_always owning (counts _) w (-3)

/-- Nothing fails that the Start of a worker with a socket does. -/
theorem starting_next {op : Tcp.Op Pooled} {rest : Tcp.Res op → WorkerCall α}
    {Q : α → Shared → Prop}
    (has : (s.worker.objects w).worker.m_TcpSocket = some x) (quiet : Quiet op)
    (next : ∀ c s' r, ¬ Fails c op → (s'.worker.objects w).worker.m_TcpSocket = some x →
      s.perform c (.worker (some w) op) = (s', r) →
        Always ((rest r).translate (workerOp (some w))) s' Q) :
    Always ((Tcp.perform op >>= rest).translate (workerOp (some w))) s Q := by
  have plain : workerOp (some w) op = perform (.worker (some w) op) := by
    cases op
    case release => exact absurd quiet id
    all_goals rfl
  refine (always_worker plain).mpr fun c may => next c _ _ (may (by simp [has])) ?_ rfl
  have neutral : Neutral (.worker (some w) op) := quiet
  exact ((neutral.same c).workers w).trans has

/-- What a quiet part of Start returns, and that the worker still has its socket. -/
theorem starting_part {p : WorkerCall α} {f : α → WorkerCall β} {R : α → Prop}
    {Q : β → Shared → Prop}
    (has : (s.worker.objects w).worker.m_TcpSocket = some x) (quiet : p.Every Quiet)
    (part : Always (p.translate (workerOp (some w))) s fun r _ => R r)
    (next : ∀ r s', R r → (s'.worker.objects w).worker.m_TcpSocket = some x →
      Always ((f r).translate (workerOp (some w))) s' Q) :
    Always ((p >>= f).translate (workerOp (some w))) s Q := by
  refine (part.and (quiet_always quiet (some w))).next ?_
  rintro r s' ⟨result, same⟩
  exact next r s' result ((same.workers w).trans has)

theorem takeBuf_found (has : (s.worker.objects w).worker.m_TcpSocket = some x) :
    Always ((takeBuf : WorkerCall (Option Buf)).translate (workerOp (some w))) s fun r _ =>
      r ≠ none := by
  refine starting_next has trivial fun c s found _ has _ => ?_
  cases found with
  | some b => exact nofun
  | none =>
    refine starting_next has trivial fun c s made fine has performed => ?_
    cases made with
    | some b => exact starting_next has trivial fun _ _ _ _ _ _ => nofun
    | none =>
      have available : c.available = true := by simpa [Fails] using fine
      simp [Shared.perform, Tcp.Shared.perform, available] at performed

theorem takeReq_found (has : (s.worker.objects w).worker.m_TcpSocket = some x)
    (m_pObserver : Option Obj) :
    Always ((takeReq m_pObserver : WorkerCall (Option Req)).translate (workerOp (some w))) s fun r
      _ => r ≠ none := by
  refine starting_next has trivial fun c s found _ has _ => ?_
  cases found with
  | some q => exact nofun
  | none =>
    refine starting_next has trivial fun c s made fine has performed => ?_
    cases made with
    | some q => exact starting_next has trivial fun _ _ _ _ _ _ => nofun
    | none =>
      have available : c.available = true := by simpa [Fails] using fine
      simp [Shared.perform, Tcp.Shared.perform, available] at performed

/-- The first read of a worker is posted. -/
theorem read_posted (has : (s.worker.objects w).worker.m_TcpSocket = some x) :
    Always ((Worker.read w).translate (workerOp (some w))) s fun r _ => r = 0 := by
  refine starting_part has (takeBuf_every trivial trivial trivial)
    (takeBuf_found has) fun found s some_ has => ?_
  cases found with
  | none => exact absurd rfl some_
  | some b =>
    refine starting_part has (takeReq_every trivial trivial trivial)
      (takeReq_found has _) fun found s some_ has => ?_
    cases found with
    | none => exact absurd rfl some_
    | some q =>
      refine starting_next has trivial fun c s _ _ has _ => ?_
      refine starting_next has trivial fun c s o _ has performed => ?_
      have socket : Engine.Endpoint.m_TcpSocket o = some x := by
        cases performed
        exact has
      refine starting_next has trivial fun c s outcome fine has performed => ?_
      have accepted : c.outcome ≠ .failed := fine
      have posted : outcome = c.outcome := by
        rw [socket] at performed
        simp only [Shared.perform, Tcp.Shared.perform] at performed
        rw [if_pos ⟨accepted, by simp⟩] at performed
        exact (Prod.mk.inj performed).2.symm
      cases outcome with
      | failed => exact absurd posted.symm accepted
      | pending | success => exact starting_next has (fun _ => rfl) fun _ _ _ _ _ _ => rfl

theorem quiet_start (w : Obj) : (Worker.start w).Every Quiet := by
  refine Every.bind (.perform trivial) fun o => ?_
  split
  · trivial
  refine Every.bind (.perform trivial) fun o => Every.bind (.perform trivial) fun associated => ?_
  split
  · trivial
  iterate 4 refine Every.bind (.perform fun _ => rfl) fun _ => ?_
  refine Every.bind (quiet_transfer _ _ _ _ _ _ _) fun res => ?_
  split
  · exact Every.bind (.perform fun _ => rfl) fun _ => trivial
  · trivial

/-- Start succeeds for a worker that has a socket and does not run. -/
theorem start_zero (has : (s.worker.objects w).worker.m_TcpSocket = some x)
    (stopped : (s.worker.objects w).worker.m_nStatus ≠ .run) :
    Always ((Worker.start w).translate (workerOp (some w))) s fun r _ => r = 0 := by
  refine starting_next has trivial fun c s₁ o _ has performed => ?_
  have idle : o.worker.m_nStatus ≠ .run := by
    cases performed
    exact stopped
  rw [if_neg idle]
  refine starting_next has trivial fun c s o _ has _ => ?_
  refine starting_next has trivial fun c s associated fine has performed => ?_
  have accepted : associated = true := by
    cases performed
    exact decide_eq_true fine
  subst accepted
  iterate 4 refine starting_next has (fun _ => rfl) fun c s _ _ has _ => ?_
  refine starting_part has (quiet_transfer _ _ _ _ _ _ _)
    (read_posted has) fun res s posted has => ?_
  rw [if_pos posted]
  exact starting_next has (fun _ => rfl) fun _ _ _ _ _ _ => rfl

/-- What a connection needs of its worker: nobody else has it. -/
structure Vacant (s : Shared) (w : Obj) (insock : Option Sock) : Prop where
  idle : (s.worker.objects w).worker.m_TcpSocket = none
  born : w < s.listener.newWorkers
  unlisted : insock ≠ none → w ∉ s.listener.m_WorkerList.eles

theorem Vacant.same {insock : Option Sock} (free : Vacant s w insock) (same : Same s s') :
    Vacant s' w insock :=
  ⟨(same.workers w).trans free.idle, same.newWorkers ▸ free.born, fun some_ =>
    same.idle ▸ free.unlisted some_⟩

/-- A worker that has a socket now is in no list. -/
theorem Owning.serve (owning : Owning s (some x) qs) (free : Vacant s w (some x)) (object : Pooled)
    (socket : object.worker.m_TcpSocket = some x) :
    Owning { s with worker.objects := Function.update s.worker.objects w object } none qs := by
  refine ⟨owning.requests, owning.apart.serve free.idle socket, fun u inside => ?_, fun u new => ?_⟩
  · have other : u ≠ w := by
      rintro rfl
      exact free.unlisted nofun inside
    simp only [Function.update_of_ne other]
    exact owning.staff.idle u inside
  · have other : u ≠ w := (free.born.trans_le new).ne'
    simp only [Function.update_of_ne other]
    exact owning.staff.unborn u new

theorem quiet_stock (m_pObserver : Option Obj) :
    (stock m_pObserver : WorkerCall Unit).Every Quiet := by
  refine Every.bind (.perform trivial) fun b => Every.bind (.perform trivial) fun _ => ?_
  refine Every.bind (.perform trivial) fun _ => Every.bind (.perform trivial) fun made => ?_
  cases made with
  | none => trivial
  | some q => exact Every.bind (.perform trivial) fun _ => .perform trivial

/-- InitObject gives the socket to the worker, which does not run yet. -/
theorem initObject_always (owning : Owning s (some x) qs) (free : Vacant s w (some x)) :
    Always ((Worker.initObject w (some x)).translate (workerOp none)) s fun r s' =>
      r = 0 ∧ Owning s' none qs ∧ s'.listener.newWorkers = s.listener.newWorkers ∧
        (s'.worker.objects w).worker.m_TcpSocket = some x ∧
          (s'.worker.objects w).worker.m_nStatus = .stop := by
  refine owning.does rfl fun s₀ _ same owning => ?_
  refine (owning.serve (free.same same) _ ?_).quietly (quiet_stock _) fun _ s₁ same₁ owning => ?_
  · exact rfl
  refine owning.does rfl fun s₂ outcome same₂ owning => ?_
  have unchanged := same₁.trans (same₂.trans
    (neutral_did (.set w fun o => Engine.Endpoint.withStatus o .stop)
    (fun _ => rfl) outcome))
  refine ⟨rfl, ?_, unchanged.newWorkers.trans same.newWorkers, ?_, ?_⟩
  · exact (neutral_did (.set w fun o => Engine.Endpoint.withStatus o .stop)
      (fun _ => rfl) outcome).owning owning
  · refine (unchanged.workers w).trans ?_
    simp
  · simp [Shared.did, Tcp.Shared.perform, Engine.Endpoint.withStatus]

/-- The worker has the socket, and it does not run yet. -/
theorem initWorker_always {insock : Option Sock} (owning : Owning s insock qs)
    (free : Vacant s w insock) (v : Obj) :
    Always (initWorker v w insock) s fun _ s' => Owning s' none qs ∧ s'.listener.newWorkers =
      s.listener.newWorkers ∧
      (s'.worker.objects w).worker.m_TcpSocket = insock ∧
        (insock ≠ none → (s'.worker.objects w).worker.m_nStatus ≠ .run) := by
  cases insock with
  | none => exact ⟨owning, rfl, free.idle, fun some_ => absurd rfl some_⟩
  | some x =>
    refine (initObject_always owning free).seq ?_
    rintro r s₁ ⟨rfl, owning, newWorkers, socket, status⟩
    rw [if_pos rfl]
    refine always_call.mpr fun c _ =>
      ⟨⟨owning.requests, owning.apart.congr (fun _ _ => Iff.rfl) rfl rfl rfl rfl, ?_⟩,
      newWorkers, socket, fun _ => ?_⟩
    · refine ⟨owning.staff.idle, fun u new => ?_⟩
      have other : u ≠ w := by
        rintro rfl
        exact absurd free.born (Nat.not_lt.mpr (newWorkers ▸ new))
      simp only [Shared.perform, Function.update_of_ne other]
      exact owning.staff.unborn u new
    · simp [Shared.perform, status]

theorem Owning.workerNew (owning : Owning s hand qs) :
    Owning { s with listener.newWorkers := s.listener.newWorkers + 1 } hand qs :=
  ⟨owning.requests.congr rfl rfl rfl rfl, owning.apart.congr (fun _ _ => Iff.rfl) rfl rfl rfl rfl,
    owning.staff.idle, fun u new => owning.staff.unborn u (Nat.le_of_succ_le new)⟩

/-- A worker that was just made is nobody's. -/
theorem Owning.unborn (owning : Owning s hand qs) :
    Vacant { s with listener.newWorkers := s.listener.newWorkers + 1 }
      s.listener.newWorkers hand := by
  obtain ⟨idle, unlisted, -⟩ := owning.staff.unborn s.listener.newWorkers (Nat.le_refl _)
  exact ⟨idle, Nat.lt_succ_self _, fun _ => unlisted⟩

/-- A worker leaves the list, or is made. -/
theorem takeWorker_always (owning : Owning s hand qs)
    (unshared : hand ≠ none → ∀ w rest, s.listener.m_WorkerList.eles = w :: rest →
      w ∉ rest) (v : Obj) :
    Always (Listener.takeWorker.translate (listenerOp v)) s fun r s' =>
      Owning s' hand qs ∧ s'.listener.reqs = s.listener.reqs ∧ ∀ w, r = some w →
        Vacant s' w hand := by
  refine owning.next rfl fun s₀ outcome same owning => ?_
  rw [← same.idle] at unshared
  rw [← same.reqs]
  simp only [Shared.after, Tcp.Shared.perform, takes, closes]
  cases list : s₀.listener.m_WorkerList.eles with
  | cons w rest =>
    have inside {u : Obj} (here : u ∈ rest) : u ∈ s₀.listener.m_WorkerList.eles :=
      list ▸ List.mem_cons_of_mem w here
    have first : w ∈ s₀.listener.m_WorkerList.eles := list ▸ List.mem_cons_self
    refine ⟨⟨owning.requests.congr rfl rfl rfl rfl,
        owning.apart.congr (fun _ _ => Iff.rfl) rfl rfl rfl rfl, ?_, ?_⟩,
      rfl, ?_⟩
    · exact fun u here => owning.staff.idle u (inside here)
    · intro u new
      obtain ⟨idle, unlisted, rest⟩ := owning.staff.unborn u new
      exact ⟨idle, fun here => unlisted (inside here), rest⟩
    · rintro u ⟨⟩
      refine ⟨owning.staff.idle w first, ?_, fun some_ => unshared some_ w rest list⟩
      by_contra new
      exact (owning.staff.unborn w (Nat.not_lt.mp new)).2.1 first
  | nil =>
    refine owning.next rfl fun s₁ outcome same₁ owning => ?_
    simp only [Shared.after, Tcp.Shared.perform, takes, closes]
    by_cases memory : s₁.listener.available = true
    · simp only [if_pos memory]
      have free := owning.unborn
      refine owning.workerNew.pass rfl trivial fun _ s₂ same₂ owning =>
        ⟨owning, same₂.reqs.trans same₁.reqs, ?_⟩
      rintro u ⟨⟩
      exact free.same same₂
    · simp only [if_neg memory]
      refine ⟨owning, same₁.reqs, ?_⟩
      rintro u ⟨⟩

/-- InitObject and Start of a worker: it has the socket, or the socket was none. -/
theorem startWorker_always {insock : Option Sock} (owning : Owning s insock qs)
    (free : Vacant s w insock) (v : Obj) :
    Always (listenerOp v (.startWorker w insock)) s fun r s' =>
      Owning s' none qs ∧ w < s'.listener.newWorkers ∧
        (r = false → (s'.worker.objects w).worker.m_TcpSocket = none) := by
  refine (initWorker_always owning free v).seq ?_
  rintro _ s₁ ⟨given, newWorkers, socket, stopped⟩
  have born : w < s₁.listener.newWorkers := newWorkers ▸ free.born
  have quiet := quiet_always (s := s₁) (quiet_start w) (some w)
  cases insock with
  | none =>
    refine quiet.seq fun r s₂ same => ⟨same.owning given, same.newWorkers ▸ born, fun _ => ?_⟩
    exact (same.workers w).trans socket
  | some x =>
    refine ((start_zero socket (stopped nofun)).and quiet).seq ?_
    rintro r s₂ ⟨rfl, same⟩
    exact ⟨same.owning given, same.newWorkers ▸ born, nofun⟩

/-- A handler gives its request back and goes on. -/
theorem reqBack_always {p : ListenerCall α} {Q : α → Shared → Prop}
    (owning : Owning s hand (q :: qs))
    (rest : ∀ s', Owning s' hand qs → (Vacant s w hand → Vacant s' w hand) →
      Always (p.translate (listenerOp v)) s' Q) :
    Always ((do reqPush q; p : ListenerCall α).translate (listenerOp v)) s Q := by
  refine owning.next rfl fun s₀ _ same owning => rest _ owning.reqPush fun free => ?_
  have free := free.same same
  exact ⟨free.idle, free.born, free.unlisted⟩

theorem back_always {b : Option Buf} {p : ListenerCall α} {Q : α → Shared → Prop}
    (owning : Owning s hand (q :: qs))
    (rest : ∀ s', Owning s' hand qs → (Vacant s w hand → Vacant s' w hand) →
      Always (p.translate (listenerOp v)) s' Q) :
    Always ((do bufPush b; reqPush q; p : ListenerCall α).translate (listenerOp v)) s Q := by
  refine owning.pass rfl trivial fun _ s₀ same owning => ?_
  exact reqBack_always (w := w) owning fun s' owning keeps => rest s' owning fun free =>
    keeps (free.same same)

/-- closesocket of what is in hand. -/
theorem Owning.close (owning : Owning s (some x) qs) :
    Owning { s with closed := x :: s.closed } none qs :=
  ⟨owning.requests, owning.apart.close, owning.staff.congr (fun _ => rfl) rfl rfl rfl⟩

/-- An AcceptEx that fails loses its socket. -/
theorem failed_always (owning : Owning s (s.listener.reqs q).m_Socket [q]) (v : Obj) :
    Always ((Listener.consumeReq v .SOCKET_LISTEN true q).translate (listenerOp v)) s fun _ s' =>
      Owning s' none [] := by
  have back (s : Shared) (owning : Owning s none [q]) (b : Option Buf) :
      Always ((if b ≠ none then (do bufPush b; reqPush q; return -1 : ListenerCall Int)
        else (do reqPush q; return -1)).translate (listenerOp v)) s fun _ s' =>
            Owning s' none [] := by
    split
    · exact back_always (w := v) owning fun _ owning _ => owning
    · exact reqBack_always (w := v) owning fun _ owning _ => owning
  simp only [Listener.consumeReq, if_true, Bool.not_true, Bool.false_eq_true, if_false]
  refine owning.next rfl fun s₁ _ same owning => ?_
  rw [← same.reqs] at owning
  simp only [Shared.after, Tcp.Shared.perform, takes, closes]
  cases socket : (s₁.listener.reqs q).m_Socket with
  | none => exact back s₁ (socket ▸ owning) _
  | some x =>
    rw [socket] at owning
    refine owning.next rfl fun s₂ _ _ owning => ?_
    refine owning.close.next rfl fun s₃ _ _ owning => ?_
    exact back _ (owning.reqSet _) _

/-- The socket of a connection goes to a worker, or it is closed. -/
theorem connected_always (owning : Owning s (s.listener.reqs q).m_Socket [q])
    (unshared : (s.listener.reqs q).m_Socket ≠ none →
      ∀ w rest, s.listener.m_WorkerList.eles = w :: rest → w ∉ rest) (v : Obj) :
    Always ((Listener.consumeReq v .SOCKET_LISTEN false q).translate (listenerOp v)) s fun _ s' =>
      Owning s' none [] := by
  simp only [Listener.consumeReq, if_true, Bool.not_false]
  refine (takeWorker_always owning unshared v).next ?_
  rintro found s₁ ⟨owning, reqs, free⟩
  cases found with
  | none =>
    refine owning.next rfl fun s₂ _ same owning => ?_
    rw [← reqs, ← same.reqs] at owning
    simp only [Shared.after, Tcp.Shared.perform, takes, closes]
    cases socket : (s₂.listener.reqs q).m_Socket with
    | none => exact back_always (w := v) (socket ▸ owning) fun _ owning _ => owning
    | some x =>
      rw [socket] at owning
      refine owning.next rfl fun s₃ _ _ owning => ?_
      exact back_always (w := v) owning.close fun _ owning _ => owning
  | some pworker =>
    refine owning.next rfl fun s₂ _ same owning => ?_
    have free : Vacant s₂ pworker (s.listener.reqs q).m_Socket := (free pworker rfl).same same
    rw [← reqs, ← same.reqs] at owning free
    refine back_always (w := pworker) owning fun s₃ owning keeps => ?_
    refine (startWorker_always owning (keeps free) v).op ?_
    rintro r s₄ ⟨owning, born, idle⟩
    have goesOn (s : Shared) (owning : Owning s none []) :
        Always ((do discard (Listener.accept v); return 0 : ListenerCall Int).translate
            (listenerOp v)) s
          fun _ s' => Owning s' none [] :=
      (((accept_always owning v).next fun _ _ owning =>
        owning : Always ((discard (Listener.accept v)).translate (listenerOp v)) s
        fun _ s' => Owning s' none [])).next fun _ _ owning => owning
    cases r with
    | true => exact owning.pass rfl (fun _ => rfl) fun _ s _ owning => goesOn s owning
    | false =>
      exact owning.next rfl fun s _ same owning =>
        goesOn _ (owning.workerPush ((same.workers _).trans (idle rfl)) (same.newWorkers ▸ born))

theorem Owning.listen (owning : Owning s none qs) (v : Obj) (object : Listener)
    (socket : object.m_TcpSocket = some s.listener.nextSock) :
    Owning { s with
      listener.objects := Function.update s.listener.objects v object
      listener.nextSock := s.listener.nextSock + 1 } none qs :=
  ⟨owning.requests.congr rfl rfl rfl rfl, owning.apart.listen socket,
    owning.staff.congr (fun _ => rfl) rfl rfl rfl⟩

theorem Owning.forget (owning : Owning s hand qs) (v : Obj) (object : Listener)
    (socket : object.m_TcpSocket = none) :
    Owning { s with listener.objects := Function.update s.listener.objects v object } hand qs :=
  ⟨owning.requests.congr rfl rfl rfl rfl, owning.apart.forget socket,
    owning.staff.congr (fun _ => rfl) rfl rfl rfl⟩

theorem Owning.stopListening (owning : Owning s none qs) (object : Listener)
    (has : (s.listener.objects v).m_TcpSocket = some x) (socket : object.m_TcpSocket = none) :
    Owning { s with
      listener.objects := Function.update s.listener.objects v object
      closed := x :: s.closed } none qs :=
  ⟨owning.requests.congr rfl rfl rfl rfl, owning.apart.stopListening has socket,
    owning.staff.congr (fun _ => rfl) rfl rfl rfl⟩

theorem listen_always (owning : Owning s none []) (v : Obj) (attached : Bool) :
    Always ((Listener.start v attached).translate (listenerOp v)) s fun _ s' =>
      Owning s' none [] := by
  have first (s : Shared) (owning : Owning s none []) :
      Always ((do
        if (← Listener.accept v) = 0 then
          Listener.status v .run
          return 0
        else
          return -3 : ListenerCall Int).translate (listenerOp v)) s fun _ s' =>
              Owning s' none [] := by
    refine (accept_always owning v).next fun res s owning => ?_
    split
    · exact owning.pass rfl (fun _ => rfl) fun _ _ _ owning => owning
    · exact owning
  have last (s : Shared) (owning : Owning s none []) :
      Always ((do
        if (← Tcp.get v).m_TcpSocket = none then
          Listener.status v .error
          return -1
        if attached then
          if !(← Tcp.perform (.associateDevice (← Tcp.get v).m_TcpSocket)) then
            Listener.status v .error
            return -2
        if (← Listener.accept v) = 0 then
          Listener.status v .run
          return 0
        else
          return -3 : ListenerCall Int).translate (listenerOp v)) s fun _ s' =>
              Owning s' none [] := by
    refine owning.pass rfl trivial fun o s _ owning => ?_
    split
    · exact owning.pass rfl (fun _ => rfl) fun _ _ _ owning => owning
    cases attached with
    | false => exact first s owning
    | true =>
      refine owning.pass rfl trivial fun o s _ owning =>
        owning.pass rfl trivial fun associated s _ owning => ?_
      cases associated with
      | true => exact first s owning
      | false => exact owning.pass rfl (fun _ => rfl) fun _ _ _ owning => owning
  refine owning.pass rfl trivial fun o s _ owning => ?_
  split
  · exact owning
  refine owning.next rfl fun s outcome _ owning => ?_
  simp only [Shared.after, Tcp.Shared.perform, takes, closes]
  by_cases made : outcome ≠ .failed
  · simp only [if_pos made]
    refine (always_listener rfl).mpr fun c => last _ ?_
    exact (supplied _ c.available).owning (owning.listen v _ rfl)
  · simp only [if_neg made]
    refine (always_listener rfl).mpr fun c => last _ ?_
    exact (supplied _ c.available).owning (owning.forget v _ rfl)

theorem stopListening_always (owning : Owning s none []) (v : Obj) :
    Always ((Listener.stop v).translate (listenerOp v)) s fun _ s' => Owning s' none [] := by
  refine owning.pass rfl (fun _ => rfl) fun _ s _ owning => ?_
  refine owning.next rfl fun s _ _ owning => ?_
  cases has : (s.listener.objects v).m_TcpSocket with
  | none =>
    simp only [Shared.after, Tcp.Shared.perform, takes, closes, has]
    exact owning
  | some x =>
    simp only [Shared.after, Tcp.Shared.perform, takes, closes, has]
    refine (always_listener rfl).mpr fun c => (always_listener rfl).mpr fun c' => ?_
    exact (supplied _ c'.available).owning (owning.stopListening _ has rfl)

theorem Owning.last (owning : Owning s hand qs) (op : Tcp.Op Listener)
    (neutral : Neutral (.listener op)) (v : Obj) :
    Always ((Tcp.perform op).translate (listenerOp v)) s fun _ s' => Owning s' hand qs :=
  (calm_always (plain_listenerOp v) (Every.perform neutral)).mono fun _ _ same => same.owning owning

/-- A loop of a listener keeps what each of its rounds keeps. -/
theorem loop_always {items : List β} {body : β → ListenerCall PUnit}
    {h : (op : Tcp.Op Listener) → Handler (Tcp.Res op)}
    (each : ∀ item s, Owning s hand qs → Always ((body item).translate h) s fun _ s' =>
      Owning s' hand qs)
    (owning : Owning s hand qs) : Always ((items.forM body).translate h) s fun _ s' =>
      Owning s' hand qs := by
  rw [translate_forM]
  exact Ensures.forM (fun item s _ => each item s) owning

/-- The list of sockets is filled. -/
theorem baseInitObject_always (owning : Owning s none []) (v : Obj) (named : Bool) :
    Always ((Listener.baseInitObject v named).translate (listenerOp v)) s fun _ s' =>
      Owning s' none [] := by
  simp only [Listener.baseInitObject]
  generalize List.replicate Listener.initsize () = items
  split
  · exact owning
  refine owning.pass rfl trivial fun b s _ owning => ?_
  refine owning.pass rfl trivial fun _ s _ owning => ?_
  refine owning.pass rfl trivial fun _ s _ owning => ?_
  refine (loop_always (fun _ s owning => ?_) owning).next fun _ s owning => ?_
  · refine wsaSocket_always owning rfl fun sock s owning => ?_
    refine owning.next rfl fun s _ _ owning => ?_
    exact owning.socketPush.last .socketAllocated trivial v
  · refine owning.next rfl fun s outcome _ owning => ?_
    simp only [Shared.after, Tcp.Shared.perform, takes, closes]
    by_cases memory : s.listener.available = true
    · simp only [if_pos memory]
      refine (owning.reqNew _).next rfl fun s _ _ owning => ?_
      exact owning.reqPush.pass rfl trivial fun _ _ _ owning => owning
    · simp only [if_neg memory]
      exact owning

/-- The list of workers is filled. -/
theorem initListener_always (owning : Owning s none []) (v : Obj) (named : Bool) :
    Always ((Listener.initObject v named).translate (listenerOp v)) s fun _ s' =>
      Owning s' none [] := by
  simp only [Listener.initObject]
  generalize List.replicate Listener.initsize () = items
  refine (baseInitObject_always owning v named).next fun _ s owning => ?_
  refine (loop_always (fun _ s owning => ?_) owning).next fun _ s owning => owning
  refine owning.next rfl fun s outcome _ owning => ?_
  simp only [Shared.after, Tcp.Shared.perform, takes, closes]
  by_cases memory : s.listener.available = true
  · simp only [if_pos memory]
    have free := owning.unborn
    refine owning.workerNew.next rfl fun s₁ _ same owning => ?_
    exact (owning.workerPush (free.same same).idle (free.same same).born).last
      .workerAllocated trivial v
  · simp only [if_neg memory]
    exact owning

theorem handler_always {p : ListenerCall Int} {Q : Shared → Prop} (v : Obj)
    (always : Always (p.translate (listenerOp v)) s fun _ s' => Q s') :
      Always (handler v p) s fun _ s' => Q s' :=
  always.seq fun _ _ after => after

theorem enter_owning {type : WorkerType} {e : Entry} {l : Unit} {p : Handler Unit}
    (owning : Owning s none []) (unshared : Unshared s e)
    (entered : enter type s e = some (s', l, p)) : Always p s' fun _ s => Owning s none [] := by
  cases e with
  | initObject v named =>
    cases entered
    exact handler_always v (initListener_always owning v named)
  | start v attached =>
    cases entered
    exact handler_always v (listen_always owning v attached)
  | stop v =>
    cases entered
    exact handler_always v (stopListening_always owning v)
  | accepted posted error =>
    simp only [enter] at entered
    split at entered
    · rename_i member
      obtain ⟨v, -, entered⟩ := Option.map_eq_some_iff.mp entered
      cases entered
      have once : s.listener.pending.Nodup := owning.requests.pending_nodup
      have completed : Owning { s with listener.pending := s.listener.pending.erase posted }
          (s.listener.reqs posted.req).m_Socket [posted.req] :=
        ⟨owning.requests.complete member, owning.apart.complete member once,
          owning.staff.congr (fun _ => rfl) rfl rfl rfl⟩
      cases error with
      | true => exact handler_always v (failed_always completed v)
      | false => exact handler_always v (connected_always completed unshared v)
    · cases entered
  | transferred posted env data error =>
    simp only [enter] at entered
    split at entered
    · obtain ⟨w, -, entered⟩ := Option.map_eq_some_iff.mp entered
      cases entered
      have completed : Owning { s with worker.pending := s.worker.pending.erase posted } none [] :=
        ⟨owning.requests, owning.apart.congr (fun _ _ => Iff.rfl) rfl rfl rfl rfl,
          owning.staff.congr (fun _ => rfl) rfl rfl rfl⟩
      exact (transferred_always completed type w env data error posted.req).seq
        fun _ _ after => after
    · cases entered

theorem Initial.owning (first : Initial s) : Owning s none [] := by
  obtain ⟨listeners, workers, ⟨requests, newReqs, pending⟩, ⟨list, staff, newWorkers⟩, taken,
    closed⟩ := first
  have nowhere (p : Site) (x : Sock) : ¬ Holds s none p x := by
    cases p <;> simp [Holds, listeners, workers, pending, list, closed]
  refine ⟨⟨?_, by simp [pending]⟩,
    ⟨fun p _ x here => absurd here (nowhere p x), fun p x here => absurd here (nowhere p x),
    ?_, ?_, ?_⟩, ⟨?_, fun w _ => ?_⟩⟩
  · rw [requests, newReqs, pending]
    exact .refl _
  · simp [taken]
  · simp [list]
  · simp [closed]
  · simp [staff]
  · simp [workers, staff]

/-- A place as a site; the worker that has a socket is in no list. -/
def Place.site : Place → Site
  | .list => .list
  | .acceptEx posted => .acceptEx posted
  | .worker w => .worker w
  | .closed => .closed

theorem Owning.keeps_iff (owning : Owning s none []) (place : Place) (x : Sock) :
    Keeps s place x ↔ Holds s none place.site x := by
  cases place with
  | worker w =>
    refine and_iff_left_of_imp fun has inside => ?_
    exact absurd (has.symm.trans (owning.staff.idle w inside)) nofun
  | list | acceptEx | closed => exact Iff.rfl

/-- At most one of the operations has the socket. -/
theorem Owning.attached_once (owning : Owning s none []) (x : Sock) :
    s.listener.pending.countP (fun posted => (s.listener.reqs posted.req).m_Socket =
      some x) ≤ 1 := by
  refine countP_le_one owning.requests.pending_nodup fun p inside p' inside' has has' => ?_
  have here : Holds s none (.acceptEx p) x := ⟨inside, of_decide_eq_true has⟩
  have there : Holds s none (.acceptEx p') x := ⟨inside', of_decide_eq_true has'⟩
  exact Site.acceptEx.inj (owning.apart.once _ _ x here there)

theorem Owning.owned (owning : Owning s none []) : Owned s := by
  refine ⟨fun x inside => ?_, fun x _ => ⟨?_, owning.apart.listed x, owning.attached_once x⟩,
    owning.staff.idle⟩
  · obtain ⟨p, proper, here⟩ := owning.apart.taken x inside
    have place : ∃ place : Place, place.site = p := by
      cases p with
      | list => exact ⟨.list, rfl⟩
      | acceptEx posted => exact ⟨.acceptEx posted, rfl⟩
      | worker w => exact ⟨.worker w, rfl⟩
      | closed => exact ⟨.closed, rfl⟩
      | listening v => exact absurd rfl (proper v)
      | hand => cases here
    obtain ⟨place, rfl⟩ := place
    refine ⟨place, (owning.keeps_iff place x).mpr here, fun other there => ?_⟩
    have same := owning.apart.once _ _ x ((owning.keeps_iff other x).mp there) here
    cases other <;> cases place <;> simp_all [Place.site]
  · exact List.nodup_iff_count_le_one.mp owning.apart.closed x

instance : (s : Shared) → (e : Entry) → Decidable (Unshared s e)
  | s, .accepted posted false =>
    match list : s.listener.m_WorkerList.eles with
    | [] => .isTrue fun _ w rest same => by simp [list] at same
    | w :: rest => decidable_of_iff ((s.listener.reqs posted.req).m_Socket ≠ none → w ∉ rest) (by
        simp only [Unshared, list, List.cons.injEq]
        exact ⟨fun unlisted some_ => by rintro w rest ⟨rfl, rfl⟩; exact unlisted some_,
          fun unlisted some_ => unlisted some_ w rest ⟨rfl, rfl⟩⟩)
  | _, .accepted _ true | _, .initObject _ _ | _, .start _ _ | _, .stop _ | _,
    .transferred _ _ _ _ => .isTrue trivial

/-- Sockets of accepted connections always have one owner, if no Start of a worker fails and
no connection is given to a worker that is still in the list. -/
theorem sockets_owned {T : Type} [DecidableEq T] {type : WorkerType}
    {c : Config T Shared Unit Op Res}
    (run : ((semantics type).system Initial ()).ReachableUnder (fun c label =>
      Serial Unshared Unlimited c label ∧
      Guarded (fun s _ _ op choice => Undisturbed s op choice) c label) c)
    (rest : ∀ t, c.code t = .ret ()) : Owned c.shared := by
  have owning : Owning c.shared none [] := holds_at_rest
    (m := (semantics type).restrict Undisturbed) (I := fun s => Owning s none [])
    (fun _ first => first.owning)
    (fun _ _ _ _ _ owning unshared entered => enter_owning owning unshared entered)
      (reachable_restrict.mpr run) rest
  exact owning.owned

/-- A listener and the workers before its first call. -/
def unstarted : Shared :=
  ⟨unused ⟨none, .stop, 0⟩, unused ⟨⟨none, .stop, 0⟩, fun _ => 0, Rtsp.blank⟩,
    fun _ => none, [], []⟩

theorem unstarted_initial : Initial unstarted :=
  ⟨fun _ => rfl, fun _ => ⟨rfl, rfl⟩, ⟨rfl, rfl, rfl⟩, ⟨rfl, rfl, rfl⟩, ⟨rfl, rfl⟩⟩

/-- Start, and the first connection. -/
def connected (outcome : Outcome) : List (Entry × Choice) :=
  [(.start 0 true, ⟨.pending, true⟩), (.accepted ⟨0, some 0, 0, some 0⟩ false, ⟨outcome, true⟩)]

theorem connected_runs : (((semantics .CTcpWorker).restrict Undisturbed).calls Unshared unstarted
    (connected .pending)).map
    (fun s => (s.taken, (s.worker.objects 0).worker.m_TcpSocket)) = some ([2, 1], some 1) := by
  decide +kernel

theorem sockets_owned_after_connection :
    ∃ s : Shared, s.taken = [2, 1] ∧ (s.worker.objects 0).worker.m_TcpSocket =
      some 1 ∧ Owned s := by
  obtain ⟨s, ran, after⟩ := Option.map_eq_some_iff.mp connected_runs
  obtain ⟨c, reached, rfl, idle⟩ := calls_reachable
    (m := (semantics .CTcpWorker).restrict Undisturbed)
    (s := ⟨unstarted, fun _ => (), fun _ => .ret ()⟩) unlimited ()
    (.initial ⟨unstarted_initial, fun _ => ⟨rfl, rfl⟩⟩) (fun _ => rfl) ran
  obtain ⟨taken, socket⟩ := Prod.mk.inj after
  exact ⟨c.shared, taken, socket, sockets_owned (reachable_restrict.mp reached) idle⟩

/-- AssociateDevice fails for the first connection: its worker comes back with the socket. -/
theorem lost_runs : ((semantics .CTcpWorker).calls AnyOrder unstarted (connected .failed)).map
    (fun s => (s.taken, s.listener.m_WorkerList.eles,
      (s.worker.objects 0).worker.m_TcpSocket, s.closed)) =
      some ([1], [0], some 1, []) := by
  decide +kernel

theorem socket_lost : ¬ ∀ c : Config Unit Shared Unit Op Res,
    ((semantics .CTcpWorker).system Initial ()).ReachableUnder (Serial AnyOrder Unlimited) c →
      (∀ t, c.code t = .ret ()) → Owned c.shared := by
  intro owned
  obtain ⟨s, ran, after⟩ := Option.map_eq_some_iff.mp lost_runs
  obtain ⟨c, reached, rfl, idle⟩ := calls_reachable (m := semantics .CTcpWorker)
    (s := ⟨unstarted, fun _ => (), fun _ => .ret ()⟩) unlimited ()
    (.initial ⟨unstarted_initial, fun _ => ⟨rfl, rfl⟩⟩) (fun _ => rfl) ran
  obtain ⟨-, list, socket, -⟩ : _ ∧ _ ∧ _ ∧ _ := by simpa using after
  have none_ := (owned c reached idle).idle 0 (by rw [list]; exact List.mem_cons_self)
  rw [socket] at none_
  cases none_

end TestIOCP.Tcp.Accepting
