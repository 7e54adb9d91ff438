import TestIOCP.Tcp.Balance
import TestIOCP.Tcp.Parts

/-! Whether a running listener keeps an AcceptEx outstanding. The handler posts the next
one only after a success for which there is a worker. -/
namespace TestIOCP.Tcp.Listener
open Transition Program Semantics

variable {α : Type} {s s' s₁ : Shared Listener} {l : Unit} {qs : List Req} {q : Req} {w : Obj}

/-- What is outstanding on the listening socket of w. -/
def waiting (s : Shared Listener) (w : Obj) : List Posted :=
  s.pending.filter fun p => p.socket = (s.objects w).m_TcpSocket

def Listens (s : Shared Listener) : Prop :=
  ∀ w, (s.objects w).m_nStatus = .run → (waiting s w).length = 1

/-- An operation that touches no listener and no request, and posts nothing. -/
def Harmless : Op Listener → Prop
  | .set _ _ | .reqPop | .reqNew _ | .reqPush _ | .reqSet _ _ | .post _ _ _ _ _ => False
  | _ => True

/-- What harmless operations leave alone. -/
structure Calm (s s' : Shared Listener) : Prop where
  objects : s'.objects = s.objects
  pending : s'.pending = s.pending
  list : s'.m_IOReqList.eles = s.m_IOReqList.eles
  newReqs : s'.newReqs = s.newReqs
  reqs : s'.reqs = s.reqs
  nextSock : s.nextSock ≤ s'.nextSock

namespace Calm

theorem refl (s : Shared Listener) : Calm s s :=
  ⟨rfl, rfl, rfl, rfl, rfl, Nat.le_refl _⟩

theorem trans (first : Calm s s₁) (second : Calm s₁ s') : Calm s s' :=
  ⟨second.objects.trans first.objects, second.pending.trans first.pending,
    second.list.trans first.list,
    second.newReqs.trans first.newReqs, second.reqs.trans first.reqs,
    first.nextSock.trans second.nextSock⟩

theorem step {op : Op Listener} (harmless : Harmless op) (outcome : Outcome) :
    Calm s (s.perform outcome op).1 := by
  cases op
  case set | reqPop | reqNew | reqPush | reqSet | post => exact absurd harmless id
  case get | reqGet | memcpy | closesocket | associateDevice | release | startWorker => exact refl s
  case bufAllocated | bufPush | reqAllocated | socketAllocated | socketPush |
      workerAllocated | workerPush =>
    exact ⟨rfl, rfl, rfl, rfl, rfl, Nat.le_refl _⟩
  case wsaSocket =>
    simp only [Shared.perform]
    split
    · exact ⟨rfl, rfl, rfl, rfl, rfl, Nat.le_succ _⟩
    · exact refl s
  all_goals
    simp only [Shared.perform]
    split
    · exact ⟨rfl, rfl, rfl, rfl, rfl, Nat.le_refl _⟩
    · exact ⟨rfl, rfl, rfl, rfl, rfl, Nat.le_refl _⟩

theorem requests (calm : Calm s s') (requests : Requests (fun _ => True) s qs) :
    Requests (fun _ => True) s' qs :=
  requests.congr calm.list calm.pending calm.reqs calm.newReqs

end Calm

theorem calm_ensures {p : ListenerCall α} (harmless : p.Every Harmless) :
    p.Ensures step Free s l (fun _ s' _ => Calm s s') := by
  refine harmless.ensures (I := Calm s)
    (fun s' l op outcome s'' l' r harmless calm taken => ?_) (.refl s)
  simp only [Tcp.step, Option.some.injEq, Prod.mk.injEq] at taken
  obtain ⟨rfl, -, -⟩ := taken
  exact calm.trans (.step harmless outcome)

/-- A request is taken, or there is none; listeners and operations stay as they are. -/
theorem takeReq_ensures (requests : Requests (fun _ => True) s qs) (m_pObserver : Option Obj) :
    (takeReq m_pObserver : ListenerCall (Option Req)).Ensures step Free s l (fun r s' _ =>
      Requests (fun _ => True) s' (r.toList ++ qs) ∧ s'.objects = s.objects ∧
        s'.pending = s.pending ∧
        s.nextSock ≤ s'.nextSock) := by
  simp only [takeReq, perform, perform_bind, ensures_op, Shared.perform]
  intro _
  cases list : s.m_IOReqList.eles with
  | cons q rest => exact ⟨requests.pop list, rfl, rfl, Nat.le_refl _⟩
  | nil =>
    simp only [ensures_op, Shared.perform]
    intro _
    cases available : s.available with
    | false => exact ⟨requests, rfl, rfl, Nat.le_refl _⟩
    | true =>
      refine ensures_op.mpr fun _ => ⟨?_, rfl, rfl, Nat.le_refl _⟩
      exact (requests.new _).congr rfl rfl rfl rfl

/-- What Accept comes to: one more operation on the listening socket, or STATUSERROR. -/
inductive Accepted (s : Shared Listener) (w : Obj) (s' : Shared Listener) : Int → Prop where
  | posted (p : Posted) (object : p.object = w) (socket : p.socket = (s.objects w).m_TcpSocket)
      (valid : p.socket ≠ none) (objects : s'.objects = s.objects)
        (pending : s'.pending = p :: s.pending) :
      Accepted s w s' 0
  | failed {r : Int} (fails : r ≠ 0)
      (objects : s'.objects = Function.update s.objects w { s.objects w with m_nStatus := .error })
      (pending : s'.pending = s.pending) : Accepted s w s' r

theorem accept_ensures (requests : Requests (fun _ => True) s qs) :
    (accept w).Ensures step Free s l (fun r s' _ =>
      Requests (fun _ => True) s' qs ∧ s.nextSock ≤ s'.nextSock ∧ Accepted s w s' r) := by
  refine (calm_ensures (takeBuf_every trivial trivial trivial)).seq fun found s₁ l₁ calm₁ => ?_
  have requests₁ := calm₁.requests requests
  cases found with
  | none =>
    refine ensures_op.mpr fun _ => ⟨requests₁.congr rfl rfl rfl rfl, calm₁.nextSock, ?_⟩
    exact .failed (by decide) (by simp only [Shared.perform, calm₁.objects]) calm₁.pending
  | some b =>
    refine (calm_ensures (takeSocket_every trivial trivial trivial)).seq fun found s₂ l₂ calm₂ => ?_
    have requests₂ := calm₂.requests requests₁
    have calm := calm₁.trans calm₂
    cases found with
    | none =>
      refine ensures_op.mpr fun _ => ensures_op.mpr fun _ =>
        ⟨requests₂.congr rfl rfl rfl rfl, calm.nextSock, ?_⟩
      exact .failed (by decide) (by simp only [Shared.perform, calm.objects]) calm.pending
    | some sock =>
      refine (takeReq_ensures requests₂ _).seq ?_
      rintro found s₃ l₃ ⟨requests₃, objects, pending, nextSock⟩
      have nextSock := calm.nextSock.trans nextSock
      have objects := objects.trans calm.objects
      have pending := pending.trans calm.pending
      cases found with
      | none =>
        refine ensures_op.mpr fun _ => ensures_op.mpr fun _ => ensures_op.mpr fun _ =>
          ⟨requests₃.congr rfl rfl rfl rfl, nextSock, ?_⟩
        exact .failed (by decide) (by simp only [Shared.perform, objects]) pending
      | some q =>
        refine ensures_op.mpr fun _ => ensures_get.mpr ?_
        have written := requests₃.write { s₃.reqs q with
          m_Socket := sock, m_pDataBuf := some b, m_nBufSize := LISTENBUFSIZE,
          m_pObserver := some w }
        refine Ensures.bind (post_ensures ?_ fun r accepted valid => ?_)
        · refine ensures_op.mpr fun _ => ensures_op.mpr fun _ => ensures_op.mpr fun _ =>
            ensures_op.mpr fun _ => ⟨written.push.congr rfl rfl rfl rfl, nextSock, ?_⟩
          exact .failed (by decide) (by simp only [Shared.perform, objects]) pending
        · cases r with
          | failed => exact absurd rfl accepted
          | pending | success =>
            refine ⟨(written.post (p := ⟨q, some b, w, (s₃.objects w).m_TcpSocket⟩) ?_).congr
              rfl rfl rfl rfl,
              nextSock, .posted ⟨q, some b, w, (s₃.objects w).m_TcpSocket⟩ rfl
                (by rw [objects]) valid objects
                (by rw [← pending]; rfl)⟩
            simp

/-- Whose the sockets are, and the operations on them. -/
structure Apart (s : Shared Listener) : Prop where
  posted : ∀ p ∈ s.pending, ∃ socket, p.socket = some socket ∧ socket < s.nextSock
  sockets : ∀ w socket, (s.objects w).m_TcpSocket = some socket → socket < s.nextSock
  apart : ∀ u v socket, (s.objects u).m_TcpSocket = some socket →
    (s.objects v).m_TcpSocket = some socket →
    u = v
  own : ∀ p ∈ s.pending, ∀ w, p.socket = (s.objects w).m_TcpSocket → p.object = w

/-- Nothing changes for Listens: only counts do, and the lists. -/
structure Same (s s' : Shared Listener) : Prop where
  status : ∀ w, (s'.objects w).m_nStatus = (s.objects w).m_nStatus
  socket : ∀ w, (s'.objects w).m_TcpSocket = (s.objects w).m_TcpSocket
  pending : s'.pending = s.pending
  nextSock : s.nextSock ≤ s'.nextSock

theorem Calm.same (calm : Calm s s') : Same s s' :=
  ⟨fun w => by rw [calm.objects], fun w => by rw [calm.objects], calm.pending, calm.nextSock⟩

theorem Same.waiting (same : Same s s') (w : Obj) : waiting s' w = waiting s w := by
  simp only [Listener.waiting, same.pending, same.socket]

theorem Same.listens (same : Same s s') (listens : Listens s) : Listens s' := by
  intro w runs
  rw [same.waiting]
  exact listens w (by rw [← same.status, runs])

namespace Apart

/-- Sockets and operations may only go. -/
theorem shrink (apart : Apart s)
    (sockets : ∀ w socket, (s'.objects w).m_TcpSocket = some socket →
      (s.objects w).m_TcpSocket = some socket)
    (pending : ∀ p ∈ s'.pending, p ∈ s.pending)
    (nextSock : s.nextSock ≤ s'.nextSock) : Apart s' := by
  refine ⟨fun p inside => ?_, fun w socket has => ?_, fun u v socket has has' => ?_,
    fun p inside w at_ => ?_⟩
  · obtain ⟨socket, at_, below⟩ := apart.posted p (pending p inside)
    exact ⟨socket, at_, below.trans_le nextSock⟩
  · exact (apart.sockets w socket (sockets w socket has)).trans_le nextSock
  · exact apart.apart u v socket (sockets u socket has) (sockets v socket has')
  · obtain ⟨socket, has, -⟩ := apart.posted p (pending p inside)
    refine apart.own p (pending p inside) w ?_
    rw [has] at at_ ⊢
    exact (sockets w socket at_.symm).symm

theorem same (apart : Apart s) (same : Same s s') : Apart s' :=
  apart.shrink (fun w socket has => by rwa [← same.socket])
    (fun p inside => by rwa [← same.pending])
    same.nextSock

/-- A listener takes a socket that nobody has had. -/
theorem fresh (apart : Apart s) {object : Listener} (socket : object.m_TcpSocket = some s.nextSock)
    (objects : s'.objects = Function.update s.objects w object) (pending : s'.pending = s.pending)
    (nextSock : s.nextSock < s'.nextSock) : Apart s' := by
  have has_or {u : Obj} {k : Sock} (has : (s'.objects u).m_TcpSocket = some k) :
      (u = w ∧ k = s.nextSock) ∨ (s.objects u).m_TcpSocket = some k := by
    rw [objects] at has
    by_cases this : u = w
    · subst this
      rw [Function.update_self, socket] at has
      exact .inl ⟨rfl, (Option.some.inj has).symm⟩
    · rw [Function.update_of_ne this] at has
      exact .inr has
  have old {u : Obj} (has : (s.objects u).m_TcpSocket = some s.nextSock) : False :=
    absurd (apart.sockets u _ has) (Nat.lt_irrefl _)
  refine ⟨fun p inside => ?_, fun u k has => ?_, fun u v k has has' => ?_, fun p inside u at_ => ?_⟩
  · obtain ⟨k, at_, below⟩ := apart.posted p (pending ▸ inside)
    exact ⟨k, at_, below.trans nextSock⟩
  · rcases has_or has with ⟨-, rfl⟩ | has
    · exact nextSock
    · exact (apart.sockets u k has).trans nextSock
  · rcases has_or has with ⟨rfl, rfl⟩ | has <;> rcases has_or has' with ⟨rfl, same⟩ | has'
    · rfl
    · exact (old has').elim
    · exact (old (same ▸ has)).elim
    · exact apart.apart u v k has has'
  · obtain ⟨k, has, below⟩ := apart.posted p (pending ▸ inside)
    rcases has_or (at_.symm.trans has) with ⟨-, rfl⟩ | at_
    · exact absurd below (Nat.lt_irrefl _)
    · exact apart.own p (pending ▸ inside) u (has.trans at_.symm)

/-- What is outstanding on a socket is its listener's. -/
theorem waiting_cons (apart : Apart s) {p : Posted} (socket : p.socket = (s.objects w).m_TcpSocket)
    (valid : p.socket ≠ none) (u : Obj) :
    (p :: s.pending).filter (fun p => p.socket = (s.objects u).m_TcpSocket) =
      if u = w then p :: waiting s u else waiting s u := by
  obtain ⟨k, has⟩ := Option.ne_none_iff_exists'.mp valid
  by_cases this : u = w
  · subst this
    rw [if_pos rfl, List.filter_cons_of_pos (by simpa using socket)]
    rfl
  · rw [if_neg this, List.filter_cons_of_neg, waiting]
    simp only [decide_eq_true_eq]
    intro at_
    exact this (apart.apart u w k (at_.symm.trans has) (socket.symm.trans has))

end Apart

namespace Accepted
variable {r : Int}

theorem apart (accepted : Accepted s w s' r) (apart : Apart s)
    (nextSock : s.nextSock ≤ s'.nextSock) :
    Apart s' := by
  cases accepted with
  | failed fails objects pending =>
    refine apart.shrink (fun u socket has => ?_) (fun p inside => by rwa [← pending]) nextSock
    rw [objects] at has
    by_cases this : u = w
    · subst this
      simpa using has
    · simpa [this] using has
  | posted p object socket valid objects pending =>
    obtain ⟨k, has⟩ := Option.ne_none_iff_exists'.mp valid
    refine ⟨fun p' inside => ?_, fun u => ?_, fun u v => ?_, fun p' inside u => ?_⟩
    · rw [pending] at inside
      rcases List.mem_cons.mp inside with rfl | inside
      · exact ⟨k, has, (apart.sockets w k (socket.symm.trans has)).trans_le nextSock⟩
      · obtain ⟨k', at_, below⟩ := apart.posted p' inside
        exact ⟨k', at_, below.trans_le nextSock⟩
    · rw [objects]
      exact fun k has => (apart.sockets u k has).trans_le nextSock
    · rw [objects]
      exact apart.apart u v
    · rw [pending] at inside
      rw [objects]
      rcases List.mem_cons.mp inside with rfl | inside
      · intro at_
        rw [object]
        exact apart.apart w u k (socket.symm.trans has) (at_.symm.trans has)
      · exact apart.own p' inside u

/-- The listener had nothing outstanding; now it has, or it does not run any more. -/
theorem listens (accepted : Accepted s w s' r) (apart : Apart s)
    (others : ∀ u, u ≠ w → (s.objects u).m_nStatus = .run → (waiting s u).length = 1)
    (silent : (s.objects w).m_nStatus = .run → waiting s w = []) : Listens s' := by
  intro u runs
  cases accepted with
  | failed fails objects pending =>
    rw [objects] at runs
    rw [waiting, objects, pending]
    by_cases this : u = w
    · subst this
      simp at runs
    · rw [Function.update_of_ne this] at runs ⊢
      exact others u this runs
  | posted p object socket valid objects pending =>
    rw [objects] at runs
    rw [waiting, objects, pending, apart.waiting_cons socket valid u]
    by_cases this : u = w
    · subst this
      rw [if_pos rfl, silent runs]
      rfl
    · rw [if_neg this]
      exact others u this runs

end Accepted

namespace Same

theorem refl (s : Shared Listener) : Same s s :=
  ⟨fun _ => rfl, fun _ => rfl, rfl, Nat.le_refl _⟩

theorem trans (first : Same s s₁) (second : Same s₁ s') : Same s s' :=
  ⟨fun w => (second.status w).trans (first.status w),
    fun w => (second.socket w).trans (first.socket w),
    second.pending.trans first.pending, first.nextSock.trans second.nextSock⟩

/-- Only the field m_nAcceptNum of a listener changes. -/
theorem update {object : Listener} (status : object.m_nStatus = (s.objects w).m_nStatus)
    (socket : object.m_TcpSocket = (s.objects w).m_TcpSocket)
    (objects : s'.objects = Function.update s.objects w object) (pending : s'.pending = s.pending)
    (nextSock : s'.nextSock = s.nextSock) : Same s s' := by
  refine ⟨fun u => ?_, fun u => ?_, pending, nextSock.ge⟩ <;> rw [objects] <;> by_cases this : u = w
  · subst this
    rw [Function.update_self, status]
  · rw [Function.update_of_ne this]
  · subst this
    rw [Function.update_self, socket]
  · rw [Function.update_of_ne this]

end Same

/-- There is a worker for the next connection, or memory for one. -/
def Staffed (s : Shared Listener) : Prop :=
  s.m_WorkerList.eles ≠ [] ∨ s.available = true

instance (s : Shared Listener) : Decidable (Staffed s) :=
  inferInstanceAs (Decidable (_ ∨ _))

theorem takeWorker_ensures :
    takeWorker.Ensures step Free s l (fun r s' _ => Calm s s' ∧ (r ≠ none ↔ Staffed s)) := by
  simp only [takeWorker, perform, perform_bind, ensures_op, Shared.perform]
  intro _
  cases list : s.m_WorkerList.eles with
  | cons pworker rest =>
    exact ⟨⟨rfl, rfl, rfl, rfl, rfl, Nat.le_refl _⟩, by simp [Staffed, list]⟩
  | nil =>
    simp only [ensures_op, Shared.perform]
    intro _
    cases available : s.available with
    | false => exact ⟨.refl s, by simp [Staffed, list, available]⟩
    | true =>
      refine ensures_op.mpr fun _ => ⟨⟨rfl, rfl, rfl, rfl, rfl, Nat.le_refl _⟩, ?_⟩
      simp [Staffed, available]

/-- The handler gives its buffer and its request back and goes on. -/
theorem back_ensures {b : Option Buf} {p : ListenerCall α} {Q : α → Shared Listener → Unit → Prop}
    (requests : Requests (fun _ => True) s (q :: qs))
    (rest : ∀ s', Same s s' → Requests (fun _ => True) s' qs → p.Ensures step Free s' () Q) :
    (do bufPush b; reqPush q; p : ListenerCall α).Ensures step Free s l Q := by
  refine ensures_op.mpr fun _ => ensures_op.mpr fun _ =>
    rest _ ⟨fun _ => rfl, fun _ => rfl, rfl, Nat.le_refl _⟩ ?_
  exact requests.push.congr rfl rfl rfl rfl

/-- The handler comes to Accept only after a success for which there is a worker. -/
inductive Handled (s : Shared Listener) (w : Obj) (error : Bool) (s' : Shared Listener) : Prop where
  | accepts {r : Int} (s₁ : Shared Listener) (success : error = false) (staffed : Staffed s)
      (same : Same s s₁)
      (nextSock : s₁.nextSock ≤ s'.nextSock) (accepted : Accepted s₁ w s' r)
  | drops (fails : error = true ∨ ¬ Staffed s) (same : Same s s')

theorem consumeReq_ensures (requests : Requests (fun _ => True) s (q :: qs)) (error : Bool) :
    (consumeReq w .SOCKET_LISTEN error q).Ensures step Free s l (fun _ s' _ =>
      Requests (fun _ => True) s' qs ∧ Handled s w error s') := by
  have quiet {s s' : Shared Listener} (objects : s'.objects = s.objects)
      (pending : s'.pending = s.pending)
      (nextSock : s.nextSock ≤ s'.nextSock) : Same s s' :=
    ⟨fun u => by rw [objects], fun u => by rw [objects], pending, nextSock⟩
  simp only [consumeReq, if_true]
  cases error with
  | true =>
    have back (s₁ : Shared Listener) {l : Unit} (same : Same s s₁)
        (requests : Requests (fun _ => True) s₁ (q :: qs)) (b : Option Buf) :
        (if b ≠ none then (do bufPush b; reqPush q; return -1 : ListenerCall Int)
          else (do reqPush q; return -1)).Ensures step Free s₁ l (fun _ s' _ =>
            Requests (fun _ => True) s' qs ∧ Handled s w true s') := by
      split
      · exact back_ensures requests fun s' same' requests =>
          ⟨requests, .drops (.inl rfl) (same.trans same')⟩
      · refine ensures_op.mpr fun _ => ⟨requests.push, .drops (.inl rfl) ?_⟩
        exact same.trans (quiet rfl rfl (Nat.le_refl _))
    refine ensures_reqGet.mpr ?_
    cases (s.reqs q).m_Socket with
    | none => exact back s (.refl s) requests _
    | some socket =>
      refine ensures_perform.mpr fun _ => ensures_perform.mpr fun _ => back _ ?_ ?_ _
      · exact quiet rfl rfl (Nat.le_refl _)
      · exact requests.write _
  | false =>
    refine takeWorker_ensures.seq ?_
    rintro found s₁ l₁ ⟨calm, staffed⟩
    have requests := calm.requests requests
    cases found with
    | none =>
      have unstaffed : ¬ Staffed s := fun now => staffed.mpr now rfl
      refine ensures_reqGet.mpr ?_
      cases (s₁.reqs q).m_Socket with
      | none =>
        exact back_ensures requests fun s' same requests =>
          ⟨requests, .drops (.inr unstaffed) (calm.same.trans same)⟩
      | some socket =>
        refine ensures_op.mpr fun _ => back_ensures requests fun s' same requests => ?_
        exact ⟨requests, .drops (.inr unstaffed) (calm.same.trans same)⟩
    | some pworker =>
      have next (s₂ : Shared Listener) {l : Unit} (same : Same s s₂)
          (requests : Requests (fun _ => True) s₂ qs) :
          (do discard (accept w); return 0 : ListenerCall Int).Ensures step Free s₂ l (fun _ s' _ =>
            Requests (fun _ => True) s' qs ∧ Handled s w false s') := by
        refine Ensures.bind (Ensures.bind
          ((accept_ensures requests).mono fun r s' _ ⟨requests, nextSock, done⟩ => ?_))
        exact ⟨requests, .accepts s₂ rfl (staffed.mp (by simp)) same nextSock done⟩
      refine ensures_reqGet.mpr (back_ensures requests fun s₂ same requests => ?_)
      have same := calm.same.trans same
      refine ensures_perform.mpr fun outcome => ?_
      split
      · refine ensures_perform.mpr fun _ => next _ (same.trans (.update ?_ ?_ rfl rfl rfl)) ?_
        · rfl
        · rfl
        · exact requests.congr rfl rfl rfl rfl
      · refine ensures_perform.mpr fun _ => next _ (same.trans (quiet rfl rfl (Nat.le_refl _))) ?_
        exact requests.congr rfl rfl rfl rfl

/-- Whenever no call is running. -/
structure Listened (s : Shared Listener) : Prop where
  requests : Requests (fun _ => True) s []
  apart : Apart s
  listens : Listens s

/-- A completion takes one operation from the listener that has posted it. -/
theorem waiting_complete (p : Posted) (u : Obj) :
    waiting { s with pending := s.pending.erase p } u =
      if p.socket = (s.objects u).m_TcpSocket then (waiting s u).erase p else waiting s u := by
  simp only [waiting]
  split
  · rename_i mine
    rw [List.erase_filter]
  · rename_i other
    rw [← List.erase_filter, List.erase_of_not_mem]
    simp [other]

/-- What the handler of a completion needs: the listener posts again if and only if what
has completed was on its listening socket. -/
def Rearms (s : Shared Listener) (p : Posted) (error : Bool) : Prop :=
  (s.objects p.object).m_nStatus = .run →
    (p.socket = (s.objects p.object).m_TcpSocket ↔ error = false ∧ Staffed s)

theorem complete_listened (listened : Listened s) {p : Posted}
    (member : p ∈ s.pending) {error : Bool}
    (rearms : Rearms s p error) : (consumeReq p.object .SOCKET_LISTEN error p.req).Ensures step Free
      { s with pending := s.pending.erase p } l (fun _ s' _ => Listened s') := by
  have apart₀ : Apart { s with pending := s.pending.erase p } :=
    listened.apart.shrink (fun _ _ => id) (fun _ => List.mem_of_mem_erase) (Nat.le_refl _)
  have others (u : Obj) (other : u ≠ p.object) :
      waiting { s with pending := s.pending.erase p } u = waiting s u := by
    rw [waiting_complete, if_neg]
    exact fun at_ => other (listened.apart.own p member u at_).symm
  refine (consumeReq_ensures (listened.requests.complete member) error).mono ?_
  rintro _ s' _ ⟨requests, handled⟩
  cases handled with
  | drops fails same =>
    refine ⟨requests, apart₀.same same, same.listens fun u runs => ?_⟩
    by_cases this : u = p.object
    · subst this
      have elsewhere : p.socket ≠ (s.objects p.object).m_TcpSocket := fun at_ => by
        rcases fails with failed | unstaffed
        · simp [((rearms runs).mp at_).1] at failed
        · exact unstaffed ((rearms runs).mp at_).2
      rw [waiting_complete, if_neg elsewhere]
      exact listened.listens _ runs
    · rw [others u this]
      exact listened.listens u runs
  | accepts s₁ success staffed same nextSock accepted =>
    have apart₁ := apart₀.same same
    refine ⟨requests, accepted.apart apart₁ nextSock,
      accepted.listens apart₁ (fun u this runs => ?_) fun runs => ?_⟩
    · rw [same.waiting, others u this]
      exact listened.listens u (by rw [← runs, same.status])
    · have runs : (s.objects p.object).m_nStatus = .run := by rw [← runs, same.status]
      have at_ := (rearms runs).mpr ⟨success, staffed⟩
      have inside : p ∈ waiting s p.object := List.mem_filter.mpr ⟨member, by simpa using at_⟩
      rw [same.waiting, waiting_complete, if_pos at_]
      obtain ⟨p', only⟩ := List.length_eq_one_iff.mp (listened.listens _ runs)
      rw [only, List.mem_singleton] at inside
      rw [only, inside, List.erase_cons_head]

/-- While a call is busy with w, which does not run. -/
structure Aside (s : Shared Listener) (w : Obj) : Prop where
  requests : Requests (fun _ => True) s []
  apart : Apart s
  others : ∀ u, u ≠ w → (s.objects u).m_nStatus = .run → (waiting s u).length = 1

namespace Aside

theorem listened (aside : Aside s w) (idle : (s.objects w).m_nStatus ≠ .run) : Listened s := by
  refine ⟨aside.requests, aside.apart, fun u runs => aside.others u ?_ runs⟩
  rintro rfl
  exact idle runs

theorem set (aside : Aside s w) (f : Listener → Listener)
    (keeps : ∀ socket, (f (s.objects w)).m_TcpSocket = some socket →
      (s.objects w).m_TcpSocket = some socket) :
    Aside { s with objects := Function.update s.objects w (f (s.objects w)) } w := by
  refine ⟨aside.requests.congr rfl rfl rfl rfl,
    aside.apart.shrink (fun u socket has => ?_) (fun _ => id)
    (Nat.le_refl _), fun u this runs => ?_⟩
  · by_cases this : u = w
    · subst this
      simp only [Function.update_self] at has
      exact keeps socket has
    · simpa only [Function.update_of_ne this] using has
  · simp only [Function.update_of_ne this] at runs
    simp only [waiting, Function.update_of_ne this]
    exact aside.others u this runs

/-- The status is set last, to one in which nothing is asked of the listener. -/
theorem status_ensures (aside : Aside s w) {m_nStatus : Status}
    (idle : m_nStatus ≠ .run) (n : Int) :
    (do status w m_nStatus; return n : ListenerCall Int).Ensures step Free s l (fun _ s' _ =>
      Listened s') := by
  refine ensures_perform.mpr fun _ =>
    (aside.set (fun o => { o with m_nStatus }) fun _ => id).listened ?_
  simp only [Function.update_self]
  exact idle

end Aside

theorem Listened.aside (listened : Listened s) (w : Obj) : Aside s w :=
  ⟨listened.requests, listened.apart, fun u _ runs => listened.listens u runs⟩

theorem stop_listened (listened : Listened s) (w : Obj) :
    (stop w).Ensures step Free s l (fun _ s' _ => Listened s') := by
  have aside := listened.aside w
  refine ensures_perform.mpr fun _ => ensures_get.mpr ?_
  have stopped := aside.set (fun o => { o with m_nStatus := .stop }) fun _ => id
  split
  · refine ensures_perform.mpr fun _ => ensures_perform.mpr fun _ => ?_
    refine (stopped.set (fun o => { o with m_TcpSocket := none }) (by simp)).listened ?_
    simp
  · exact stopped.listened (by simp)

/-- A new socket, on which nothing is outstanding. -/
theorem Aside.fresh (aside : Aside s w) {object : Listener}
    (socket : object.m_TcpSocket = some s.nextSock) :
    Aside { s with nextSock := s.nextSock + 1, objects := Function.update s.objects w object } w ∧
      waiting { s with nextSock := s.nextSock + 1, objects := Function.update s.objects w object }
          w = [] := by
  refine ⟨⟨aside.requests.congr rfl rfl rfl rfl,
    aside.apart.fresh socket rfl rfl (Nat.lt_succ_self _),
    fun u this runs => ?_⟩, List.filter_eq_nil_iff.mpr fun p inside => ?_⟩
  · simp only [Function.update_of_ne this] at runs
    simp only [waiting, Function.update_of_ne this]
    exact aside.others u this runs
  · obtain ⟨k, at_, below⟩ := aside.apart.posted p inside
    simp only [Function.update_self, socket, at_, Option.some.injEq, decide_eq_true_eq]
    exact below.ne

/-- What Start ends with: the first AcceptEx. -/
theorem Aside.accept_ensures (aside : Aside s w) (idle : (s.objects w).m_nStatus ≠ .run)
    (silent : waiting s w = []) :
    (do
      if (← accept w) = 0 then
        status w .run
        return 0
      else
        return -3 : ListenerCall Int).Ensures step Free s l (fun _ s' _ => Listened s') := by
  refine (Listener.accept_ensures aside.requests).seq ?_
  rintro r s' l ⟨requests, nextSock, accepted⟩
  have apart := accepted.apart aside.apart nextSock
  cases accepted with
  | failed fails objects pending =>
    rw [if_neg fails]
    exact ⟨requests, apart, (Accepted.failed fails objects pending).listens aside.apart aside.others
      fun _ => silent⟩
  | posted p object socket valid objects pending =>
    rw [if_pos rfl]
    have same (u : Obj) : (Function.update s.objects w { s.objects w with m_nStatus := .run }
          u).m_TcpSocket =
        (s.objects u).m_TcpSocket := by
      by_cases this : u = w
      · subst this
        rw [Function.update_self]
      · rw [Function.update_of_ne this]
    refine ensures_perform.mpr fun _ => ⟨requests.congr rfl rfl rfl rfl,
      apart.shrink (fun u k has => ?_) (fun _ => id) (Nat.le_refl _), fun u runs => ?_⟩
    · simp only [Shared.perform, objects, same] at has ⊢
      exact has
    · simp only [Shared.perform, waiting, pending, objects, same] at runs ⊢
      rw [aside.apart.waiting_cons socket valid u]
      by_cases this : u = w
      · subst this
        rw [if_pos rfl, silent]
        rfl
      · rw [if_neg this]
        rw [Function.update_of_ne this] at runs
        exact aside.others u this runs

/-- The AcceptEx that Start posts is the first one on its socket. -/
theorem start_listened (listened : Listened s) (w : Obj) (attached : Bool) :
    (start w attached).Ensures step Free s l (fun _ s' _ => Listened s') := by
  refine ensures_get.mpr ?_
  split
  · exact listened
  rename_i idle
  refine ensures_perform.mpr fun outcome => ensures_perform.mpr fun _ => ensures_get.mpr ?_
  have aside := listened.aside w
  simp only [Shared.perform]
  split
  · obtain ⟨aside, silent⟩ := aside.fresh
      (show ({ s.objects w with m_TcpSocket := some s.nextSock } : Listener).m_TcpSocket = _ from
        rfl)
    simp only [Function.update_self, reduceCtorEq, if_false]
    cases attached with
    | false => exact aside.accept_ensures (by simpa using idle) silent
    | true =>
      refine ensures_get.mpr (ensures_perform.mpr fun associated => ?_)
      split
      · exact aside.status_ensures (by decide) _
      · exact aside.accept_ensures (by simpa using idle) silent
  · simp only [Function.update_self, if_true]
    exact (aside.set (fun o => { o with m_TcpSocket := none })
      (by simp)).status_ensures (by decide) _

/-- An entry that no listener is touched by. -/
theorem Listened.calm (listened : Listened s) (calm : Calm s s') : Listened s' :=
  ⟨calm.requests listened.requests, listened.apart.same calm.same,
    calm.same.listens listened.listens⟩

theorem Listened.seq (listened : Listened s) (op : Op Listener) (harmless : Harmless op)
    {rest : Res op → ListenerCall α} (next : ∀ r s', Listened s' →
      (rest r).Ensures step Free s' () (fun _ s' _ => Listened s')) :
    (perform op >>= rest).Ensures step Free s l (fun _ s' _ => Listened s') :=
  ensures_perform.mpr fun outcome => next _ _ (listened.calm (.step harmless outcome))

theorem initObject_listened (listened : Listened s) (w : Obj) (named : Bool) :
    (initObject w named).Ensures step Free s l (fun _ s' _ => Listened s') := by
  simp only [initObject, baseInitObject]
  generalize List.replicate initsize () = items
  refine Ensures.seq (R := fun _ s' _ => Listened s') ?_ fun _ s l listened => ?_
  rotate_left
  · refine (calm_ensures ?_).seq fun _ _ _ calm => listened.calm calm
    refine .forM fun _ _ => Every.bind (.perform trivial) fun made => ?_
    cases made with
    | none => trivial
    | some pworker => exact Every.bind (.perform trivial) fun _ => .perform trivial
  split
  · exact listened
  refine listened.seq .bufNew trivial fun ptempbuf s listened => ?_
  refine listened.seq (.bufPush _) trivial fun _ s listened => ?_
  refine listened.seq .bufAllocated trivial fun _ s listened => ?_
  refine (calm_ensures ?_).seq fun _ s₁ l₁ calm => ?_
  · exact .forM fun _ _ => Every.bind (.perform trivial) fun _ =>
        Every.bind (.perform trivial) fun _ =>
      .perform trivial
  have listened := listened.calm calm
  refine ensures_perform.mpr fun _ => ?_
  cases available : s₁.available with
  | false =>
    simp only [Shared.perform, available, Bool.false_eq_true, if_false]
    exact listened
  | true =>
    simp only [Shared.perform, available, if_true]
    refine ensures_perform.mpr fun _ => ensures_perform.mpr fun _ => ?_
    exact ⟨(listened.requests.new _).push.congr rfl rfl rfl rfl,
      listened.apart.shrink (fun _ _ => id) (fun _ => id) (Nat.le_refl _), listened.listens⟩

theorem releaseObject_listened (listened : Listened s) (w pobject : Obj) :
    (releaseObject w pobject).Ensures step Free s l (fun _ s' _ => Listened s') := by
  refine ensures_perform.mpr fun _ => ensures_perform.mpr fun _ => ?_
  have same (object : Listener) (status : object.m_nStatus = (s.objects w).m_nStatus)
      (socket : object.m_TcpSocket = (s.objects w).m_TcpSocket) :
      Listened { s with
        m_WorkerList := s.m_WorkerList.pushTail pobject
        objects := Function.update s.objects w object } := by
    have same : Same s { s with
        m_WorkerList := s.m_WorkerList.pushTail pobject
        objects := Function.update s.objects w object } := .update status socket rfl rfl rfl
    exact ⟨listened.requests.congr rfl rfl rfl rfl, listened.apart.same same,
      same.listens listened.listens⟩
  exact same _ rfl rfl

/-- AcceptEx is posted by Start and by the handler only, since Accept is protected. -/
def Orderly (s : Shared Listener) : Entry → Prop
  | .accept _ => False
  | .complete posted error => Rearms s posted error
  | _ => True

theorem enter_listened {e : Entry} {p : ListenerCall Unit} (listened : Listened s)
    (orderly : Orderly s e)
    (entered : enter s e = some (s', l, p)) :
      p.Ensures step Free s' l (fun _ s _ => Listened s) := by
  cases e with
  | initObject w named =>
    cases entered
    exact (initObject_listened listened w named).seq fun _ _ _ listened => listened
  | start w attached =>
    cases entered
    exact (start_listened listened w attached).seq fun _ _ _ listened => listened
  | stop w =>
    cases entered
    exact (stop_listened listened w).seq fun _ _ _ listened => listened
  | accept w => exact orderly.elim
  | releaseObject w pobject =>
    cases entered
    exact (releaseObject_listened listened w pobject).seq fun _ _ _ listened => listened
  | memory available =>
    cases entered
    exact listened.calm ⟨rfl, rfl, rfl, rfl, rfl, Nat.le_refl _⟩
  | complete posted error =>
    simp only [enter] at entered
    split at entered
    · rename_i member
      rw [(listened.requests.noted posted member).1] at entered
      cases entered
      exact (complete_listened listened member orderly).seq fun _ _ _ listened => listened
    · cases entered

/-- No listener has been started yet, and no request has been made. -/
structure Unstarted (s : Shared Listener) : Prop where
  listeners : ∀ w, (s.objects w).m_TcpSocket = none ∧ (s.objects w).m_nStatus ≠ .run
  requests : s.m_IOReqList.eles = [] ∧ s.newReqs = 0
  pending : s.pending = []

theorem Unstarted.listened (first : Unstarted s) : Listened s := by
  obtain ⟨listeners, ⟨list, newReqs⟩, pending⟩ := first
  refine ⟨⟨?_, ?_⟩, ⟨?_, fun w socket has => ?_, fun u v socket has => ?_, ?_⟩,
    fun w runs => absurd runs (listeners w).2⟩
  · rw [list, newReqs, pending]
    exact .refl _
  · simp [pending]
  · simp [pending]
  · rw [(listeners w).1] at has
    cases has
  · rw [(listeners u).1] at has
    cases has
  · simp [pending]

/-- Every listener that runs has exactly one AcceptEx outstanding on its socket. -/
theorem keeps_listening {T : Type} [DecidableEq T]
    {c : Config T (Shared Listener) Unit (Op Listener) Res}
    (run : (semantics.system Unstarted ()).ReachableUnder (Serial Orderly Free) c)
    (rest : ∀ t, c.code t = .ret ()) : Listens c.shared := by
  have listened : Listened c.shared := holds_at_rest (I := Listened) (fun _ first => first.listened)
    (fun _ _ _ _ _ listened orderly entered => enter_listened listened orderly entered) run rest
  exact listened.listens

instance : (s : Shared Listener) → (e : Entry) → Decidable (Orderly s e)
  | _, .accept _ => .isFalse id
  | s, .complete p error => inferInstanceAs (Decidable ((s.objects p.object).m_nStatus = .run →
      (p.socket = (s.objects p.object).m_TcpSocket ↔ error = false ∧ Staffed s)))
  | _, .initObject _ _ | _, .start _ _ | _, .stop _ | _, .releaseObject _ _ | _,
    .memory _ => .isTrue trivial

def stopped : Listener :=
  ⟨none, .stop, 0⟩

/-- The AcceptEx of a first session fails after a second Start; then a connection comes. -/
def restarted : List (Entry × Outcome) :=
  [(.start 0 true, .pending), (.complete ⟨0, some 0, 0, some 0⟩ false, .success),
    (.stop 0, .success),
    (.start 0 true, .pending), (.complete ⟨0, some 0, 0, some 0⟩ true, .success),
    (.complete ⟨1, some 1, 0, some 3⟩ false, .pending)]

theorem restarted_runs : (semantics.calls Orderly (unused stopped) restarted).map
    (fun s => (s.pending, (s.objects 0).m_nStatus)) = some ([⟨0, some 0, 0, some 3⟩], .run) := by
  decide +kernel

theorem keeps_listening_after_restart :
    ∃ s : Shared Listener, s.pending = [⟨0, some 0, 0, some 3⟩] ∧ (s.objects 0).m_nStatus =
      .run ∧ Listens s := by
  obtain ⟨s, ran, after⟩ := Option.map_eq_some_iff.mp restarted_runs
  have first : Unstarted (unused stopped) :=
    ⟨fun _ => ⟨rfl, by simp [unused, stopped]⟩, ⟨rfl, rfl⟩, rfl⟩
  obtain ⟨c, reached, rfl, idle⟩ :=
    calls_reachable (m := semantics) (s := ⟨unused stopped, fun _ => (), fun _ => .ret ()⟩)
    (fun _ _ => trivial) () (.initial ⟨first, fun _ => ⟨rfl, rfl⟩⟩) (fun _ => rfl) ran
  exact ⟨c.shared, (Prod.mk.inj after).1, (Prod.mk.inj after).2, keeps_listening reached idle⟩

/-- A listener after Start and some completions; every AcceptEx is accepted. -/
def listening (completions : List (Posted × Bool)) : Option (Shared Listener) :=
  semantics.calls AnyOrder (unused stopped)
    ((.start 0 true, .pending) :: completions.map fun (p, error) => (.complete p error, .pending))

theorem deaf_after_error : ¬ ∀ completions s, listening completions = some s → Listens s := by
  intro listens
  have aborted : (listening [(⟨0, some 0, 0, some 0⟩, true)]).map
      (fun s => ((s.objects 0).m_nStatus, s.pending)) = some (.run, []) := by
    decide +kernel
  obtain ⟨s, ran, after⟩ := Option.map_eq_some_iff.mp aborted
  obtain ⟨runs, silent⟩ := Prod.mk.inj after
  have one := listens _ s ran 0 runs
  simp [waiting, silent] at one

end TestIOCP.Tcp.Listener
