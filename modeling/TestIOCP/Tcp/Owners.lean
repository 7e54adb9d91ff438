import TestIOCP.Tcp.Accepting
import TestIOCP.Tcp.Stocks
import TestIOCP.Ledger

/-! Where the sockets are that a listener takes for AcceptEx. While a call runs, one socket
may be in its hands. -/
namespace TestIOCP.Tcp.Accepting
open Transition Program Semantics
open Rtsp (Pooled)

variable {α β : Type} {s s' s₁ : Shared} {hand hand' : Option Sock} {qs : List Req} {q : Req}
  {v w : Obj} {x : Sock}

instance (c : Choice) : (op : Tcp.Op Pooled) → Decidable (Fails c op)
  | .associateDevice _ | .post _ _ _ _ _ => inferInstanceAs (Decidable (c.outcome = .failed))
  | .bufNew | .reqNew _ => inferInstanceAs (Decidable (c.available = false))
  | .get _ | .set _ _ | .bufPop | .bufAllocated | .bufPush _ | .reqPop | .reqAllocated |
    .reqPush _ | .reqGet _
  | .reqSet _ _ | .memcpy _ _ | .wsaSocket | .closesocket _ | .release _ | .socketPop |
    .socketAllocated
  | .socketPush _ | .workerPop | .workerNew | .workerAllocated | .workerPush _ |
    .startWorker _ _ => .isFalse id

instance (s : Shared) (op : Op) (c : Choice) : Decidable (Undisturbed s op c) :=
  match op with
  | .worker (some w) op =>
    inferInstanceAs (Decidable ((s.worker.objects w).worker.m_TcpSocket ≠ none → ¬ Fails c op))
  | .worker none _ | .listener _ | .m_pListener _ | .setListener _ _ => .isTrue trivial

/-- An operation when no Start of a worker is disturbed. -/
def undisturbed (s : Shared) (l : Unit) (op : Op) (c : Choice) :
    Option (Shared × Unit × Res op) :=
  if Undisturbed s op c then step s l op c else none

/-- What a part of a call ensures then. -/
def Always (p : Handler α) (s : Shared) (Q : α → Shared → Prop) : Prop :=
  p.Ensures undisturbed Unlimited s () fun a s _ => Q a s

theorem always_call {op : Op} {rest : Res op → Handler α} {Q : α → Shared → Prop} :
    Always (.call op rest) s Q ↔
      ∀ c, Undisturbed s op c → Always (rest (s.perform c op).2) (s.perform c op).1 Q := by
  constructor
  · intro always c may
    refine always trivial c _ _ _ ?_
    simp only [undisturbed, if_pos may]
    rfl
  · intro always _ c s' l' r taken
    simp only [undisturbed, Option.ite_none_right_eq_some, step, Option.some.injEq,
      Prod.mk.injEq] at taken
    obtain ⟨may, rfl, -, rfl⟩ := taken
    exact always c may

theorem Always.seq {p : Handler α} {f : α → Handler β} {R : α → Shared → Prop}
    {Q : β → Shared → Prop}
    (first : Always p s R) (rest : ∀ a s, R a s → Always (f a) s Q) : Always (p >>= f) s Q :=
  Ensures.seq first fun a s _ => rest a s

theorem Always.mono {p : Handler α} {Q R : α → Shared → Prop} (always : Always p s Q)
    (weaker : ∀ a s, Q a s → R a s) : Always p s R :=
  Ensures.mono always fun a s _ => weaker a s

theorem Always.and {p : Handler α} {Q R : α → Shared → Prop} (left : Always p s Q)
    (right : Always p s R) :
    Always p s fun a s => Q a s ∧ R a s :=
  Ensures.and left right

/-- The same through the operations of one class. -/
theorem Always.next {F : Type} {h : (op : Tcp.Op F) → Handler (Tcp.Res op)} {p : Call F α}
    {f : α → Call F β}
    {R : α → Shared → Prop} {Q : β → Shared → Prop} (first : Always (p.translate h) s R)
    (rest : ∀ a s, R a s → Always ((f a).translate h) s Q) :
      Always ((p >>= f).translate h) s Q := by
  rw [translate_bind]
  exact first.seq rest

/-- The first operation, whatever it is embedded as. -/
theorem Always.op {F : Type} {h : (op : Tcp.Op F) → Handler (Tcp.Res op)} {op : Tcp.Op F}
    {rest : Tcp.Res op → Call F α}
    {R : Tcp.Res op → Shared → Prop} {Q : α → Shared → Prop} (first : Always (h op) s R)
    (next : ∀ r s, R r s → Always ((rest r).translate h) s Q) :
      Always ((Tcp.perform op >>= rest).translate h) s Q :=
  first.seq next

/-- An operation of a listener, which no Start of a worker performs. -/
theorem always_listener {h : (op : Tcp.Op Listener) → Handler (Tcp.Res op)} {op : Tcp.Op Listener}
    {rest : Tcp.Res op → ListenerCall α} {Q : α → Shared → Prop}
    (plain : h op = Accepting.perform (.listener op)) :
    Always ((Tcp.perform op >>= rest).translate h) s Q ↔
      ∀ c, Always ((rest (s.perform c (.listener op)).2).translate h)
        (s.perform c (.listener op)).1 Q := by
  have same : (Tcp.perform op >>= rest).translate h = .call (.listener op) fun r =>
      (rest r).translate h := by
    refine (translate_call op rest).trans ?_
    rw [plain]
    rfl
  rw [same, always_call]
  exact forall_congr' fun c => ⟨fun always => always trivial, fun always _ => always⟩

theorem always_worker {starting : Option Obj} {op : Tcp.Op Pooled}
    {rest : Tcp.Res op → WorkerCall α}
    {Q : α → Shared → Prop} (plain : workerOp starting op =
      Accepting.perform (.worker starting op)) :
    Always ((Tcp.perform op >>= rest).translate (workerOp starting)) s Q ↔
      ∀ c, Undisturbed s (.worker starting op) c →
        Always ((rest (s.perform c (.worker starting op)).2).translate (workerOp starting))
          (s.perform c (.worker starting op)).1 Q := by
  have same : (Tcp.perform op >>= rest).translate (workerOp starting) =
      .call (.worker starting op) fun r => (rest r).translate (workerOp starting) := by
    refine (translate_call op rest).trans ?_
    rw [plain]
    rfl
  rw [same, always_call]

/-- What an operation leaves alone that moves no socket and no request. -/
structure Same (s s' : Shared) : Prop where
  list : s'.listener.m_SocketList.eles = s.listener.m_SocketList.eles
  pending : s'.listener.pending = s.listener.pending
  reqs : s'.listener.reqs = s.listener.reqs
  nextSock : s'.listener.nextSock = s.listener.nextSock
  requests : s'.listener.m_IOReqList.eles = s.listener.m_IOReqList.eles
  newReqs : s'.listener.newReqs = s.listener.newReqs
  listeners : ∀ v, (s'.listener.objects v).m_TcpSocket = (s.listener.objects v).m_TcpSocket
  workers : ∀ w, (s'.worker.objects w).worker.m_TcpSocket = (s.worker.objects w).worker.m_TcpSocket
  idle : s'.listener.m_WorkerList.eles = s.listener.m_WorkerList.eles
  newWorkers : s'.listener.newWorkers = s.listener.newWorkers
  m_pListener : s'.m_pListener = s.m_pListener
  taken : s'.taken = s.taken
  closed : s'.closed = s.closed

theorem Same.refl (s : Shared) : Same s s :=
  ⟨rfl, rfl, rfl, rfl, rfl, rfl, fun _ => rfl, fun _ => rfl, rfl, rfl, rfl, rfl, rfl⟩

theorem Same.trans (first : Same s s₁) (second : Same s₁ s') : Same s s' :=
  ⟨second.list.trans first.list, second.pending.trans first.pending, second.reqs.trans first.reqs,
    second.nextSock.trans first.nextSock, second.requests.trans first.requests,
    second.newReqs.trans first.newReqs,
    fun v => (second.listeners v).trans (first.listeners v),
    fun w => (second.workers w).trans (first.workers w),
    second.idle.trans first.idle, second.newWorkers.trans first.newWorkers,
    second.m_pListener.trans first.m_pListener, second.taken.trans first.taken,
    second.closed.trans first.closed⟩

/-- An operation of a worker that leaves its socket alone. -/
def Quiet : Tcp.Op Pooled → Prop
  | .set _ f => ∀ o, (f o).worker.m_TcpSocket = o.worker.m_TcpSocket
  | .closesocket _ | .release _ => False
  | _ => True

def Neutral : Op → Prop
  | .listener op =>
    match op with
    | .set _ f => ∀ o, (f o).m_TcpSocket = o.m_TcpSocket
    | .get _ | .bufPop | .bufNew | .bufAllocated | .bufPush _ | .reqAllocated |
      .reqGet _ | .memcpy _ _
    | .associateDevice _ | .socketAllocated | .workerAllocated => True
    | _ => False
  | .worker _ op => Quiet op
  | .m_pListener _ => True
  | .setListener _ _ => False

theorem Neutral.same {op : Op} (neutral : Neutral op) (c : Choice) : Same s (s.perform c op).1 := by
  cases op with
  | m_pListener u => exact .refl s
  | setListener u pallocater => exact absurd neutral id
  | worker starting op =>
    have closed : (s.perform c (.worker starting op)).1.closed = s.closed := by
      cases op
      case closesocket => exact absurd neutral id
      all_goals rfl
    refine ⟨rfl, rfl, rfl, rfl, rfl, rfl, fun _ => rfl, fun u => ?_, rfl, rfl, rfl, rfl, closed⟩
    refine perform_objects { s.worker with available := c.available } c.outcome op u
      (P := fun o o' => o'.worker.m_TcpSocket = o.worker.m_TcpSocket) (fun _ => rfl) ?_
    rintro u f rfl
    exact neutral
  | listener op =>
    cases op
    case set u f =>
      refine ⟨rfl, rfl, rfl, rfl, rfl, rfl, fun v => ?_, fun _ => rfl, rfl, rfl, rfl, rfl, rfl⟩
      refine perform_objects { s.listener with available := c.available } c.outcome (.set u f) v
        (P := fun o o' => o'.m_TcpSocket = o.m_TcpSocket) (fun _ => rfl) ?_
      rintro u f ⟨⟩
      exact neutral
    case get | bufAllocated | bufPush | reqAllocated | reqGet | memcpy |
      associateDevice | socketAllocated
      | workerAllocated =>
      exact ⟨rfl, rfl, rfl, rfl, rfl, rfl, fun _ => rfl, fun _ => rfl, rfl, rfl, rfl, rfl, rfl⟩
    case bufPop | bufNew =>
      simp only [Shared.perform, Tcp.Shared.perform]
      split <;> exact ⟨rfl, rfl, rfl, rfl, rfl, rfl, fun _ => rfl, fun _ => rfl, rfl,
        rfl, rfl, rfl, rfl⟩
    all_goals exact absurd neutral id

theorem neutral_always {p : Handler α} (neutral : p.Every Neutral) :
    Always p s fun _ s' => Same s s' := by
  refine neutral.ensures (I := Same s) (fun s' l op c s'' l' r neutral same taken => ?_) (.refl s)
  simp only [undisturbed, Option.ite_none_right_eq_some, step, Option.some.injEq,
    Prod.mk.injEq] at taken
  obtain ⟨-, rfl, -, -⟩ := taken
  exact same.trans (neutral.same c)

/-- A quiet part of a worker's call. -/
theorem quiet_always {p : WorkerCall α} (quiet : p.Every Quiet) (starting : Option Obj) :
    Always (p.translate (workerOp starting)) s fun _ s' => Same s s' := by
  refine neutral_always (quiet.translate fun op quiet => ?_)
  cases op
  case release => exact absurd quiet id
  all_goals exact Every.perform quiet

/-- The places of the sockets while a call runs, with those of the listeners themselves. -/
inductive Site where
  | list
  | acceptEx (posted : Posted)
  | worker (w : Obj)
  | closed
  | listening (v : Obj)
  | hand

def Holds (s : Shared) (hand : Option Sock) : Site → Sock → Prop
  | .list, x => some x ∈ s.listener.m_SocketList.eles
  | .acceptEx posted, x => posted ∈ s.listener.pending ∧
    (s.listener.reqs posted.req).m_Socket = some x
  | .worker w, x => (s.worker.objects w).worker.m_TcpSocket = some x
  | .closed, x => x ∈ s.closed
  | .listening v, x => (s.listener.objects v).m_TcpSocket = some x
  | .hand, x => hand = some x

theorem holds_hand (q : Site) (y : Sock) : Holds s (some x) q y ↔ (q = .hand ∧ y = x) ∨
    Holds s none q y := by
  cases q <;> simp [Holds, eq_comm]

/-- No socket is in two places, and Accept has taken none that is a listener's. -/
structure Apart (s : Shared) (hand : Option Sock) : Prop where
  once : ∀ p q x, Holds s hand p x → Holds s hand q x → p = q
  below : ∀ p x, Holds s hand p x → x < s.listener.nextSock
  taken : ∀ x ∈ s.taken, ∃ p, (∀ v, p ≠ .listening v) ∧ Holds s hand p x
  listed : ∀ x, s.listener.m_SocketList.eles.count (some x) ≤ 1
  closed : s.closed.Nodup

/-- Workers in the list have no socket, and those that were not made yet have nothing. -/
structure Staff (s : Shared) : Prop where
  idle : ∀ w ∈ s.listener.m_WorkerList.eles, (s.worker.objects w).worker.m_TcpSocket = none
  unborn : ∀ w, s.listener.newWorkers ≤ w → (s.worker.objects w).worker.m_TcpSocket = none ∧
    w ∉ s.listener.m_WorkerList.eles ∧ s.m_pListener w = none

/-- qs are the requests in the hands of the call. -/
structure Owning (s : Shared) (hand : Option Sock) (qs : List Req) : Prop where
  requests : Requests (fun _ => True) s.listener qs
  apart : Apart s hand
  staff : Staff s

theorem Apart.congr (apart : Apart s hand) (holds : ∀ p x, Holds s' hand p x ↔ Holds s hand p x)
    (nextSock : s'.listener.nextSock = s.listener.nextSock) (taken : s'.taken = s.taken)
    (list : s'.listener.m_SocketList.eles = s.listener.m_SocketList.eles)
    (closed : s'.closed = s.closed) :
    Apart s' hand := by
  refine ⟨fun p q x => ?_, fun p x => ?_, ?_, ?_, ?_⟩
  · rw [holds, holds]
    exact apart.once p q x
  · rw [holds, nextSock]
    exact apart.below p x
  · rw [taken]
    simpa only [holds] using apart.taken
  · rw [list]
    exact apart.listed
  · rw [closed]
    exact apart.closed

theorem Staff.congr (staff : Staff s)
    (workers : ∀ w, (s'.worker.objects w).worker.m_TcpSocket =
      (s.worker.objects w).worker.m_TcpSocket)
    (idle : s'.listener.m_WorkerList.eles = s.listener.m_WorkerList.eles)
    (newWorkers : s'.listener.newWorkers = s.listener.newWorkers)
    (m_pListener : s'.m_pListener = s.m_pListener) :
    Staff s' := by
  constructor
  · simpa only [idle, workers] using staff.idle
  · simpa only [idle, workers, newWorkers, m_pListener] using staff.unborn

namespace Same

theorem holds (same : Same s s') (p : Site) (x : Sock) : Holds s' hand p x ↔ Holds s hand p x := by
  cases p <;> simp only [Holds, same.list, same.pending, same.reqs, same.workers,
    same.closed, same.listeners]

theorem apart (same : Same s s') (apart : Apart s hand) : Apart s' hand :=
  apart.congr same.holds same.nextSock same.taken same.list same.closed

theorem staff (same : Same s s') (staff : Staff s) : Staff s' :=
  staff.congr same.workers same.idle same.newWorkers same.m_pListener

theorem owning (same : Same s s') (owning : Owning s hand qs) : Owning s' hand qs :=
  ⟨owning.requests.congr same.requests same.pending same.reqs same.newReqs, same.apart owning.apart,
    same.staff owning.staff⟩

end Same

namespace Apart

/-- One socket comes to a place, and the others stay. -/
theorem arrive (apart : Apart s hand) (p : Site) (arrives : ∀ q y, Holds s' hand' q y →
    (q = p ∧ y = x) ∨ Holds s hand q y)
    (left : ∀ q, Holds s hand q x → Holds s' hand' q x → q = p)
    (stays : ∀ q y, y ≠ x → (∀ v, q ≠ .listening v) → Holds s hand q y → Holds s' hand' q y)
    (there : Holds s' hand' p x) (proper : x ∈ s'.taken → ∀ v, p ≠ .listening v)
    (known : x < s'.listener.nextSock) (nextSock : s.listener.nextSock ≤ s'.listener.nextSock)
    (taken : ∀ y ∈ s'.taken, y = x ∨ y ∈ s.taken)
    (listed : ∀ x, s'.listener.m_SocketList.eles.count (some x) ≤ 1)
    (closed : s'.closed.Nodup) : Apart s' hand' := by
  refine ⟨once_of_arrival apart.once arrives left, fun q y here => ?_,
    fun y inside => ?_, listed, closed⟩
  · rcases arrives q y here with ⟨-, rfl⟩ | before
    · exact known
    · exact (apart.below q y before).trans_le nextSock
  · by_cases same : y = x
    · subst same
      exact ⟨p, proper inside, there⟩
    · obtain ⟨q, other, before⟩ := apart.taken y ((taken y inside).resolve_left same)
      exact ⟨q, other, stays q y same other before⟩

/-- No socket comes anywhere, and only listeners lose theirs. -/
theorem shrink (apart : Apart s hand) (old : ∀ q y, Holds s' hand' q y → Holds s hand q y)
    (stays : ∀ q y, (∀ v, q ≠ .listening v) → Holds s hand q y → Holds s' hand' q y)
    (nextSock : s.listener.nextSock ≤ s'.listener.nextSock)
    (taken : ∀ y ∈ s'.taken, ∃ p, (∀ v, p ≠ .listening v) ∧ Holds s hand p y)
    (listed : ∀ x, s'.listener.m_SocketList.eles.count (some x) ≤ 1) (closed : s'.closed.Nodup) :
      Apart s' hand' := by
  refine ⟨fun p q y here there => ?_, fun q y here => ?_, fun y inside => ?_, listed, closed⟩
  · exact apart.once p q y (old p y here) (old q y there)
  · exact (apart.below q y (old q y here)).trans_le nextSock
  · obtain ⟨q, other, before⟩ := taken y inside
    exact ⟨q, other, stays q y other before⟩

/-- What is in hand is nowhere else. -/
theorem elsewhere (apart : Apart s (some x)) (p : Site) : ¬ Holds s none p x := by
  intro here
  obtain rfl := apart.once p .hand x ((holds_hand p x).mpr (.inr here)) rfl
  cases here

/-- A socket comes into the hands of the call. -/
theorem grab (apart : Apart s none) (p : Site) (here : Holds s none p x)
    (leaves : ∀ y, Holds s' none p y ↔ y ≠ x ∧ Holds s none p y)
    (others : ∀ q, q ≠ p → ∀ y, Holds s' none q y ↔ Holds s none q y)
    (nextSock : s.listener.nextSock ≤ s'.listener.nextSock)
    (taken : ∀ y ∈ s'.taken, y = x ∨ y ∈ s.taken)
    (listed : ∀ x, s'.listener.m_SocketList.eles.count (some x) ≤ 1) (closed : s'.closed.Nodup) :
    Apart s' (some x) := by
  have known : x < s.listener.nextSock := apart.below p x here
  have before (q : Site) (y : Sock) (now : Holds s' none q y) : Holds s none q y := by
    by_cases same : q = p
    · subst same
      exact ((leaves y).mp now).2
    · exact (others q same y).mp now
  refine apart.arrive (x := x) .hand (fun q y now => ?_) (fun q old now => ?_)
    (fun q y other _ old => ?_) rfl
    (fun _ _ => nofun) (known.trans_le nextSock) nextSock taken listed closed
  · exact ((holds_hand q y).mp now).imp_right (before q y)
  · obtain rfl := apart.once q p x old here
    rcases (holds_hand q x).mp now with ⟨at_, -⟩ | now
    · exact at_
    · exact absurd rfl ((leaves x).mp now).1
  · refine (holds_hand q y).mpr (.inr ?_)
    by_cases same : q = p
    · subst same
      exact (leaves y).mpr ⟨other, old⟩
    · exact (others q same y).mpr old

/-- What is in hand goes to a place. -/
theorem drop (apart : Apart s (some x)) (p : Site) (proper : ∀ v, p ≠ .listening v)
    (comes : ∀ y, Holds s' none p y ↔ y = x ∨ Holds s none p y)
    (others : ∀ q, q ≠ p → ∀ y, Holds s' none q y ↔ Holds s none q y)
    (nextSock : s.listener.nextSock ≤ s'.listener.nextSock)
    (taken : ∀ y ∈ s'.taken, y = x ∨ y ∈ s.taken)
    (listed : ∀ x, s'.listener.m_SocketList.eles.count (some x) ≤ 1) (closed : s'.closed.Nodup) :
    Apart s' none := by
  refine apart.arrive (x := x) p (fun q y now => ?_) (fun q old now => ?_)
    (fun q y other _ old => ?_)
    ((comes x).mpr (.inl rfl)) (fun _ => proper)
      ((apart.below .hand x rfl).trans_le nextSock) nextSock taken listed closed
  · by_cases same : q = p
    · subst same
      exact ((comes y).mp now).imp (⟨rfl, ·⟩) fun old => (holds_hand q y).mpr (.inr old)
    · exact .inr ((holds_hand q y).mpr (.inr ((others q same y).mp now)))
  · by_contra same
    exact apart.elsewhere q ((others q same x).mp now)
  · have old := ((holds_hand q y).mp old).resolve_left fun at_ => other at_.2
    by_cases same : q = p
    · subst same
      exact (comes y).mpr (.inr old)
    · exact (others q same y).mpr old

/-- A socket leaves the list. -/
theorem pop {rest : List (Option Sock)} (apart : Apart s none)
    (list : s.listener.m_SocketList.eles = some x :: rest) :
    Apart { s with listener.m_SocketList.eles := rest, taken := x :: s.taken } (some x) := by
  have once (y : Sock) : (some x :: rest).count (some y) ≤ 1 := list ▸ apart.listed y
  have gone : some x ∉ rest := by
    have once := once x
    rw [List.count_cons_self] at once
    exact List.count_eq_zero.mp (by omega)
  refine apart.grab .list ?_ (fun y => ?_) (fun q other y => ?_) (Nat.le_refl _) (by simp)
    (fun y => ?_) apart.closed
  · simp only [Holds, list, List.mem_cons, true_or]
  · simp only [Holds, list, List.mem_cons, Option.some.injEq]
    exact ⟨fun inside => ⟨fun same => gone (same ▸ inside), .inr inside⟩, fun here =>
      here.2.resolve_left here.1⟩
  · cases q with
    | list => exact absurd rfl other
    | acceptEx | worker | closed | listening | hand => exact Iff.rfl
  · exact List.count_le_count_cons.trans (once y)

/-- INVALID_SOCKET leaves the list. -/
theorem discard {rest : List (Option Sock)} (apart : Apart s none)
    (list : s.listener.m_SocketList.eles = none :: rest) :
    Apart { s with listener.m_SocketList.eles := rest } none := by
  have same (x : Sock) : some x ∈ rest ↔ some x ∈ s.listener.m_SocketList.eles := by
    simp [list]
  refine apart.shrink (fun q y now => ?_) (fun q y _ old => ?_)
    (Nat.le_refl _) apart.taken (fun y => ?_) apart.closed
  · cases q with
    | list => exact (same y).mp now
    | acceptEx | worker | closed | listening | hand => exact now
  · cases q with
    | list => exact (same y).mpr old
    | acceptEx | worker | closed | listening | hand => exact old
  · have once := apart.listed y
    rw [list] at once
    exact List.count_le_count_cons.trans once

/-- What is in hand goes to the list. -/
theorem push (apart : Apart s hand) :
    Apart { s with listener.m_SocketList := s.listener.m_SocketList.pushTail hand } none := by
  cases hand with
  | none =>
    refine apart.shrink (fun q y now => ?_) (fun q y _ old => ?_)
      (Nat.le_refl _) apart.taken (fun y => ?_) apart.closed
    · cases q with
      | list => simpa [Holds, BiList.pushTail] using now
      | acceptEx | worker | closed | listening | hand => exact now
    · cases q with
      | list => simpa [Holds, BiList.pushTail] using old
      | acceptEx | worker | closed | listening | hand => exact old
    · simpa [BiList.pushTail, List.count_append] using apart.listed y
  | some x =>
    have gone : some x ∉ s.listener.m_SocketList.eles := apart.elsewhere .list
    refine apart.drop .list (fun _ => nofun) (fun y => ?_) (fun q other y => ?_) (Nat.le_refl _)
      (fun y inside => .inr inside)
      (fun y => ?_) apart.closed
    · simp [Holds, BiList.pushTail, or_comm]
    · cases q with
      | list => exact absurd rfl other
      | acceptEx | worker | closed | listening | hand => exact Iff.rfl
    · simp only [BiList.pushTail, List.count_append, List.count_singleton]
      by_cases same : y = x
      · subst same
        simp [List.count_eq_zero.mpr gone]
      · simpa [Ne.symm same] using apart.listed y

/-- AcceptEx is called with what is in hand. -/
theorem attempt (apart : Apart s hand) : Apart { s with taken := hand.toList ++ s.taken } hand := by
  refine apart.shrink (fun q _ now => ?_) (fun q _ _ old => ?_) (Nat.le_refl _)
    (fun y inside => ?_) apart.listed
    apart.closed
  · cases q <;> exact now
  · cases q <;> exact old
  · rcases List.mem_append.mp inside with inside | inside
    · exact ⟨.hand, fun _ => nofun, by simpa [Holds] using inside⟩
    · exact apart.taken y inside

/-- What is in hand goes with an AcceptEx. -/
theorem post {posted : Posted} (apart : Apart s hand)
    (socket : (s.listener.reqs posted.req).m_Socket = hand) :
    Apart { s with listener.pending := posted :: s.listener.pending } none := by
  cases hand with
  | none =>
    refine apart.shrink (fun q y now => ?_) (fun q y _ old => ?_)
      (Nat.le_refl _) apart.taken apart.listed apart.closed
    · cases q with
      | acceptEx p =>
        simp only [Holds, List.mem_cons] at now ⊢
        refine ⟨now.1.resolve_left ?_, now.2⟩
        rintro rfl
        simp [socket] at now
      | list | worker | closed | listening | hand => exact now
    · cases q with
      | acceptEx p => exact ⟨List.mem_cons_of_mem _ old.1, old.2⟩
      | list | worker | closed | listening | hand => exact old
  | some x =>
    have gone := apart.elsewhere
    refine apart.drop (.acceptEx posted) (fun _ => nofun) (fun y => ?_)
      (fun q other y => ?_) (Nat.le_refl _)
      (fun y inside => .inr inside) apart.listed apart.closed
    · simp only [Holds, List.mem_cons, true_or, true_and, socket, Option.some.injEq]
      constructor
      · exact fun same => .inl same.symm
      · rintro (same | ⟨-, same⟩)
        · exact same.symm
        · exact same
    · cases q with
      | acceptEx p =>
        have differs : p ≠ posted := fun same => other (same ▸ rfl)
        simp [Holds, differs]
      | list | worker | closed | listening | hand => exact Iff.rfl

/-- A request that is not outstanding may be written. -/
theorem write (apart : Apart s hand) (others : ∀ p ∈ s.listener.pending, p.req ≠ q) (req : IOReq) :
    Apart { s with listener.reqs := Function.update s.listener.reqs q req } hand := by
  refine apart.congr (fun p x => ?_) rfl rfl rfl rfl
  cases p with
  | acceptEx p =>
    refine and_congr_right fun inside => ?_
    simp only [Function.update_of_ne (others p inside)]
  | list | worker | closed | listening | hand => exact Iff.rfl

/-- A completion gives its socket to the handler. -/
theorem complete {posted : Posted} (apart : Apart s none) (member : posted ∈ s.listener.pending)
    (once : s.listener.pending.Nodup) :
    Apart { s with listener.pending := s.listener.pending.erase posted }
      (s.listener.reqs posted.req).m_Socket := by
  have left (p : Posted) : p ∈ s.listener.pending.erase posted ↔ p ≠ posted ∧
      p ∈ s.listener.pending :=
    once.mem_erase_iff
  cases socket : (s.listener.reqs posted.req).m_Socket with
  | none =>
    refine apart.shrink (fun q y now => ?_) (fun q y _ old => ?_)
      (Nat.le_refl _) apart.taken apart.listed apart.closed
    · cases q with
      | acceptEx p => exact ⟨((left p).mp now.1).2, now.2⟩
      | list | worker | closed | listening | hand => exact now
    · cases q with
      | acceptEx p =>
        refine ⟨(left p).mpr ⟨?_, old.1⟩, old.2⟩
        rintro rfl
        exact absurd (socket.symm.trans old.2) nofun
      | list | worker | closed | listening | hand => exact old
  | some x =>
    refine apart.grab (.acceptEx posted) ⟨member, socket⟩ (fun y => ?_)
      (fun q other y => ?_) (Nat.le_refl _)
      (fun y inside => .inr inside) apart.listed apart.closed
    · simp only [Holds, left, ne_eq, not_true_eq_false, false_and, false_iff, not_and, socket,
        Option.some.injEq]
      exact fun other _ same => other same.symm
    · cases q with
      | acceptEx p =>
        have differs : p ≠ posted := fun same => other (same ▸ rfl)
        simp [Holds, left, differs]
      | list | worker | closed | listening | hand => exact Iff.rfl

/-- What is in hand is closed. -/
theorem close (apart : Apart s (some x)) : Apart { s with closed := x :: s.closed } none := by
  refine apart.drop .closed (fun _ => nofun) (fun y => List.mem_cons)
    (fun q other y => ?_) (Nat.le_refl _)
    (fun y inside => .inr inside) apart.listed
      (List.nodup_cons.mpr ⟨apart.elsewhere .closed, apart.closed⟩)
  cases q with
  | closed => exact absurd rfl other
  | list | worker | acceptEx | listening | hand => exact Iff.rfl

/-- A worker that has no socket is given what is in hand. -/
theorem serve {object : Pooled} (apart : Apart s (some x))
    (free : (s.worker.objects w).worker.m_TcpSocket = none)
    (socket : object.worker.m_TcpSocket = some x) :
    Apart { s with worker.objects := Function.update s.worker.objects w object } none := by
  refine apart.drop (.worker w) (fun _ => nofun) (fun y => ?_) (fun q other y => ?_) (Nat.le_refl _)
    (fun y inside => .inr inside) apart.listed apart.closed
  · simp [Holds, socket, free, eq_comm]
  · cases q with
    | worker u =>
      have differs : u ≠ w := fun same => other (same ▸ rfl)
      simp only [Holds, Function.update_of_ne differs]
    | list | closed | acceptEx | listening | hand => exact Iff.rfl

/-- A socket that was just made is in hand. -/
theorem fresh (apart : Apart s none) :
    Apart { s with listener.nextSock := s.listener.nextSock + 1 } (some s.listener.nextSock) := by
  refine apart.arrive (x := s.listener.nextSock) .hand (fun q y now => ?_) (fun q old _ => ?_)
    (fun q y _ _ old => ?_)
    rfl (fun _ _ => nofun) (Nat.lt_succ_self _) (Nat.le_succ _)
      (fun y inside => .inr inside) apart.listed apart.closed
  · exact (holds_hand q y).mp now
  · exact absurd (apart.below q _ old) (Nat.lt_irrefl _)
  · exact (holds_hand q y).mpr (.inr old)

/-- An object closes its socket. -/
theorem shut (apart : Apart s hand) (p : Site) (here : ∀ y, Holds s hand p y ↔ y = x)
    (empty : ∀ y, ¬ Holds s' hand p y)
    (others : ∀ q, q ≠ p → q ≠ .closed → ∀ y, Holds s' hand q y ↔ Holds s hand q y)
    (away : p ≠ .closed) (closed : s'.closed = x :: s.closed)
    (nextSock : s'.listener.nextSock = s.listener.nextSock) (taken : s'.taken = s.taken)
    (list : s'.listener.m_SocketList.eles = s.listener.m_SocketList.eles) : Apart s' hand := by
  have holds : Holds s hand p x := (here x).mpr rfl
  have gone : x ∉ s.closed := fun inside => away (apart.once p .closed x holds inside)
  have closed_ (y : Sock) : Holds s' hand .closed y ↔ y = x ∨ Holds s hand .closed y := by
    simp only [Holds, closed, List.mem_cons]
  refine apart.arrive (x := x) .closed (fun q y now => ?_) (fun q old now => ?_)
    (fun q y other _ old => ?_) ((closed_ x).mpr (.inl rfl)) (fun _ _ => nofun)
    (nextSock ▸ apart.below p x holds) nextSock.ge (fun y inside => .inr (taken ▸ inside))
    (list ▸ apart.listed) (closed ▸ List.nodup_cons.mpr ⟨gone, apart.closed⟩)
  · by_cases same : q = p
    · subst same
      exact absurd now (empty y)
    · by_cases at_ : q = .closed
      · subst at_
        exact ((closed_ y).mp now).imp (⟨rfl, ·⟩) id
      · exact .inr ((others q same at_ y).mp now)
  · obtain rfl := apart.once q p x old holds
    exact absurd now (empty x)
  · by_cases same : q = p
    · subst same
      exact absurd ((here y).mp old) other
    · by_cases at_ : q = .closed
      · subst at_
        exact (closed_ y).mpr (.inr old)
      · exact (others q same at_ y).mpr old

theorem stop {object : Pooled} (apart : Apart s hand)
    (has : (s.worker.objects w).worker.m_TcpSocket = some x)
    (socket : object.worker.m_TcpSocket = none) :
    Apart { s with
      worker.objects := Function.update s.worker.objects w object
      closed := x :: s.closed } hand := by
  refine apart.shut (.worker w) (fun y => by simp [Holds, has, eq_comm])
    (fun y => by simp [Holds, socket]) (fun q other away y => ?_) nofun rfl rfl rfl rfl
  cases q with
  | worker u =>
    have differs : u ≠ w := fun same => other (same ▸ rfl)
    simp only [Holds, Function.update_of_ne differs]
  | closed => exact absurd rfl away
  | list | acceptEx | listening | hand => exact Iff.rfl

theorem stopListening {object : Listener} (apart : Apart s none)
    (has : (s.listener.objects v).m_TcpSocket = some x)
    (socket : object.m_TcpSocket = none) :
    Apart { s with
      listener.objects := Function.update s.listener.objects v object
      closed := x :: s.closed } none := by
  refine apart.shut (.listening v) (fun y => by simp [Holds, has, eq_comm])
    (fun y => by simp [Holds, socket]) (fun q other away y => ?_) nofun rfl rfl rfl rfl
  cases q with
  | listening u =>
    have differs : u ≠ v := fun same => other (same ▸ rfl)
    simp only [Holds, Function.update_of_ne differs]
  | closed => exact absurd rfl away
  | list | acceptEx | worker | hand => exact Iff.rfl

/-- A listener makes its socket. -/
theorem listen {object : Listener} (apart : Apart s none)
    (socket : object.m_TcpSocket = some s.listener.nextSock) :
    Apart { s with
      listener.objects := Function.update s.listener.objects v object
      listener.nextSock := s.listener.nextSock + 1 } none := by
  have old {q : Site} (here : Holds s none q s.listener.nextSock) : False :=
    absurd (apart.below q _ here) (Nat.lt_irrefl _)
  refine apart.arrive (x := s.listener.nextSock) (.listening v) (fun q y now => ?_)
    (fun q before _ => (old before).elim)
    (fun q y _ proper before => ?_) (by simp [Holds, socket]) (fun inside => ?_)
      (Nat.lt_succ_self _) (Nat.le_succ _)
    (fun y inside => .inr inside) apart.listed apart.closed
  · cases q with
    | listening u =>
      by_cases same : u = v
      · subst same
        simp only [Holds, Function.update_self, socket, Option.some.injEq] at now
        exact .inl ⟨rfl, now.symm⟩
      · simp only [Holds, Function.update_of_ne same] at now
        exact .inr now
    | list | acceptEx | worker | closed | hand => exact .inr now
  · cases q with
    | listening u => exact absurd rfl (proper u)
    | list | acceptEx | worker | closed | hand => exact before
  · obtain ⟨q, -, before⟩ := apart.taken _ inside
    exact (old before).elim

/-- A listener has no socket any more. -/
theorem forget {object : Listener} (apart : Apart s hand) (socket : object.m_TcpSocket = none) :
    Apart { s with listener.objects := Function.update s.listener.objects v object } hand := by
  refine apart.shrink (fun q y now => ?_) (fun q y proper old => ?_)
    (Nat.le_refl _) apart.taken apart.listed apart.closed
  · cases q with
    | listening u =>
      by_cases same : u = v
      · subst same
        simp [Holds, socket] at now
      · simpa only [Holds, Function.update_of_ne same] using now
    | list | acceptEx | worker | closed | hand => exact now
  · cases q with
    | listening u => exact absurd rfl (proper u)
    | list | acceptEx | worker | closed | hand => exact old

end Apart

end TestIOCP.Tcp.Accepting
