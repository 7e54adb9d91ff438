import TestIOCP.Tcp.Stocks

/-! Parts of calls that give back what they take from the static lists. -/
namespace TestIOCP.Tcp
open Transition Program Semantics

variable {F α : Type} {s : Shared F} {l : Unit} {fits : IOReq → Prop}
  {bs : List Buf} {qs : List Req}
  {b : Buf} {q : Req}

theorem ensures_op {op : Op F} {rest : Res op → Call F α} {Q : α → Shared F → Unit → Prop} :
    (Program.call op rest).Ensures step Free s l Q ↔
      ∀ outcome, (rest (s.perform outcome op).2).Ensures step Free
        (s.perform outcome op).1 () Q := by
  constructor
  · exact fun ensures outcome => ensures trivial outcome _ _ _ rfl
  · intro ensures _ outcome s' l' r taken
    simp only [step, Option.some.injEq, Prod.mk.injEq] at taken
    obtain ⟨rfl, -, rfl⟩ := taken
    exact ensures outcome

theorem ensures_perform {op : Op F} {rest : Res op → Call F α} {Q : α → Shared F → Unit → Prop} :
    (perform op >>= rest).Ensures step Free s l Q ↔
      ∀ outcome, (rest (s.perform outcome op).2).Ensures step Free (s.perform outcome op).1 () Q :=
  ensures_op

theorem perform_ensures {op : Op F} {Q : Res op → Shared F → Unit → Prop}
    (after : ∀ outcome, Q (s.perform outcome op).2 (s.perform outcome op).1 ()) :
    (perform op : Call F (Res op)).Ensures step Free s l Q :=
  ensures_op.mpr after

/-- An operation is refused, or it is outstanding. -/
theorem post_ensures {w : Obj} {socket : Option Sock} {b : Option Buf} {len : Nat}
    {Q : Outcome → Shared F → Unit → Prop} (refused : Q .failed s ())
    (accepted : ∀ r, r ≠ .failed → socket ≠ none →
      Q r { s with pending := ⟨q, b, w, socket⟩ :: s.pending } ()) :
    (perform (.post w socket q b len) : Call F Outcome).Ensures step Free s l Q := by
  refine perform_ensures fun outcome => ?_
  simp only [Shared.perform]
  split
  · rename_i possible
    exact accepted outcome possible.1 possible.2
  · exact refused

/-- Between two operations of a call, when there is memory. -/
structure Held (fits : IOReq → Prop) (s : Shared F) (bs : List Buf) (qs : List Req) : Prop
    extends Holding fits s bs qs where
  available : s.available = true

/-- A part of a call after which the call has in its hands what it had before. -/
def Balanced (fits : IOReq → Prop) (p : Call F α) : Prop :=
  ∀ s l bs qs, Held fits s bs qs → p.Ensures step Free s l (fun _ s' _ => Held fits s' bs qs)

/-- An operation that touches no list of buffers or requests, and posts nothing. -/
def Plain : Op F → Prop
  | .get _ | .set _ _ | .reqGet _ | .memcpy _ _ | .wsaSocket | .closesocket _ | .associateDevice _
  | .release _ | .socketPop | .socketAllocated | .socketPush _ | .workerPop | .workerNew
  | .workerAllocated | .workerPush _ | .startWorker _ _ => True
  | _ => False

/-- What plain operations leave alone. -/
def stocks (s : Shared F) : BiList (Option Buf) × Nat × BiList Req × Nat × (Req →
    IOReq) × List Posted × Bool :=
  (s.m_BufList, s.newBufs, s.m_IOReqList, s.newReqs, s.reqs, s.pending, s.available)

theorem plain_stocks {op : Op F} (plain : Plain op) (outcome : Outcome) :
    stocks (s.perform outcome op).1 = stocks s := by
  cases op
  case bufPop | bufNew | bufAllocated | bufPush | reqPop | reqNew | reqAllocated | reqPush |
      reqSet | post =>
    exact absurd plain id
  case get | set | reqGet | memcpy | closesocket | associateDevice | release |
    socketAllocated | socketPush
    | workerAllocated | workerPush | startWorker => rfl
  all_goals
    simp only [Shared.perform]
    split <;> rfl

theorem Held.congr {s' : Shared F} (held : Held fits s bs qs) (same : stocks s' = stocks s) :
    Held fits s' bs qs := by
  simp only [stocks, Prod.mk.injEq] at same
  obtain ⟨bufs, newBufs, list, newReqs, reqs, pending, available⟩ := same
  refine ⟨⟨held.requests.congr (by rw [list]) pending reqs newReqs,
    held.buffers.congr (by rw [bufs]) pending newBufs, ?_, ?_⟩, available.trans held.available⟩
  · rw [list, newReqs]
    exact held.allocatedReqs
  · rw [bufs, newBufs]
    exact held.allocatedBufs

theorem plain_ensures {p : Call F α} (every : p.Every Plain) :
    p.Ensures step Free s l (fun _ s' _ => stocks s' = stocks s) := by
  refine every.ensures (I := fun s' => stocks s' = stocks s)
    (fun s' l op outcome s'' l' r plain same taken => ?_) rfl
  simp only [step, Option.some.injEq, Prod.mk.injEq] at taken
  obtain ⟨rfl, -, -⟩ := taken
  exact (plain_stocks plain outcome).trans same

namespace Balanced

theorem of_plain {p : Call F α} (every : p.Every Plain) : Balanced fits p :=
  fun _ _ _ _ held => (plain_ensures every).mono fun _ _ _ same => held.congr same

theorem perform {op : Op F} (plain : Plain op) : Balanced fits (perform op) :=
  of_plain (.perform plain)

theorem get (w : Obj) : Balanced fits (get w : Call F F) :=
  .perform trivial

theorem set (w : Obj) (f : F → F) : Balanced fits (set w f : Call F Unit) :=
  .perform trivial

theorem ret (a : α) : Balanced fits (.ret a : Call F α) :=
  fun _ _ _ _ held => held

theorem bind {β : Type} {p : Call F α} {f : α → Call F β} (first : Balanced fits p)
    (rest : ∀ a, Balanced fits (f a)) : Balanced fits (p >>= f) :=
  fun s l bs qs held => (first s l bs qs held).seq fun a s l held => rest a s l bs qs held

theorem forM {β : Type} {items : List β} {body : β → Call F PUnit}
    (each : ∀ item, Balanced fits (body item)) : Balanced fits (items.forM body) := by
  induction items with
  | nil => exact ret _
  | cons item rest ih => exact (each item).bind fun _ => ih

theorem discard {p : Call F α} (balanced : Balanced fits p) : Balanced fits (discard p) :=
  balanced.bind fun _ => ret ()

end Balanced

namespace Held

theorem bufPush (held : Held fits s (b :: bs) qs) :
    (bufPush (some b) : Call F Unit).Ensures step Free s l
      (fun _ s' _ => Held fits s' bs qs ∧ s'.reqs = s.reqs) := by
  refine perform_ensures fun _ =>
    ⟨⟨⟨held.requests.congr rfl rfl rfl rfl, held.buffers.push, ?_, ?_⟩, ?_⟩, rfl⟩
  · exact held.allocatedReqs
  · exact held.allocatedBufs
  · exact held.available

theorem reqPush (held : Held fits s bs (q :: qs)) :
    (reqPush q : Call F Unit).Ensures step Free s l (fun _ s' _ => Held fits s' bs qs) := by
  refine perform_ensures fun _ => ⟨⟨held.requests.push, held.buffers.congr rfl rfl rfl, ?_, ?_⟩, ?_⟩
  · exact held.allocatedReqs
  · exact held.allocatedBufs
  · exact held.available

theorem set (held : Held fits s bs qs) (w : Obj) (f : F → F) :
    (set w f : Call F Unit).Ensures step Free s l (fun _ s' _ => Held fits s' bs qs) :=
  perform_ensures fun _ => held.congr rfl

/-- With memory there always is a buffer. -/
theorem takeBuf (held : Held fits s bs qs) :
    (takeBuf : Call F (Option Buf)).Ensures step Free s l
      (fun r s' _ => ∃ b, r = some b ∧ Held fits s' (b :: bs) qs) := by
  simp only [Tcp.takeBuf, perform, perform_bind, ensures_op, Shared.perform]
  intro _
  cases list : s.m_BufList.eles with
  | nil =>
    simp only [ensures_op, Shared.perform, held.available, if_true]
    intro _ _
    refine ⟨s.newBufs, rfl, ⟨held.requests.congr rfl rfl rfl rfl,
      held.buffers.new.congr rfl rfl rfl, held.allocatedReqs, ?_⟩, rfl⟩
    simp only [BiList.allocated, held.allocatedBufs]
    exact (BitVec.ofNat_add (n := 32) s.newBufs 1).symm
  | cons e rest =>
    obtain ⟨b, rfl⟩ := held.buffers.listed (e := e) (by rw [list]; exact List.mem_cons_self)
    exact ⟨b, rfl, ⟨held.requests.congr rfl rfl rfl rfl, held.buffers.pop list, held.allocatedReqs,
      held.allocatedBufs⟩, held.available⟩

theorem takeReq (held : Held fits s bs qs) (m_pObserver : Option Obj) :
    (takeReq m_pObserver : Call F (Option Req)).Ensures step Free s l
      (fun r s' _ => ∃ q, r = some q ∧ Held fits s' bs (q :: qs)) := by
  simp only [Tcp.takeReq, perform, perform_bind, ensures_op, Shared.perform]
  intro _
  cases list : s.m_IOReqList.eles with
  | nil =>
    simp only [ensures_op, Shared.perform, held.available, if_true]
    intro _ _
    refine ⟨s.newReqs, rfl, ⟨(held.requests.new _).congr rfl rfl rfl rfl,
      held.buffers.congr rfl rfl rfl, ?_, held.allocatedBufs⟩, rfl⟩
    simp only [BiList.allocated, held.allocatedReqs]
    exact (BitVec.ofNat_add (n := 32) s.newReqs 1).symm
  | cons q rest =>
    exact ⟨q, rfl, ⟨held.requests.pop list, held.buffers.congr rfl rfl rfl, held.allocatedReqs,
      held.allocatedBufs⟩, held.available⟩

theorem reqSet (held : Held fits s bs (q :: qs)) (f : IOReq → IOReq) :
    (perform (.reqSet q f) : Call F Unit).Ensures step Free s l
      (fun _ s' _ => Held fits s' bs (q :: qs) ∧ s'.reqs q = f (s.reqs q)) :=
  perform_ensures fun _ =>
    ⟨⟨⟨held.requests.write _, held.buffers.congr rfl rfl rfl, held.allocatedReqs,
    held.allocatedBufs⟩, held.available⟩, Function.update_self _ _ _⟩

/-- An operation is posted with what the call has in its hands, or not at all. -/
theorem post {b : Option Buf} (held : Held fits s (b.toList ++ bs) (q :: qs)) {w : Obj}
    (socket : Option Sock)
    (len : Nat) (noted : (s.reqs q).m_pObserver = some w ∧ (s.reqs q).m_pDataBuf = b ∧
      fits (s.reqs q)) :
    (perform (.post w socket q b len) : Call F Outcome).Ensures step Free s l
      (fun r s' _ => (r = .failed ∧ s' = s) ∨ (r ≠ .failed ∧ Held fits s' bs qs)) := by
  refine post_ensures (.inl ⟨rfl, rfl⟩) fun r accepted _ => .inr ⟨accepted, ⟨?_, ?_, ?_, ?_⟩, ?_⟩
  · exact held.requests.post (p := ⟨q, b, w, socket⟩) noted
  · exact held.buffers.post (p := ⟨q, b, w, socket⟩)
  · exact held.allocatedReqs
  · exact held.allocatedBufs
  · exact held.available

end Held

theorem ensures_get {w : Obj} {rest : F → Call F α} {Q : α → Shared F → Unit → Prop} :
    (get w >>= rest).Ensures step Free s l Q ↔ (rest (s.objects w)).Ensures step Free s () Q :=
  ensures_op.trans ⟨fun ensures => ensures .success, fun ensures _ => ensures⟩

theorem ensures_reqGet {q : Req} {rest : IOReq → Call F α} {Q : α → Shared F → Unit → Prop} :
    (perform (.reqGet q) >>= rest).Ensures step Free s l Q ↔
      (rest (s.reqs q)).Ensures step Free s () Q :=
  ensures_op.trans ⟨fun ensures => ensures .success, fun ensures _ => ensures⟩

section
variable [Counted F] {w : Obj}

/-- ConnectEx and DisconnectEx take a request without a buffer. -/
theorem Held.postBare (held : Held fits s bs (q :: qs)) (m_nOperateType : OperateType)
    (fitting : ∀ req : IOReq, req.m_pDataBuf = none → req.m_nOperateType =
      m_nOperateType → fits req) :
    (postBare w q m_nOperateType : Call F Int).Ensures step Free s l (fun _ s' _ =>
      Held fits s' bs qs) := by
  refine (held.reqSet _).seq ?_
  rintro _ s l ⟨held, reqs⟩
  rw [ensures_get]
  refine (held.post (b := none) (w := w) _ 0 ?_).seq fun r s' l after => ?_
  · rw [reqs]
    exact ⟨rfl, rfl, fitting _ rfl rfl⟩
  · rcases after with ⟨rfl, rfl⟩ | ⟨accepted, held⟩
    · refine (held.set _ _).seq fun _ s l held => ?_
      exact held.reqPush.seq fun _ _ _ held => held
    · cases r with
      | failed => exact absurd rfl accepted
      | pending | success =>
        exact (held.set _ _).seq fun _ _ _ held => held

/-- Read and Write post a buffer with a request, or give both back. -/
theorem transfer_balanced {m_nOperateType : OperateType} (m_pObserver : Option Obj) (size : Nat)
    (noBuf noReq : Int) (c : Engine.Counter)
    (fitting : ∀ req : IOReq, req.m_pDataBuf ≠ none → req.m_nOperateType =
      m_nOperateType → fits req) :
    Balanced fits (transfer w m_nOperateType m_pObserver size noBuf noReq c : Call F Int) := by
  intro s l bs qs held
  refine held.takeBuf.seq ?_
  rintro r s l ⟨b, found, held⟩
  subst found
  refine (held.takeReq m_pObserver).seq ?_
  rintro r s l ⟨q, found, held⟩
  subst found
  refine (held.reqSet _).seq ?_
  rintro _ s l ⟨held, reqs⟩
  have noted : (s.reqs q).m_pObserver = some w ∧ (s.reqs q).m_pDataBuf = some b ∧
      fits (s.reqs q) := by
    rw [reqs]
    exact ⟨rfl, rfl, fitting _ (by simp) rfl⟩
  split
  on_goal 1 => refine ensures_perform.mpr fun _ => ?_
  all_goals
    refine ensures_get.mpr ?_
    refine ((held.congr rfl).post (b := some b) _ size noted).seq fun r s' l after => ?_
    rcases after with ⟨rfl, rfl⟩ | ⟨accepted, held⟩
    · refine (held.set _ _).seq fun _ s l held => ?_
      refine held.bufPush.seq ?_
      rintro _ s l ⟨held, _⟩
      exact held.reqPush.seq fun _ _ _ held => held
    · cases r with
      | failed => exact absurd rfl accepted
      | pending | success =>
        exact (held.set _ _).seq fun _ _ _ held => held

end

/-- InitObject adds to the lists what it allocates, first a buffer. -/
theorem stockBuf_balanced {p : Call F α} (rest : Balanced fits p) :
    Balanced fits (do
      let ptempbuf ← perform .bufNew
      bufPush ptempbuf
      perform .bufAllocated
      p) := by
  intro s l bs qs held
  simp only [perform, bufPush, perform_bind, ensures_op, Shared.perform, held.available, if_true]
  intro _ _ _
  refine rest _ _ _ _ ⟨⟨held.requests.congr rfl rfl rfl rfl,
    held.buffers.new.push.congr rfl rfl rfl,
    held.allocatedReqs, ?_⟩, rfl⟩
  simp only [BiList.allocated, BiList.pushTail, held.allocatedBufs]
  exact (BitVec.ofNat_add (n := 32) s.newBufs 1).symm

/-- Then a request. -/
theorem stockReq_balanced (m_pObserver : Option Obj) {rest : Option Req → Call F α}
    (stocks : ∀ q, ∃ p, Balanced fits p ∧ rest (some q) = do reqPush q; perform .reqAllocated; p) :
    Balanced fits (perform (.reqNew m_pObserver) >>= rest) := by
  intro s l bs qs held
  obtain ⟨p, rest, same⟩ := stocks s.newReqs
  simp only [perform, perform_bind, ensures_op, Shared.perform, held.available, if_true]
  intro _
  rw [same]
  refine ensures_op.mpr fun _ => ensures_op.mpr fun _ => ?_
  refine rest _ _ _ _ ⟨⟨(held.requests.new _).push.congr rfl rfl rfl rfl,
    held.buffers.congr rfl rfl rfl,
    ?_, held.allocatedBufs⟩, rfl⟩
  rw [Shared.perform, Shared.perform, BiList.allocated, BiList.pushTail, held.allocatedReqs]
  exact (BitVec.ofNat_add (n := 32) s.newReqs 1).symm

theorem stock_balanced (m_pObserver : Option Obj) :
    Balanced fits (stock m_pObserver : Call F Unit) :=
  stockBuf_balanced (stockReq_balanced m_pObserver fun _ => ⟨_, .ret (), rfl⟩)

/-- A handler gives its request back and goes on. -/
theorem Held.reqBack (held : Held fits s bs (q :: qs)) {p : Call F α} (rest : Balanced fits p) :
    (do Tcp.reqPush q; p : Call F α).Ensures step Free s l (fun _ s' _ => Held fits s' bs qs) :=
  held.reqPush.seq fun _ s l held => rest s l bs qs held

/-- A handler gives its buffer and its request back and goes on. -/
theorem Held.giveBack (held : Held fits s (b :: bs) (q :: qs)) {p : Call F α}
    (rest : Balanced fits p) :
    (do Tcp.bufPush (some b); Tcp.reqPush q; p : Call F α).Ensures step Free s l (fun _ s' _ =>
      Held fits s' bs qs) :=
  held.bufPush.seq fun _ _ _ ⟨held, _⟩ => held.reqBack rest

end TestIOCP.Tcp
