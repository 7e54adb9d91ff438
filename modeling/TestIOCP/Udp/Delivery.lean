import TestIOCP.Udp.Buffers
import Mathlib.Data.Fintype.Basic

/-! The receivers' code keeps what it has in its hands apart, and the condition
under which the last ReturnBuf call alone gives a buffer back to the pool. The
delivery loop raises the count one observer at a time, so a count of one says
only that the observers served so far have returned the buffer. -/
namespace TestIOCP.Udp
open Transition Program
variable {R O T : Type} {observers : R → List O}

/-- What a call must have in its hands for an operation. -/
def Needs (h : Hand) : Op R O → Prop
  | .bufPop | .bufNew => h.buf = none
  | .bufPush b | .clearRef b => h.buf = some b
  | .addRef b => h.ref = none ∧ (h.buf = some b ∧ h.zero = true ∧ h.loop = none ∨
      h.buf = none ∧ h.loop = some b)
  | .releaseRef b => h.buf = none ∧ ∃ n, h.ref = some (n, b)
  | .reqPop | .reqNew _ => h.req = none
  | .reqPush q | .reqGet q | .setObserver q _ | .setDataBuf q _ _ => h.req = some q
  | .wsaRecv _ q b => h.req = some q ∧ h.filled = some b ∧ h.buf = some b ∧ h.zero = true
  | .importData _ _ b _ => h.loop = some b ∧ ∃ n, h.ref = some (n, b)
  | .fault => False
  | _ => True

/-- What a call has in its hands after an operation. -/
def Leaves (h : Hand) : (op : Op R O) → Res op → Hand → Prop
  | .bufPop, none, h' => h' = h
  | .bufPop, some b, h' | .bufNew, b, h' => h' = { h with buf := some b, zero := false }
  | .bufPush _, _, h' => h' = { h with buf := none }
  | .clearRef _, _, h' => h' = { h with zero := true }
  | .addRef b, _, h' => ∃ n, h' = { h with buf := none, loop := some b, ref := some (n, b) }
  | .releaseRef b, r, h' =>
    h' = { h with
      ref := none
      buf := if r = 1 then some b else h.buf
      zero := if r = 1 then true else h.zero }
  | .reqPop, none, h' => h' = h
  | .reqPop, some q, h' | .reqNew _, q, h' => h' = { h with req := some q, filled := none }
  | .reqPush _, _, h' => h' = { h with req := none, filled := none }
  | .reqGet _, r, h' => h' = h ∧ ∀ b, h.filled = some b → r.m_pDataBuf = some b
  | .setDataBuf _ b _, _, h' => h' = { h with filled := some b }
  | .wsaRecv _ _ _, r, h' =>
    h' = if r = .failed then h else { h with buf := none, req := none, filled := none }
  | .importData _ rest _ _, r, h' =>
    h' = { h with
      loop := if rest.isEmpty then none else h.loop
      ref := if r then h.ref else none }
  | _, _, h' => h' = h

def discipline : Discipline Hand (Op R O) Res where
  pre := Needs
  post := Leaves

@[simp] theorem discipline_pre (h : Hand) (op : Op R O) : discipline.pre h op = Needs h op := rfl

@[simp] theorem discipline_post (h : Hand) (op : Op R O) (r : Res op) (h' : Hand) :
    discipline.post h op r h' = Leaves h op r h' := rfl

/-- A thread between two calls has nothing in its hands. -/
def Hand.Empty (h : Hand) : Prop :=
  h.buf = none ∧ h.loop = none ∧ h.ref = none ∧ h.req = none

/-- Nothing but the request is left in hand. -/
def Hand.Rest (h : Hand) (req : Option Req) : Prop :=
  h.buf = none ∧ h.loop = none ∧ h.ref = none ∧ h.req = req

/-- A store to a receiver needs nothing in hand and leaves it. -/
theorem follows_set {r : R} {f : Receiver → Receiver} {α : Type} {rest : Unit → Call R O α}
    {h : Hand} {Q : α → Hand → Prop} (next : (rest ()).Follows discipline h Q) :
    (call (.set r f) rest : Call R O α).Follows discipline h Q := by
  refine ⟨trivial, ?_⟩
  rintro _ _ rfl
  exact next

theorem returnBuf_follows {h : Hand} (held : h.ref = some (n, b)) (free : h.buf = none) :
    (returnBuf b : Call R O Int).Follows discipline h (fun _ h' =>
      h'.buf = none ∧ h'.ref = none ∧ h'.loop = h.loop ∧ h'.req = h.req) := by
  simp only [returnBuf, bufPush, perform, perform_bind, follows_call]
  refine ⟨⟨free, n, held⟩, ?_⟩
  rintro (val : BitVec 32) h' rfl
  by_cases last : val = 1
  · simp only [last, if_true, follows_call]
    refine ⟨rfl, ?_⟩
    rintro _ _ rfl
    exact ⟨rfl, rfl, rfl, rfl⟩
  · simp only [last, if_false, pure_def, follows_ret]
    exact ⟨free, trivial, trivial, trivial⟩

/-- The loop starts with a buffer of its own and keeps it until the last observer. -/
theorem deliver_follows (datasize : Int) {iter : List O} {h : Hand} (ref : h.ref = none)
    (serving : (h.buf = some b ∧ h.zero = true ∧ h.loop = none ∨ h.buf = none ∧ h.loop = some b))
    (some_ : iter ≠ []) :
    (deliver b datasize iter : Call R O Unit).Follows discipline h (fun _ h' => h'.Rest h.req) := by
  induction iter generalizing h with
  | nil => contradiction
  | cons o rest ih =>
    simp only [deliver, perform, perform_bind, follows_call]
    refine ⟨⟨ref, serving⟩, ?_⟩
    rintro _ _ ⟨n, rfl⟩
    refine ⟨⟨rfl, n, rfl⟩, ?_⟩
    rintro returned _ rfl
    have following : ∀ h' : Hand, h'.buf = none → h'.ref = none →
        h'.loop = (if rest.isEmpty then none else some b) → h'.req = h.req →
        (deliver b datasize rest : Call R O Unit).Follows discipline h' (fun _ h'' =>
            h''.Rest h.req) := by
      intro h' buf ref loop req
      cases rest with
      | nil => exact ⟨buf, by simpa using loop, ref, req⟩
      | cons next rest =>
        exact req ▸ ih ref (.inr ⟨buf, by simpa using loop⟩) (by simp)
    cases returned with
    | false => exact following _ rfl rfl rfl rfl
    | true =>
      refine Follows.bind ?_
      refine Follows.bind ?_
      refine (returnBuf_follows rfl rfl).mono ?_
      rintro _ h' ⟨buf, ref, loop, req⟩
      exact following h' buf ref loop req

theorem readedDataProcess_follows (r : R) (datasize : Int) {h : Hand} (holds : h.buf = some b)
    (zero : h.zero = true) (loop : h.loop = none) (ref : h.ref = none) :
    (readedDataProcess observers r b datasize).Follows discipline h
      (fun _ h' => h'.Rest h.req) := by
  unfold readedDataProcess
  split
  · simp only [bufPush, perform]
    refine ⟨holds, ?_⟩
    rintro _ _ rfl
    exact ⟨rfl, loop, ref, rfl⟩
  · rename_i some_
    simp only [perform, perform_bind, follows_call]
    refine ⟨trivial, ?_⟩
    rintro _ _ rfl
    refine Follows.bind ((deliver_follows datasize ref (.inl ⟨holds, zero, loop⟩) ?_).mono ?_)
    · simpa using some_
    · intro _ h' rest
      refine ⟨trivial, ?_⟩
      rintro _ _ rfl
      exact rest

theorem takeBuf_follows {h : Hand} (free : h.buf = none) :
    (takeBuf : Call R O Buf).Follows discipline h
      (fun b h' => ∃ zero, h' = { h with buf := some b, zero }) := by
  simp only [takeBuf, bufPop, bufNew, perform, perform_bind, follows_call]
  refine ⟨free, ?_⟩
  rintro (_ | b) _ rfl
  · refine ⟨free, ?_⟩
    rintro b _ rfl
    exact ⟨false, rfl⟩
  · exact ⟨false, rfl⟩

theorem takeReq_follows (r : R) {h : Hand} (free : h.req = none) :
    (takeReq r : Call R O Req).Follows discipline h
      (fun q h' => h' = { h with req := some q, filled := none }) := by
  simp only [takeReq, reqPop, reqNew, perform, perform_bind, follows_call]
  refine ⟨free, ?_⟩
  rintro (_ | q) _ rfl
  · refine ⟨free, ?_⟩
    rintro q _ rfl
    rfl
  · refine ⟨rfl, ?_⟩
    rintro _ _ rfl
    rfl

theorem read_follows (r : R) {h : Hand} (empty : h.Empty) :
    (read r : Call R O Int).Follows discipline h (fun _ h' => h'.Empty) := by
  obtain ⟨buf, loop, ref, req⟩ := empty
  refine Follows.bind ((takeBuf_follows buf).mono ?_)
  rintro b h₁ ⟨zero, rfl⟩
  simp only [perform, perform_bind, follows_call]
  refine ⟨rfl, ?_⟩
  rintro _ h₂ rfl
  refine Follows.bind ((takeReq_follows r ?_).mono ?_)
  · exact req
  rintro q h₃ rfl
  simp only [get, set, perform, perform_bind, follows_call]
  refine ⟨rfl, ?_⟩
  rintro _ _ rfl
  refine ⟨trivial, ?_⟩
  rintro this _ rfl
  refine ⟨⟨rfl, rfl, rfl, rfl⟩, ?_⟩
  rintro (_ | _ | _) _ rfl
  · -- the post has failed, and both go back
    refine follows_set ⟨rfl, ?_⟩
    rintro _ _ rfl
    refine ⟨rfl, ?_⟩
    rintro _ _ rfl
    exact ⟨rfl, loop, ref, rfl⟩
  all_goals exact follows_set (follows_set ⟨rfl, loop, ref, rfl⟩)

theorem consumeReq_follows (r : R) (bytenumber : Int) (error : Bool) (posted : Posted) :
    (consumeReq observers r bytenumber error posted.req).Follows discipline posted.hand
      (fun _ h' => h'.Empty) := by
  simp only [consumeReq, set, perform, perform_bind, follows_call]
  refine ⟨trivial, ?_⟩
  rintro _ _ rfl
  refine ⟨rfl, ?_⟩
  rintro (req : IOReq R) _ ⟨rfl, noted⟩
  have noted : req.m_pDataBuf = some posted.buf := noted _ rfl
  rw [noted]
  cases error with
  | true =>
    refine ⟨rfl, ?_⟩
    rintro _ _ rfl
    refine ⟨rfl, ?_⟩
    rintro _ _ rfl
    exact follows_set ⟨rfl, rfl, rfl, rfl⟩
  | false =>
    simp only [Bool.false_eq_true, if_false, follows_call]
    refine ⟨trivial, ?_⟩
    rintro _ _ rfl
    refine ⟨trivial, ?_⟩
    rintro _ _ rfl
    refine Follows.bind ((readedDataProcess_follows r _ rfl rfl rfl rfl).mono ?_)
    rintro _ h ⟨buf, loop, ref, req⟩
    simp only [reqPush, perform, pure_def, perform_bind, follows_call]
    refine ⟨req, ?_⟩
    rintro _ _ rfl
    exact Follows.bind (read_follows r ⟨buf, loop, ref, rfl⟩)

theorem initObject_follows (r : R) :
    (initObject r : Call R O Int).Follows discipline {} (fun _ h' => h'.Empty) := by
  simp only [initObject, bufNew, bufPush, reqNew, reqPush, perform, perform_bind]
  refine ⟨rfl, ?_⟩
  rintro b _ rfl
  refine ⟨rfl, ?_⟩
  rintro _ _ rfl
  refine ⟨rfl, ?_⟩
  rintro q _ rfl
  refine ⟨rfl, ?_⟩
  rintro _ _ rfl
  exact ⟨rfl, rfl, rfl, rfl⟩

theorem start_follows (r : R) :
    (start r : Call R O Int).Follows discipline {} (fun _ h' => h'.Empty) := by
  have empty : Hand.Empty {} := ⟨rfl, rfl, rfl, rfl⟩
  have reading : (read r >>= fun _ => ret 0 : Call R O Int).Follows discipline {}
      (fun _ h' => h'.Empty) := Follows.bind (read_follows r empty)
  simp only [start, get, set, perform, perform_bind, follows_call]
  refine ⟨trivial, ?_⟩
  rintro (this : Receiver) _ rfl
  split
  · exact empty
  · simp only [follows_call]
    refine ⟨trivial, ?_⟩
    rintro (_ | socket) _ rfl
    · exact follows_set empty
    · refine follows_set ⟨trivial, ?_⟩
      rintro (_ | _) _ rfl
      · exact empty
      · exact follows_set (follows_set (follows_set reading))

theorem stop_follows (r : R) :
    (stop observers r).Follows discipline {} (fun _ h' => h'.Empty) := by
  have empty : Hand.Empty {} := ⟨rfl, rfl, rfl, rfl⟩
  have observe : ((observers r).forM importNull : Call R O Unit).Follows
      discipline {} (fun _ h' => h' = {}) := by
    refine Follows.forM (I := fun _ (h' : Hand) => h' = {}) ?_ ?_
    · rintro o rest _ rfl
      simp [importNull, perform, Program.perform, Needs, Leaves]
    · rfl
  have ending : ((observers r).forM importNull >>= fun _ =>
      call (.set r fun s => { s with m_nRecvBytesNum := 0 }) fun _ => ret 0 : Call R O Int).Follows
      discipline {} (fun _ h' => h'.Empty) := by
    refine Follows.bind (observe.mono ?_)
    rintro _ _ rfl
    simpa [Needs, Leaves] using empty
  simp only [stop, get, set, perform, perform_bind, follows_call]
  refine ⟨trivial, ?_⟩
  rintro _ _ rfl
  refine ⟨trivial, ?_⟩
  rintro (this : Receiver) _ rfl
  split
  all_goals simpa [Needs, Leaves] using ending

theorem returnBuf_entry_follows (n : Nat) (b : Buf) :
    (returnBuf b : Call R O Int).Follows discipline { ref := some (n, b) } (fun _ h' => h'.Empty) :=
  (returnBuf_follows rfl rfl).mono fun _ _ ⟨buf, ref, loop, req⟩ => ⟨buf, loop, ref, req⟩

/-- A ReturnBuf call that finds the count at one does so after the delivery loop
has served its last observer, and no count reaches the end of its 32 bits. -/
def LastReturn (s : Shared R O) (own : T → Hand) (_ : T) : Op R O → Outcome → Prop
  | .addRef b, _ => s.pool.refCount b ≠ -1
  | .releaseRef b, _ => s.pool.refCount b = 1 → ∀ u, (own u).loop ≠ some b
  | _, _ => True

instance [Fintype T] (s : Shared R O) (own : T → Hand) (t : T) :
    (op : Op R O) → (c : Outcome) → Decidable (LastReturn s own t op c)
  | .addRef b, _ => inferInstanceAs (Decidable (s.pool.refCount b ≠ -1))
  | .releaseRef b, _ =>
    inferInstanceAs (Decidable (s.pool.refCount b = 1 → ∀ u, (own u).loop ≠ some b))
  | .get _, _ | .set _ _, _ | .bufPop, _ | .bufNew, _ | .bufPush _, _ | .clearRef _, _ | .reqPop, _
  | .reqNew _, _ | .reqPush _, _ | .reqGet _, _ | .setObserver _ _, _ | .setDataBuf _ _ _, _
  | .makeMultiSocket, _ | .associateDevice _, _ | .closesocket _, _ | .wsaRecv _ _ _, _ | .lock _, _
  | .unlock _, _ | .importData _ _ _ _, _ | .importNull _, _ | .fault, _ => .isTrue trivial

variable [DecidableEq T]

theorem Inv.pool_step {p p' : Pool R O} {own : T → Hand} {t : T} {op : Op R O} {outcome : Outcome}
    {h : Hand} {r : Res op} (inv : Inv p own) (needs : Needs (own t) op)
    (room : ∀ b, op = .addRef b → p.refCount b ≠ -1)
    (last : ∀ b, op = .releaseRef b → p.refCount b = 1 → ∀ u, (own u).loop ≠ some b)
    (performed : p.step (own t) op outcome = some (p', h, r)) :
    Inv p' (Function.update own t h) ∧ Leaves (own t) op r h := by
  obtain ⟨buffers, requests, references⟩ := inv
  cases op with
  | bufPop =>
    simp only [Pool.step] at performed
    split at performed
    · cases performed
      simpa [Leaves] using ⟨buffers, requests, references⟩
    · rename_i b rest list
      cases performed
      exact ⟨⟨buffers.bufPop list needs, requests.congr rfl rfl rfl rfl rfl (fun _ => id),
        references.congr rfl rfl rfl rfl⟩, rfl⟩
  | bufNew =>
    cases performed
    exact ⟨⟨buffers.bufNew needs, requests.congr rfl rfl rfl rfl rfl (fun _ => id),
      references.congr rfl rfl rfl rfl⟩, rfl⟩
  | bufPush b =>
    cases performed
    exact ⟨⟨buffers.bufPush needs, requests.congr rfl rfl rfl rfl rfl (fun _ => id),
      references.congr rfl rfl rfl rfl⟩, rfl⟩
  | clearRef b =>
    cases performed
    exact ⟨⟨buffers.clearRef needs, requests.congr rfl rfl rfl rfl rfl (fun _ => id),
      references.congr rfl rfl rfl rfl⟩, rfl⟩
  | addRef b =>
    cases performed
    exact ⟨⟨buffers.addRef needs.2 (room b rfl), requests.congr rfl rfl rfl rfl rfl (fun _ => id),
      references.addRef needs.1 b _⟩, _, rfl⟩
  | releaseRef b =>
    obtain ⟨free, n, held⟩ := needs
    simp only [Pool.step, held, Option.elim_some] at performed
    cases performed
    have alive : (n, b) ∈ p.refs := references.place.known (.call t) _ held
    exact ⟨⟨buffers.releaseRef held alive free (last b rfl),
      requests.congr rfl rfl rfl rfl rfl (fun _ => id),
      references.releaseRef held _ _ _⟩, rfl⟩
  | reqPop =>
    simp only [Pool.step] at performed
    split at performed
    · cases performed
      simpa [Leaves] using ⟨buffers, requests, references⟩
    · rename_i q rest list
      cases performed
      exact ⟨⟨buffers.congr rfl rfl rfl rfl rfl rfl id rfl, requests.reqPop list needs,
        references.congr rfl rfl rfl rfl⟩, rfl⟩
  | reqNew r =>
    cases performed
    exact ⟨⟨buffers.congr rfl rfl rfl rfl rfl rfl id rfl, requests.reqNew needs r,
      references.congr rfl rfl rfl rfl⟩, rfl⟩
  | reqPush q =>
    cases performed
    exact ⟨⟨buffers.congr rfl rfl rfl rfl rfl rfl id rfl, requests.reqPush needs,
      references.congr rfl rfl rfl rfl⟩, rfl⟩
  | reqGet q =>
    cases performed
    refine ⟨by simpa using ⟨buffers, requests, references⟩, rfl, ?_⟩
    exact fun b => requests.filled t q b needs
  | setObserver q r =>
    cases performed
    refine ⟨⟨buffers.congr rfl rfl rfl rfl rfl rfl id rfl,
      requests.write needs _ _ rfl ?_, references.congr rfl rfl rfl rfl⟩, rfl⟩
    exact fun b => requests.filled t q b needs
  | setDataBuf q b size =>
    cases performed
    exact ⟨⟨buffers.congr rfl rfl rfl rfl rfl rfl id rfl,
      requests.write needs _ _ rfl (fun _ same => same), references.congr rfl rfl rfl rfl⟩, rfl⟩
  | importData o rest b datasize =>
    obtain ⟨serving, n, held⟩ := needs
    have alive : (n, b) ∈ p.refs := references.place.known (.call t) _ held
    simp only [Pool.step, held] at performed
    split at performed
    · cases performed
      exact ⟨⟨buffers.importData serving alive p.owed _ _,
        requests.congr rfl rfl rfl rfl rfl (fun _ => id),
        references.congr rfl rfl rfl held.symm⟩, by simp [Leaves, held]⟩
    · cases performed
      exact ⟨⟨buffers.importData serving alive _ _ _,
        requests.congr rfl rfl rfl rfl rfl (fun _ => id),
        references.owe held o _⟩, by simp [Leaves]⟩
  | _ => simp [Pool.step] at performed

variable [DecidableEq R]

theorem Inv.step {s s' : Shared R O} {own : T → Hand} {t : T} {op : Op R O} {outcome : Outcome}
    {h : Hand} {r : Res op} (inv : Inv s.pool own) (needs : Needs (own t) op)
    (last : LastReturn s own t op outcome)
    (performed : step s (own t) op outcome = some (s', h, r)) :
    Inv s'.pool (Function.update own t h) ∧ Leaves (own t) op r h := by
  have same : Inv s.pool (Function.update own t (own t)) := by simpa using inv
  cases op with
  | get | set | closesocket | unlock | importNull | associateDevice =>
    cases performed
    exact ⟨same, rfl⟩
  | makeMultiSocket | lock =>
    simp only [Udp.step] at performed
    split at performed <;> cases performed
    all_goals exact ⟨same, rfl⟩
  | wsaRecv socket q b =>
    obtain ⟨req, filled, buf, zero⟩ := needs
    cases socket with
    | none =>
      cases performed
      exact ⟨same, by simp [Leaves]⟩
    | some socket =>
      simp only [Udp.step] at performed
      split at performed
      · rename_i accepted
        cases performed
        exact ⟨⟨inv.buffers.wsaRecv buf zero q socket, inv.requests.wsaRecv req filled socket,
          inv.references.congr rfl rfl rfl rfl⟩, by simp [Leaves, accepted.2]⟩
      · cases performed
        exact ⟨same, by simp [Leaves]⟩
  | _ =>
    simp only [Udp.step] at performed
    obtain ⟨⟨pool, h', r'⟩, pooled, eq⟩ := Option.map_eq_some_iff.mp performed
    cases eq
    refine inv.pool_step needs ?_ ?_ pooled
    all_goals rintro b ⟨⟩ <;> exact last

variable [DecidableEq O]

omit [DecidableEq R] in
theorem Inv.enter {s s' : Shared R O} {own : T → Hand} {t : T} {e : Entry R} {h : Hand}
    {p : Call R O Unit} (inv : Inv s.pool own) (empty : (own t).Empty)
    (entered : enter observers s e = some (s', h, p)) :
    Inv s'.pool (Function.update own t h) ∧ p.Follows discipline h (fun _ h' => h'.Empty) := by
  obtain ⟨buf, loop, ref, req⟩ := empty
  have idle : Inv s.pool (Function.update own t {}) :=
    ⟨inv.buffers.congr rfl rfl rfl rfl rfl buf.symm (by simp) loop.symm,
      inv.requests.congr rfl rfl rfl rfl req.symm (by simp),
      inv.references.congr rfl rfl rfl ref.symm⟩
  cases e with
  | init r =>
    cases entered
    exact ⟨idle, Follows.bind (initObject_follows r)⟩
  | start r =>
    cases entered
    exact ⟨idle, Follows.bind (start_follows r)⟩
  | stop r =>
    cases entered
    exact ⟨idle, Follows.bind (stop_follows r)⟩
  | consume povlp bytenumber error =>
    obtain ⟨posted, found, eq⟩ := Option.map_eq_some_iff.mp entered
    cases eq
    have pending := List.mem_of_find?_eq_some found
    exact ⟨⟨inv.buffers.dequeue pending buf loop, inv.requests.dequeue pending req,
      inv.references.congr rfl rfl rfl ref.symm⟩, Follows.bind (consumeReq_follows _ _ _ posted)⟩
  | returnBuf delivery =>
    obtain ⟨due, found, eq⟩ := Option.map_eq_some_iff.mp entered
    cases eq
    have member := List.mem_of_find?_eq_some found
    exact ⟨⟨inv.buffers.congr rfl rfl rfl rfl rfl buf.symm (by simp) loop.symm,
      inv.requests.congr rfl rfl rfl rfl req.symm (by simp),
      inv.references.claim member ref⟩, Follows.bind (returnBuf_entry_follows _ _)⟩

/-- The three situations of a buffer: in m_BufList, under an outstanding read, or
held by an observer, a delivery loop or another call that works on it. -/
inductive Situation where
  | listed
  | reading
  | held

def Pool.At (p : Pool R O) (own : T → Hand) : Situation → Buf → Prop
  | .listed, b => b ∈ p.m_BufList
  | .reading, b => ∃ posted ∈ p.reading, posted.buf = b
  | .held, b => (∃ n o, (n, o, b) ∈ p.owed) ∨
    ∃ t, (own t).buf = some b ∨ (own t).loop = some b ∨ ∃ n, (own t).ref = some (n, b)

/-- Every buffer is in exactly one situation, in the list and under a read at
most once, and a call that has it to itself is its only holder. -/
structure Sound (p : Pool R O) (own : T → Hand) : Prop where
  listedOnce : p.m_BufList.Nodup
  readOnce : (p.reading.map Posted.buf).Nodup
  situation : ∀ b < p.allocatedBufs, ∃! s, p.At own s b
  alone : ∀ t b, (own t).buf = some b → (∀ n o, (n, o, b) ∉ p.owed) ∧
    ∀ u n, (own u).loop ≠ some b ∧ (own u).ref ≠ some (n, b)

omit [DecidableEq T] [DecidableEq R] [DecidableEq O] in
theorem Inv.held_iff {p : Pool R O} {own : T → Hand} (inv : Inv p own) (b : Buf) :
    p.At own .held b ↔ (∃ t, BufAt p own (.call t) b) ∨ BufAt p own .shared b := by
  have refs := inv.references.place
  constructor
  · rintro (⟨n, o, owed⟩ | ⟨t, buf | loop | ⟨n, ref⟩⟩)
    · exact .inr (.inl ⟨n, refs.known .owed (n, b) ⟨o, owed⟩⟩)
    · exact .inl ⟨t, buf⟩
    · exact .inr (.inr ⟨t, loop⟩)
    · exact .inr (.inl ⟨n, refs.known (.call t) (n, b) ref⟩)
  · rintro (⟨t, buf⟩ | ⟨n, alive⟩ | ⟨t, loop⟩)
    · exact .inr ⟨t, .inl buf⟩
    · obtain ⟨_ | t, at_⟩ := refs.total (n, b) alive
      · obtain ⟨o, owed⟩ := at_
        exact .inl ⟨n, o, owed⟩
      · exact .inr ⟨t, .inr (.inr ⟨n, at_⟩)⟩
    · exact .inr ⟨t, .inr (.inl loop)⟩

omit [DecidableEq T] [DecidableEq R] [DecidableEq O] in
theorem Inv.sound {p : Pool R O} {own : T → Hand} (inv : Inv p own) : Sound p own := by
  have once := inv.buffers.place.once
  have listed : ∀ b, p.At own .listed b ↔ BufAt p own .list b := fun _ => Iff.rfl
  have reading : ∀ b, p.At own .reading b ↔ BufAt p own .read b := by
    simp [Pool.At, BufAt]
  have held := inv.held_iff
  constructor
  · exact inv.buffers.once
  · exact inv.buffers.readOnce
  · intro b alive
    obtain ⟨q, here⟩ := inv.buffers.place.total b alive
    cases q with
    | list =>
      refine ⟨.listed, (listed b).mpr here, ?_⟩
      rintro (_ | _ | _) there
      · rfl
      · exact absurd (once _ _ _ here ((reading b).mp there)) (by simp)
      · rcases (held b).mp there with ⟨t, call⟩ | shared
        · exact absurd (once _ _ _ here call) (by simp)
        · exact absurd (once _ _ _ here shared) (by simp)
    | read =>
      refine ⟨.reading, (reading b).mpr here, ?_⟩
      rintro (_ | _ | _) there
      · exact absurd (once _ _ _ here ((listed b).mp there)) (by simp)
      · rfl
      · rcases (held b).mp there with ⟨t, call⟩ | shared
        · exact absurd (once _ _ _ here call) (by simp)
        · exact absurd (once _ _ _ here shared) (by simp)
    | call t =>
      refine ⟨.held, (held b).mpr (.inl ⟨t, here⟩), ?_⟩
      rintro (_ | _ | _) there
      · exact absurd (once _ _ _ here ((listed b).mp there)) (by simp)
      · exact absurd (once _ _ _ here ((reading b).mp there)) (by simp)
      · rfl
    | shared =>
      refine ⟨.held, (held b).mpr (.inr here), ?_⟩
      rintro (_ | _ | _) there
      · exact absurd (once _ _ _ here ((listed b).mp there)) (by simp)
      · exact absurd (once _ _ _ here ((reading b).mp there)) (by simp)
      · rfl
  · intro t b buf
    have here : BufAt p own (.call t) b := buf
    have shared : ¬ BufAt p own .shared b := inv.buffers.place.elsewhere here (by simp)
    refine ⟨fun n o owed => ?_, fun u n => ⟨fun loop => ?_, fun ref => ?_⟩⟩
    · exact shared (.inl ⟨n, inv.references.place.known .owed (n, b) ⟨o, owed⟩⟩)
    · exact shared (.inr ⟨u, loop⟩)
    · exact shared (.inl ⟨n, inv.references.place.known (.call u) (n, b) ref⟩)

/-- CUdpReceiver objects that have not been used yet, and empty pools. What new
leaves in memory is arbitrary. -/
def Initial (s : Shared R O) : Prop :=
  s.pool.m_BufList = [] ∧ s.pool.allocatedBufs = 0 ∧ s.pool.m_IOReqList = [] ∧
    s.pool.allocatedReqs = 0 ∧ s.pool.reading = [] ∧ s.pool.refs = [] ∧ s.pool.owed = [] ∧
    (∀ r, s.receivers r = ⟨none, .stop, 0, 0, 0, 0⟩ ∧ s.locked r = false) ∧ s.sockets = []

omit [DecidableEq T] [DecidableEq R] [DecidableEq O] in
theorem Initial.inv {s : Shared R O} (first : Initial s) : Inv s.pool (fun _ : T => {}) := by
  obtain ⟨bufList, bufs, reqList, reqs, reading, refs, owed, _⟩ := first
  have noBuf : ∀ q x, ¬ BufAt s.pool (fun _ : T => {}) q x := by
    rintro (_ | _ | _ | _) x <;> simp [BufAt, bufList, reading, refs]
  have noReq : ∀ q x, ¬ ReqAt s.pool (fun _ : T => {}) q x := by
    rintro (_ | _ | _) x <;> simp [ReqAt, reqList, reading]
  have noRef : ∀ q x, ¬ RefAt s.pool (fun _ : T => {}) q x := by
    rintro (_ | _) x <;> simp [RefAt, owed]
  refine ⟨⟨.empty (by simp [bufs]) noBuf, ?_, ?_, ?_, ?_, fun b shared =>
      absurd shared (noBuf _ b)⟩,
    ⟨.empty (by simp [reqs]) noReq, ?_, ?_, ?_, ?_⟩, ⟨.empty (by simp [refs]) noRef, ?_, ?_, ?_⟩⟩
  all_goals simp [bufList, reqList, reading, refs, owed]

/-- In every run in which a count of one always means the last return, every
buffer is in exactly one situation at every moment. -/
theorem sound_of_lastReturn {s : Config T (Shared R O) Hand (Op R O) Res}
    (run : ((semantics observers).system Initial {}).ReachableUnder
      (Semantics.Guarded (E := Entry R) LastReturn) s) : Sound s.shared.pool s.own := by
  have resting : Hand.Empty {} := ⟨rfl, rfl, rfl, rfl⟩
  have := Semantics.follows_of_run (I := fun s own => Inv s.pool own) discipline
    resting ?_ ?_ ?_ run
  · exact this.1.sound
  · exact fun s first => first.inv
  · exact fun s own t e s' l p inv empty entered => inv.enter empty entered
  · exact fun s own t op c s' l r inv needs allowed performed => inv.step needs allowed performed

/-- One receiver with two observers, before its first call. -/
def unused : Config Bool (Shared Unit Nat) Hand (Op Unit Nat) Res where
  shared.pool := ⟨[], 0, fun _ => 7, [], 0, fun _ => ⟨(), none, 0⟩, [], [], [], 0⟩
  shared.receivers _ := ⟨none, .stop, 0, 0, 0, 0⟩
  shared.locked _ := false
  shared.sockets := []
  shared.nextSock := 0
  own _ := {}
  code _ := .ret ()

def twoObservers : System (Config Bool (Shared Unit Nat) Hand (Op Unit Nat) Res)
    (Label Bool Outcome (Entry Unit)) :=
  (semantics fun _ => [0, 1]).system Initial {}

theorem unused_initial : twoObservers.initial unused :=
  ⟨⟨rfl, rfl, rfl, rfl, rfl, rfl, rfl, fun _ => ⟨rfl, rfl⟩, rfl⟩, fun _ => ⟨rfl, rfl⟩⟩

/-- A call of one thread and its first operations, with one outcome for all. -/
def calling (t : Bool) (e : Entry Unit) (steps : Nat) (outcome : Outcome) :
    List (Label Bool Outcome (Entry Unit)) :=
  .enter t e :: List.replicate steps (.step t outcome)

/-- Both observers keep the datagram, and return it later in the other order. -/
def keeping : List (Label Bool Outcome (Entry Unit)) :=
  List.flatten [calling true (.init ()) 4 .success, calling true (.start ()) 16 .success,
    calling true (.consume 0 10 false) 21 .pending, calling false (.returnBuf 1) 1 .success,
    calling true (.returnBuf 0) 2 .success]

theorem keeping_runs :
    (twoObservers.runUnder (Semantics.Guarded LastReturn) unused keeping).isSome := by
  decide +kernel

theorem sound_after_keeping :
    ∃ s, twoObservers.runUnder (Semantics.Guarded LastReturn) unused keeping = some s ∧
      Sound s.shared.pool s.own := by
  obtain ⟨s, ran⟩ := Option.isSome_iff_exists.mp keeping_runs
  exact ⟨s, ran, sound_of_lastReturn (System.runUnder_reachable (.initial unused_initial) ran)⟩

/-- Both observers return the datagram inside ImportData. -/
def returning : List (Label Bool Outcome (Entry Unit)) :=
  List.flatten [calling true (.init ()) 4 .success, calling true (.start ()) 16 .success,
    calling true (.consume 0 10 false) 14 .success]

theorem returning_pushes_twice :
    (twoObservers.run unused returning).map (fun s => s.shared.pool.m_BufList) = some [0, 0] := by
  decide +kernel

theorem unsound_when_returned_early :
    ¬ ∀ s, twoObservers.Reachable s → Sound s.shared.pool s.own := by
  intro sound
  cases ran : twoObservers.run unused returning with
  | none => simpa [ran] using returning_pushes_twice
  | some s =>
    have twice : s.shared.pool.m_BufList = [0, 0] := by
      simpa [ran] using returning_pushes_twice
    have once := (sound s (System.run_reachable (.initial unused_initial) ran)).listedOnce
    rw [twice] at once
    exact absurd once (by decide)

end TestIOCP.Udp
