import TestIOCP.Udp.System

/-! Where every receive buffer, IO request and reference is, and that every step
of a thread keeps them accounted for. -/
namespace TestIOCP.Udp
open Transition
variable {R O T : Type} [DecidableEq T]

/-- The situations of a buffer; shared is in the hands of observers or of a
delivery loop that still has observers to serve. -/
inductive Spot (T : Type) where
  | list
  | read
  | call (t : T)
  | shared

def BufAt (p : Pool R O) (own : T → Hand) : Spot T → Buf → Prop
  | .list, b => b ∈ p.m_BufList
  | .read, b => b ∈ p.reading.map Posted.buf
  | .call t, b => (own t).buf = some b
  | .shared, b => (∃ n, (n, b) ∈ p.refs) ∨ ∃ t, (own t).loop = some b

inductive ReqSpot (T : Type) where
  | list
  | read
  | call (t : T)

def ReqAt (p : Pool R O) (own : T → Hand) : ReqSpot T → Req → Prop
  | .list, q => q ∈ p.m_IOReqList
  | .read, q => q ∈ p.reading.map Posted.req
  | .call t, q => (own t).req = some q

inductive RefSpot (T : Type) where
  | owed
  | call (t : T)

def RefAt (p : Pool R O) (own : T → Hand) : RefSpot T → Nat × Buf → Prop
  | .owed, x => ∃ o, (x.1, o, x.2) ∈ p.owed
  | .call t, x => (own t).ref = some x

/-- The references to a buffer that have not been given back. -/
def refsTo (refs : List (Nat × Buf)) (b : Buf) : Nat :=
  refs.countP (fun x => x.2 = b)

structure Buffers (p : Pool R O) (own : T → Hand) : Prop where
  place : Accounted (BufAt p own) (· < p.allocatedBufs)
  once : p.m_BufList.Nodup
  readOnce : (p.reading.map Posted.buf).Nodup
  idle : ∀ posted ∈ p.reading, p.refCount posted.buf = 0
  zero : ∀ t b, (own t).buf = some b → (own t).zero = true → p.refCount b = 0
  count : ∀ b, BufAt p own .shared b →
    refsTo p.refs b < 2 ^ 32 ∧ p.refCount b = BitVec.ofNat 32 (refsTo p.refs b)

structure Requests (p : Pool R O) (own : T → Hand) : Prop where
  place : Accounted (ReqAt p own) (· < p.allocatedReqs)
  once : p.m_IOReqList.Nodup
  readOnce : (p.reading.map Posted.req).Nodup
  noted : ∀ posted ∈ p.reading, (p.reqs posted.req).m_pDataBuf = some posted.buf
  filled : ∀ t q b, (own t).req = some q → (own t).filled = some b →
    (p.reqs q).m_pDataBuf = some b

structure References (p : Pool R O) (own : T → Hand) : Prop where
  place : Accounted (RefAt p own) (· ∈ p.refs)
  once : (p.refs.map Prod.fst).Nodup
  number : ∀ x ∈ p.refs, x.1 < p.nextRef
  owedOnce : (p.owed.map Prod.fst).Nodup

structure Inv (p : Pool R O) (own : T → Hand) : Prop where
  buffers : Buffers p own
  requests : Requests p own
  references : References p own

variable {p p' : Pool R O} {own : T → Hand} {t : T} {h : Hand}

/-- A step that keeps the references and the loops keeps what is shared. -/
theorem shared_before (shared : BufAt p' (Function.update own t h) .shared b)
    (refs : p'.refs = p.refs) (loop : h.loop = (own t).loop) : BufAt p own .shared b := by
  simp only [BufAt, Function.update_apply, refs] at shared ⊢
  grind

theorem Buffers.congr (inv : Buffers p own) (list : p'.m_BufList = p.m_BufList)
    (allocated : p'.allocatedBufs = p.allocatedBufs) (reading : p'.reading = p.reading)
    (refCount : p'.refCount = p.refCount) (refs : p'.refs = p.refs) (buf : h.buf = (own t).buf)
    (zero : h.zero = true → (own t).zero = true) (loop : h.loop = (own t).loop) :
    Buffers p' (Function.update own t h) := by
  have count := inv.count
  have place : ∀ q x, BufAt p' (Function.update own t h) q x ↔ BufAt p own q x := by
    intro q x
    cases q <;> simp only [BufAt, Function.update_apply] <;> grind
  constructor
  · simpa only [allocated] using inv.place.congr place
  · simpa only [list] using inv.once
  · simpa only [reading] using inv.readOnce
  · simpa only [reading, refCount] using inv.idle
  · have := inv.zero
    simp only [Function.update_apply]
    grind
  · intro b shared
    simpa only [refsTo, refs, refCount] using inv.count b ((place _ b).mp shared)

theorem Requests.congr (inv : Requests p own) (list : p'.m_IOReqList = p.m_IOReqList)
    (allocated : p'.allocatedReqs = p.allocatedReqs) (reading : p'.reading = p.reading)
    (reqs : p'.reqs = p.reqs) (req : h.req = (own t).req)
    (filled : ∀ b, h.filled = some b → (own t).filled = some b) :
    Requests p' (Function.update own t h) := by
  constructor
  · simp only [allocated]
    refine inv.place.congr ?_
    intro q x
    cases q <;> simp only [ReqAt, Function.update_apply] <;> grind
  · simpa only [list] using inv.once
  · simpa only [reading] using inv.readOnce
  · simpa only [reading, reqs] using inv.noted
  · have := inv.filled
    simp only [Function.update_apply]
    grind

theorem References.congr (inv : References p own) (refs : p'.refs = p.refs)
    (owed : p'.owed = p.owed)
    (nextRef : p'.nextRef = p.nextRef) (ref : h.ref = (own t).ref) :
    References p' (Function.update own t h) := by
  constructor
  · simp only [refs]
    refine inv.place.congr ?_
    intro q x
    cases q <;> simp only [RefAt, Function.update_apply] <;> grind
  · simpa only [refs] using inv.once
  · simpa only [refs, nextRef] using inv.number
  · simpa only [owed] using inv.owedOnce

namespace Buffers

theorem bufPop (inv : Buffers p own) (list : p.m_BufList = b :: rest) (free : (own t).buf = none) :
    Buffers { p with m_BufList := rest }
      (Function.update own t { own t with buf := some b, zero := false }) := by
  have here : BufAt p own .list b := by simp [BufAt, list]
  have once := inv.once
  rw [list] at once
  constructor
  · refine inv.place.move (r := b) (p := .call t) (inv.place.known _ b here) ?_
    intro q x
    have other := fun at_ => inv.place.apart (q := q) (x := x) here at_
    cases q <;> simp only [BufAt, Function.update_apply] at * <;> grind
  · exact (List.nodup_cons.mp once).2
  · exact inv.readOnce
  · exact inv.idle
  · have := inv.zero
    simp only [Function.update_apply]
    grind
  · intro c shared
    exact inv.count c (shared_before shared rfl rfl)

theorem bufNew (inv : Buffers p own) (free : (own t).buf = none) :
    Buffers { p with allocatedBufs := p.allocatedBufs + 1 }
      (Function.update own t { own t with buf := some p.allocatedBufs, zero := false }) := by
  constructor
  · refine inv.place.create (r := p.allocatedBufs) (p := .call t) (by simp) (by grind) ?_
    intro q x
    have known := inv.place.known q x
    cases q <;> simp only [BufAt, Function.update_apply] at * <;> grind
  · exact inv.once
  · exact inv.readOnce
  · exact inv.idle
  · have := inv.zero
    simp only [Function.update_apply]
    grind
  · intro c shared
    exact inv.count c (shared_before shared rfl rfl)

theorem bufPush (inv : Buffers p own) (holds : (own t).buf = some b) :
    Buffers { p with m_BufList := p.m_BufList ++ [b] }
      (Function.update own t { own t with buf := none }) := by
  have here : BufAt p own (.call t) b := holds
  have fresh : ¬ BufAt p own .list b := inv.place.elsewhere here (by simp)
  constructor
  · refine inv.place.move (r := b) (p := .list) (inv.place.known _ b here) ?_
    intro q x
    have other := fun at_ => inv.place.apart (q := q) (x := x) here at_
    cases q <;> simp only [BufAt, Function.update_apply] at * <;> grind
  · exact List.concat_eq_append ▸ inv.once.concat fresh
  · exact inv.readOnce
  · exact inv.idle
  · have := inv.zero
    simp only [Function.update_apply]
    grind
  · intro c shared
    exact inv.count c (shared_before shared rfl rfl)

theorem clearRef (inv : Buffers p own) (holds : (own t).buf = some b) :
    Buffers { p with refCount := Function.update p.refCount b 0 }
      (Function.update own t { own t with zero := true }) := by
  have here : BufAt p own (.call t) b := holds
  constructor
  · refine inv.place.congr ?_
    intro q x
    cases q <;> simp only [BufAt, Function.update_apply] <;> grind
  · exact inv.once
  · exact inv.readOnce
  · have := inv.idle
    simp only [Function.update_apply]
    grind
  · have := inv.zero
    simp only [Function.update_apply]
    grind
  · intro c shared
    have shared' : BufAt p own .shared c := shared_before shared rfl rfl
    have other : c ≠ b := inv.place.apart here shared' (by simp)
    simpa [other] using inv.count c shared'

private theorem count_room {k : Nat} (below : k < 2 ^ 32) (bounded : BitVec.ofNat 32 k ≠ -1) :
    k + 1 < 2 ^ 32 := by
  by_contra full
  obtain rfl : k = 2 ^ 32 - 1 := by omega
  exact bounded (by decide)

/-- A loop takes a further reference, or the first one to a buffer of its own. -/
theorem addRef (inv : Buffers p own)
    (holds : (own t).buf = some b ∧ (own t).zero = true ∧ (own t).loop = none ∨
      (own t).buf = none ∧ (own t).loop = some b)
    (bounded : p.refCount b ≠ -1) :
    Buffers { p with
        refCount := Function.update p.refCount b (p.refCount b + 1)
        refs := (p.nextRef, b) :: p.refs
        nextRef := p.nextRef + 1 }
      (Function.update own t
        { own t with buf := none, loop := some b, ref := some (p.nextRef, b) }) := by
  have counted : refsTo p.refs b < 2 ^ 32 ∧ p.refCount b = BitVec.ofNat 32 (refsTo p.refs b) := by
    rcases holds with ⟨buf, zero, _⟩ | ⟨_, loop⟩
    · have here : BufAt p own (.call t) b := buf
      have none_ : ¬ BufAt p own .shared b := inv.place.elsewhere here (by simp)
      have : refsTo p.refs b = 0 := by
        simp only [refsTo, List.countP_eq_zero]
        rintro ⟨n, c⟩ member
        simp only [decide_eq_true_eq]
        rintro rfl
        exact none_ (.inl ⟨n, member⟩)
      simp [this, inv.zero t b buf zero]
    · exact inv.count b (.inr ⟨t, loop⟩)
  have here : BufAt p own (if (own t).buf = some b then .call t else .shared) b := by
    rcases holds with ⟨buf, _⟩ | ⟨buf, loop⟩
    · rw [if_pos buf]
      exact buf
    · rw [if_neg (by simp [buf])]
      exact .inr ⟨t, loop⟩
  have elsewhere := fun q => inv.place.elsewhere (q := q) here
  constructor
  · refine inv.place.move (r := b) (p := .shared) (inv.place.known _ b here) ?_
    intro q x
    have := elsewhere q
    cases q <;> simp only [BufAt, Function.update_apply] at * <;> grind
  · exact inv.once
  · exact inv.readOnce
  · have := inv.idle
    have := elsewhere .read
    simp only [BufAt, Function.update_apply] at *
    grind
  · have := inv.zero
    have := fun u => elsewhere (.call u)
    simp only [BufAt, Function.update_apply] at *
    grind
  · intro c shared
    by_cases same : c = b
    · subst c
      have : refsTo p.refs b + 1 < 2 ^ 32 := count_room counted.1 (counted.2 ▸ bounded)
      simp only [refsTo, List.countP_cons, decide_true, if_true, Function.update_self] at this ⊢
      refine ⟨this, ?_⟩
      rw [counted.2, BitVec.ofNat_add]
      rfl
    · have shared' : BufAt p own .shared c := by
        simp only [BufAt, Function.update_apply] at shared ⊢
        grind
      simpa [refsTo, same, Ne.symm same] using inv.count c shared'

/-- A reference is given back. The last one leaves the buffer to the call, when
no delivery loop is to hand it out again. -/
theorem releaseRef (inv : Buffers p own) (held : (own t).ref = some (n, b))
    (alive : (n, b) ∈ p.refs)
    (free : (own t).buf = none) (last : p.refCount b = 1 → ∀ u, (own u).loop ≠ some b) :
    Buffers { p with
        refCount := Function.update p.refCount b (p.refCount b - 1)
        refs := p.refs.erase (n, b) }
      (Function.update own t
        { own t with
          ref := none
          buf := if p.refCount b = 1 then some b else (own t).buf
          zero := if p.refCount b = 1 then true else (own t).zero }) := by
  have here : BufAt p own .shared b := .inl ⟨n, alive⟩
  have elsewhere := fun q => inv.place.elsewhere (q := q) here
  obtain ⟨below, counted⟩ := inv.count b here
  have positive : 0 < refsTo p.refs b := List.countP_pos_iff.mpr ⟨(n, b), alive, by simp⟩
  have fewer : (p.refs.erase (n, b)).countP (fun x => x.2 = b) = refsTo p.refs b - 1 := by
    simp [List.countP_erase, alive, refsTo]
  have one : p.refCount b = 1 ↔ refsTo p.refs b = 1 := by
    rw [counted]
    constructor
    · intro eq
      have := congrArg BitVec.toNat eq
      rwa [BitVec.toNat_ofNat, Nat.mod_eq_of_lt below] at this
    · intro eq
      rw [eq]
      rfl
  have left : refsTo p.refs b ≠ 1 → ∃ m, (m, b) ∈ p.refs.erase (n, b) := by
    intro more
    have : 0 < (p.refs.erase (n, b)).countP (fun x => x.2 = b) := by omega
    obtain ⟨⟨m, c⟩, member, same⟩ := List.countP_pos_iff.mp this
    obtain rfl : c = b := by simpa using same
    exact ⟨m, member⟩
  have none_ : refsTo p.refs b = 1 → ∀ m, (m, b) ∉ p.refs.erase (n, b) := by
    intro single m member
    have : 0 < (p.refs.erase (n, b)).countP (fun x => x.2 = b) :=
      List.countP_pos_iff.mpr ⟨(m, b), member, by simp⟩
    omega
  have others : ∀ m c, c ≠ b → ((m, c) ∈ p.refs.erase (n, b) ↔ (m, c) ∈ p.refs) := by
    intro m c other
    exact List.mem_erase_of_ne (by simp [other])
  have moved : Moved (BufAt p own)
      (BufAt { p with
        refCount := Function.update p.refCount b (p.refCount b - 1)
        refs := p.refs.erase (n, b) }
      (Function.update own t
        { own t with
          ref := none
          buf := if p.refCount b = 1 then some b else (own t).buf
          zero := if p.refCount b = 1 then true else (own t).zero }))
      b (if p.refCount b = 1 then .call t else .shared) := by
    intro q x
    have := elsewhere q
    cases q <;> simp only [BufAt, Function.update_apply] at * <;> grind
  constructor
  · exact inv.place.move (inv.place.known _ b here) moved
  · exact inv.once
  · exact inv.readOnce
  · have := inv.idle
    have := elsewhere .read
    simp only [BufAt, Function.update_apply] at *
    grind
  · have := inv.zero
    have := fun u => elsewhere (.call u)
    simp only [BufAt, Function.update_apply] at *
    grind
  · intro c shared
    by_cases same : c = b
    · subst c
      simp only [refsTo] at fewer positive below counted ⊢
      simp only [fewer, Function.update_self, counted]
      refine ⟨by omega, ?_⟩
      exact BitVec.ofNat_sub_ofNat_of_le _ 1 (by decide) positive
    · have shared' := (((moved _ c).mp shared).resolve_left (by simp [same])).2
      have := inv.count c shared'
      simpa [refsTo, same, List.countP_erase, Ne.symm same] using this

theorem wsaRecv (inv : Buffers p own) (holds : (own t).buf = some b) (zero : (own t).zero = true)
    (req : Req) (socket : Sock) :
    Buffers { p with reading := ⟨req, b, socket⟩ :: p.reading }
      (Function.update own t { own t with buf := none, req := none, filled := none }) := by
  have here : BufAt p own (.call t) b := holds
  have fresh : ¬ BufAt p own .read b := inv.place.elsewhere here (by simp)
  constructor
  · refine inv.place.move (r := b) (p := .read) (inv.place.known _ b here) ?_
    intro q x
    have other := fun at_ => inv.place.apart (q := q) (x := x) here at_
    cases q <;> simp only [BufAt, Function.update_apply, List.map_cons, List.mem_cons] at * <;>
      grind
  · exact inv.once
  · exact List.nodup_cons.mpr ⟨fresh, inv.readOnce⟩
  · have := inv.idle
    have := inv.zero t b holds zero
    grind
  · have := inv.zero
    simp only [Function.update_apply]
    grind
  · intro c shared
    exact inv.count c (shared_before shared rfl rfl)

theorem dequeue (inv : Buffers p own) (pending : posted ∈ p.reading)
    (free : (own t).buf = none) (single : (own t).loop = none) :
    Buffers { p with reading := p.reading.erase posted }
      (Function.update own t posted.hand) := by
  have here : BufAt p own .read posted.buf := List.mem_map_of_mem pending
  have erased : ∀ x, x ∈ (p.reading.erase posted).map Posted.buf ↔
      x ≠ posted.buf ∧ x ∈ p.reading.map Posted.buf := fun x => mem_map_erase inv.readOnce pending
  have idle := inv.idle
  constructor
  · refine inv.place.move (r := posted.buf) (p := .call t) (inv.place.known _ _ here) ?_
    intro q x
    have other := fun at_ => inv.place.apart (q := q) (x := x) here at_
    cases q <;> simp only [BufAt, Function.update_apply, Posted.hand, erased] at * <;> grind
  · exact inv.once
  · exact nodup_map_erase inv.readOnce posted
  · exact fun x member => idle x (List.mem_of_mem_erase member)
  · have := inv.zero
    simp only [Function.update_apply, Posted.hand]
    grind
  · intro c shared
    exact inv.count c (shared_before shared rfl (by simp [Posted.hand, single]))

/-- The observer served last takes over the buffer from the loop. -/
theorem importData (inv : Buffers p own) (serving : (own t).loop = some b) (alive : (n, b) ∈ p.refs)
    (owed : List (Nat × O × Buf)) (last : Bool) (ref : Option (Nat × Buf)) :
    Buffers { p with owed }
      (Function.update own t
        { own t with loop := if last then none else (own t).loop, ref }) := by
  have shared : ∀ x, BufAt { p with owed } (Function.update own t
      { own t with loop := if last then none else (own t).loop, ref }) .shared x ↔
        BufAt p own .shared x := by
    intro x
    simp only [BufAt, Function.update_apply]
    grind
  constructor
  · refine inv.place.congr ?_
    intro q x
    cases q
    case shared => exact shared x
    all_goals simp only [BufAt, Function.update_apply]
    grind
  · exact inv.once
  · exact inv.readOnce
  · exact inv.idle
  · have := inv.zero
    simp only [Function.update_apply]
    grind
  · exact fun c at_ => inv.count c ((shared c).mp at_)

end Buffers

namespace Requests

theorem reqPop (inv : Requests p own) (list : p.m_IOReqList = q :: rest)
    (free : (own t).req = none) :
    Requests { p with m_IOReqList := rest }
      (Function.update own t { own t with req := some q, filled := none }) := by
  have here : ReqAt p own .list q := by simp [ReqAt, list]
  have once := inv.once
  rw [list] at once
  constructor
  · refine inv.place.move (r := q) (p := .call t) (inv.place.known _ q here) ?_
    intro s x
    have other := fun at_ => inv.place.apart (q := s) (x := x) here at_
    cases s <;> simp only [ReqAt, Function.update_apply] at * <;> grind
  · exact (List.nodup_cons.mp once).2
  · exact inv.readOnce
  · exact inv.noted
  · have := inv.filled
    simp only [Function.update_apply]
    grind

theorem reqNew (inv : Requests p own) (free : (own t).req = none) (r : R) :
    Requests { p with
        allocatedReqs := p.allocatedReqs + 1
        reqs := Function.update p.reqs p.allocatedReqs ⟨r, none, 0⟩ }
      (Function.update own t { own t with req := some p.allocatedReqs, filled := none }) := by
  have known := inv.place.known
  constructor
  · refine inv.place.create (r := p.allocatedReqs) (p := .call t) (by simp) (by grind) ?_
    intro s x
    have known := known s x
    cases s <;> simp only [ReqAt, Function.update_apply] at * <;> grind
  · exact inv.once
  · exact inv.readOnce
  · intro posted pending
    have : posted.req < p.allocatedReqs := known .read _ (List.mem_map_of_mem pending)
    simpa [Nat.ne_of_lt this] using inv.noted posted pending
  · have := inv.filled
    have known := fun u => known (.call u)
    simp only [ReqAt, Function.update_apply] at *
    grind

theorem reqPush (inv : Requests p own) (holds : (own t).req = some q) :
    Requests { p with m_IOReqList := p.m_IOReqList ++ [q] }
      (Function.update own t { own t with req := none, filled := none }) := by
  have here : ReqAt p own (.call t) q := holds
  have fresh : ¬ ReqAt p own .list q := inv.place.elsewhere here (by simp)
  constructor
  · refine inv.place.move (r := q) (p := .list) (inv.place.known _ q here) ?_
    intro s x
    have other := fun at_ => inv.place.apart (q := s) (x := x) here at_
    cases s <;> simp only [ReqAt, Function.update_apply] at * <;> grind
  · exact List.concat_eq_append ▸ inv.once.concat fresh
  · exact inv.readOnce
  · exact inv.noted
  · have := inv.filled
    simp only [Function.update_apply]
    grind

/-- A call writes the fields of the request that it holds. -/
theorem write (inv : Requests p own) (holds : (own t).req = some q) (req : IOReq R) (h : Hand)
    (kept : h.req = (own t).req) (noted : ∀ b, h.filled = some b → req.m_pDataBuf = some b) :
    Requests { p with reqs := Function.update p.reqs q req } (Function.update own t h) := by
  have here : ReqAt p own (.call t) q := holds
  have fresh : ¬ ReqAt p own .read q := inv.place.elsewhere here (by simp)
  constructor
  · refine inv.place.congr ?_
    intro s x
    cases s <;> simp only [ReqAt, Function.update_apply]
    grind
  · exact inv.once
  · exact inv.readOnce
  · intro posted pending
    have : posted.req ≠ q := by
      rintro rfl
      exact fresh (List.mem_map_of_mem pending)
    simpa [this] using inv.noted posted pending
  · have := inv.filled
    have others := fun u (at_ : ReqAt p own (.call u) q) => inv.place.once _ _ _ here at_
    simp only [ReqAt, Function.update_apply] at *
    grind

theorem wsaRecv (inv : Requests p own) (holds : (own t).req = some q)
    (filled : (own t).filled = some b) (socket : Sock) :
    Requests { p with reading := ⟨q, b, socket⟩ :: p.reading }
      (Function.update own t { own t with buf := none, req := none, filled := none }) := by
  have here : ReqAt p own (.call t) q := holds
  have fresh : ¬ ReqAt p own .read q := inv.place.elsewhere here (by simp)
  constructor
  · refine inv.place.move (r := q) (p := .read) (inv.place.known _ q here) ?_
    intro s x
    have other := fun at_ => inv.place.apart (q := s) (x := x) here at_
    cases s <;> simp only [ReqAt, Function.update_apply, List.map_cons, List.mem_cons] at * <;>
      grind
  · exact inv.once
  · exact List.nodup_cons.mpr ⟨fresh, inv.readOnce⟩
  · have := inv.noted
    have := inv.filled t q b holds filled
    grind
  · have := inv.filled
    simp only [Function.update_apply]
    grind

theorem dequeue (inv : Requests p own) (pending : posted ∈ p.reading) (free : (own t).req = none) :
    Requests { p with reading := p.reading.erase posted } (Function.update own t posted.hand) := by
  have here : ReqAt p own .read posted.req := List.mem_map_of_mem pending
  have erased : ∀ x, x ∈ (p.reading.erase posted).map Posted.req ↔
      x ≠ posted.req ∧ x ∈ p.reading.map Posted.req := fun x => mem_map_erase inv.readOnce pending
  have noted := inv.noted
  constructor
  · refine inv.place.move (r := posted.req) (p := .call t) (inv.place.known _ _ here) ?_
    intro s x
    have other := fun at_ => inv.place.apart (q := s) (x := x) here at_
    cases s <;> simp only [ReqAt, Function.update_apply, Posted.hand, erased] at * <;> grind
  · exact inv.once
  · exact nodup_map_erase inv.readOnce posted
  · exact fun x member => noted x (List.mem_of_mem_erase member)
  · have := inv.filled
    simp only [Function.update_apply, Posted.hand]
    grind

end Requests

namespace References

theorem addRef (inv : References p own) (free : (own t).ref = none) (b : Buf)
    (count : Buf → BitVec 32) :
    References { p with
        refCount := count
        refs := (p.nextRef, b) :: p.refs
        nextRef := p.nextRef + 1 }
      (Function.update own t
        { own t with buf := none, loop := some b, ref := some (p.nextRef, b) }) := by
  have number := inv.number
  have fresh : (p.nextRef, b) ∉ p.refs := fun member => absurd (number _ member) (by simp)
  have known := inv.place.known
  constructor
  · refine inv.place.create (r := (p.nextRef, b)) (p := .call t) fresh (by grind) ?_
    intro s x
    have known := known s x
    cases s <;> simp only [RefAt, Function.update_apply] at * <;> grind
  · refine List.nodup_cons.mpr ⟨?_, inv.once⟩
    simp only [List.mem_map, not_exists, not_and]
    intro x member same
    exact absurd (number x member) (by simp [same])
  · grind
  · exact inv.owedOnce

theorem releaseRef (inv : References p own) (held : (own t).ref = some x)
    (count : Buf → BitVec 32) (buf : Option Buf) (zero : Bool) :
    References { p with refCount := count, refs := p.refs.erase x }
      (Function.update own t { own t with ref := none, buf, zero }) := by
  have here : RefAt p own (.call t) x := held
  constructor
  · refine inv.place.destroy (r := x) (fun y => inv.once.of_map.mem_erase_iff) ?_
    intro s y
    have other := fun at_ => inv.place.apart (q := s) (x := y) here at_
    cases s <;> simp only [RefAt, Function.update_apply] at * <;> grind
  · exact nodup_map_erase inv.once x
  · exact fun y member => inv.number y (List.mem_of_mem_erase member)
  · exact inv.owedOnce

/-- An observer keeps the buffer that it has been given. -/
theorem owe (inv : References p own) (held : (own t).ref = some (n, b)) (o : O)
    (loop : Option Buf) :
    References { p with owed := (n, o, b) :: p.owed }
      (Function.update own t { own t with loop, ref := none }) := by
  have here : RefAt p own (.call t) (n, b) := held
  have known := inv.place.known
  have fresh : n ∉ p.owed.map Prod.fst := by
    simp only [List.mem_map, not_exists, not_and]
    rintro ⟨m, o', c⟩ member rfl
    have there : RefAt p own .owed (m, c) := ⟨o', member⟩
    have alive : (m, c) ∈ p.refs := known _ _ there
    have := List.inj_on_of_nodup_map inv.once alive (known _ _ here) rfl
    obtain rfl : c = b := by simpa using this
    exact inv.place.elsewhere here (by simp) there
  constructor
  · refine inv.place.move (r := (n, b)) (p := .owed) (known _ _ here) ?_
    intro s y
    have other := fun at_ => inv.place.apart (q := s) (x := y) here at_
    cases s <;> simp only [RefAt, Function.update_apply] at * <;> grind
  · exact inv.once
  · exact inv.number
  · exact List.nodup_cons.mpr ⟨fresh, inv.owedOnce⟩

/-- An observer starts the ReturnBuf call for a delivery. -/
theorem claim [DecidableEq O] (inv : References p own) (member : due ∈ p.owed)
    (free : (own t).ref = none) :
    References { p with owed := p.owed.erase due }
      (Function.update own t { ref := some (due.1, due.2.2) }) := by
  have here : RefAt p own .owed (due.1, due.2.2) := ⟨due.2.1, member⟩
  have once := inv.owedOnce
  have known := inv.place.known
  constructor
  · refine inv.place.move (r := (due.1, due.2.2)) (p := .call t) (known _ _ here) ?_
    intro s y
    have other := fun at_ => inv.place.apart (q := s) (x := y) here at_
    cases s
    case owed =>
      have unique : ∀ o, (due.1, o, due.2.2) ∈ p.owed → (due.1, o, due.2.2) = due :=
        fun o at_ => List.inj_on_of_nodup_map once at_ member rfl
      simp only [RefAt, once.of_map.mem_erase_iff]
      grind
    all_goals simp only [RefAt, Function.update_apply] at *
    grind
  · exact inv.once
  · exact inv.number
  · exact nodup_map_erase once due

end References
end TestIOCP.Udp
