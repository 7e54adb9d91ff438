import TestIOCP.Stock
import TestIOCP.Tcp.Session

/-! The static lists of buffers and IO requests. Every buffer and every request that was
ever allocated is in its list, goes with an outstanding operation, or is in the hands of
the running call. -/
namespace TestIOCP.Tcp
open Transition Program

variable {F α : Type}

/-- The requests; qs are those in the hands of the call. fits is what the class puts into
the requests that it posts. -/
structure Requests (fits : IOReq → Prop) (s : Shared F) (qs : List Req) : Prop where
  once : Stocked (List.range s.newReqs) s.m_IOReqList.eles (s.pending.map Posted.req) qs
  noted : ∀ p ∈ s.pending, (s.reqs p.req).m_pObserver = some p.object ∧
    (s.reqs p.req).m_pDataBuf = p.buf ∧ fits (s.reqs p.req)

/-- The buffers; bs are those in the hands of the call. -/
structure Buffers (s : Shared F) (bs : List Buf) : Prop where
  once : Stocked ((List.range s.newBufs).map some) s.m_BufList.eles
    ((s.pending.filterMap Posted.buf).map some) (bs.map some)

/-- Both, and the numbers of allocated elements. -/
structure Holding (fits : IOReq → Prop) (s : Shared F) (bs : List Buf) (qs : List Req) : Prop where
  requests : Requests fits s qs
  buffers : Buffers s bs
  allocatedReqs : s.m_IOReqList.m_nAllocatedEleNum = BitVec.ofNat 32 s.newReqs
  allocatedBufs : s.m_BufList.m_nAllocatedEleNum = BitVec.ofNat 32 s.newBufs

/-- No condition on the operations of a call. -/
def Free (_ : Shared F) (_ : Op F) : Prop := True

/-- Calls and completions come in any order. -/
def AnyOrder {E : Type} (_ : Shared F) (_ : E) : Prop := True

instance {E : Type} (s : Shared F) (e : E) : Decidable (AnyOrder s e) := .isTrue trivial

/-- A class before its first call. -/
def unused (object : F) : Shared F :=
  ⟨fun _ => object, ⟨[], 0⟩, 0, ⟨[], 0⟩, 0, fun _ => ⟨none, .SOCKET_READ, none, 0, none⟩,
    ⟨[], 0⟩, ⟨[], 0⟩,
    0, [], 0, true⟩

/-- What happens to the fields of an object. -/
theorem perform_objects (s : Shared F) (outcome : Outcome) (op : Op F) (w : Obj)
    {P : F → F → Prop} (refl : ∀ o, P o o) (sets : ∀ w f, op = .set w f → ∀ o, P o (f o)) :
    P (s.objects w) ((s.perform outcome op).1.objects w) := by
  cases op
  case set u f =>
    by_cases same : w = u
    · subst same
      simpa only [Shared.perform, Function.update_self] using sets _ f rfl _
    · simpa only [Shared.perform, Function.update_of_ne same] using refl _
  case bufPop | bufNew | reqPop | reqNew | post | wsaSocket | socketPop | workerPop | workerNew =>
    simp only [Shared.perform]
    split <;> exact refl _
  all_goals exact refl _

namespace Requests
variable {fits : IOReq → Prop} {s s' : Shared F} {q : Req} {qs : List Req}

theorem congr (requests : Requests fits s qs) (list : s'.m_IOReqList.eles = s.m_IOReqList.eles)
    (pending : s'.pending = s.pending) (reqs : s'.reqs = s.reqs)
    (newReqs : s'.newReqs = s.newReqs) :
    Requests fits s' qs := by
  refine ⟨?_, ?_⟩
  · rw [list, pending, newReqs]
    exact requests.once
  · rw [pending, reqs]
    exact requests.noted

/-- A request in the hands of the call is not outstanding. -/
theorem apart (requests : Requests fits s (q :: qs)) : ∀ p ∈ s.pending, p.req ≠ q := by
  rintro p inside rfl
  exact (requests.once.apart List.nodup_range).2 (List.mem_map_of_mem inside)

/-- Nothing is outstanding twice. -/
theorem pending_nodup (requests : Requests fits s qs) : s.pending.Nodup := by
  have nodup := requests.once.nodup_iff.mpr List.nodup_range
  rw [List.nodup_append] at nodup
  exact .of_map _ (List.nodup_append.mp nodup.2.1).1

theorem known (requests : Requests fits s qs) : ∀ p ∈ s.pending,
    p.req < s.newReqs := fun _ inside =>
  List.mem_range.mp (requests.once.mem_all (.inr (List.mem_map_of_mem inside)))

theorem pop {rest : List Req} (requests : Requests fits s qs)
    (list : s.m_IOReqList.eles = q :: rest) :
    Requests fits { s with m_IOReqList.eles := rest } (q :: qs) := by
  have once := requests.once
  rw [list] at once
  exact ⟨once.pop, requests.noted⟩

/-- A request in the hands of the call may be written. -/
theorem write (requests : Requests fits s (q :: qs)) (req : IOReq) :
    Requests fits { s with reqs := Function.update s.reqs q req } (q :: qs) := by
  refine ⟨requests.once, fun p inside => ?_⟩
  simp only [Function.update_of_ne (requests.apart p inside)]
  exact requests.noted p inside

theorem new (requests : Requests fits s qs) (req : IOReq) :
    Requests fits { s with newReqs := s.newReqs + 1, reqs := Function.update s.reqs s.newReqs req }
      (s.newReqs :: qs) := by
  refine ⟨?_, fun p inside => ?_⟩
  · rw [List.range_succ]
    exact requests.once.new
  · simp only [Function.update_of_ne (Nat.ne_of_lt (requests.known p inside))]
    exact requests.noted p inside

theorem push (requests : Requests fits s (q :: qs)) :
    Requests fits { s with m_IOReqList := s.m_IOReqList.pushTail q } qs :=
  ⟨requests.once.push, requests.noted⟩

theorem post {p : Posted} (requests : Requests fits s (p.req :: qs))
    (noted : (s.reqs p.req).m_pObserver = some p.object ∧ (s.reqs p.req).m_pDataBuf = p.buf ∧
      fits (s.reqs p.req)) : Requests fits { s with pending := p :: s.pending } qs := by
  refine ⟨requests.once.post, fun p' inside => ?_⟩
  rcases List.mem_cons.mp inside with rfl | inside
  · exact noted
  · exact requests.noted p' inside

/-- A completion gives its request to the handler. -/
theorem complete {p : Posted} (requests : Requests fits s qs) (member : p ∈ s.pending) :
    Requests fits { s with pending := s.pending.erase p } (p.req :: qs) :=
  ⟨requests.once.complete ((List.perm_cons_erase member).map Posted.req),
    fun p' inside => requests.noted p' (List.mem_of_mem_erase inside)⟩

end Requests

namespace Buffers
variable {s s' : Shared F} {b : Buf} {bs : List Buf}

theorem congr (buffers : Buffers s bs) (list : s'.m_BufList.eles = s.m_BufList.eles)
    (pending : s'.pending = s.pending) (newBufs : s'.newBufs = s.newBufs) : Buffers s' bs := by
  refine ⟨?_⟩
  rw [list, pending, newBufs]
  exact buffers.once

/-- The list holds buffers only. -/
theorem listed (buffers : Buffers s bs) {e : Option Buf} (inside : e ∈ s.m_BufList.eles) :
    ∃ b, e = some b := by
  obtain ⟨b, -, same⟩ := List.mem_map.mp (buffers.once.mem_all (.inl inside))
  exact ⟨b, same.symm⟩

theorem pop {rest : List (Option Buf)} (buffers : Buffers s bs)
    (list : s.m_BufList.eles = some b :: rest) :
    Buffers { s with m_BufList.eles := rest } (b :: bs) := by
  have once := buffers.once
  rw [list] at once
  exact ⟨once.pop⟩

theorem new (buffers : Buffers s bs) : Buffers { s with newBufs := s.newBufs + 1 }
    (s.newBufs :: bs) := by
  refine ⟨?_⟩
  rw [List.range_succ, List.map_append]
  exact buffers.once.new

theorem push (buffers : Buffers s (b :: bs)) :
    Buffers { s with m_BufList := s.m_BufList.pushTail (some b) } bs :=
  ⟨buffers.once.push⟩

theorem post {p : Posted} (buffers : Buffers s (p.buf.toList ++ bs)) :
    Buffers { s with pending := p :: s.pending } bs := by
  refine ⟨?_⟩
  have once := buffers.once
  cases at_ : p.buf with
  | none => simpa [at_] using once
  | some b =>
    simp only [at_, Option.toList_some, List.singleton_append, List.map_cons] at once
    simpa [at_] using once.post

/-- A completion gives its buffer to the handler. -/
theorem complete {p : Posted} (buffers : Buffers s bs) (member : p ∈ s.pending) :
    Buffers { s with pending := s.pending.erase p } (p.buf.toList ++ bs) := by
  refine ⟨?_⟩
  have left := ((List.perm_cons_erase member).filterMap Posted.buf).map some
  cases at_ : p.buf with
  | none =>
    rw [List.filterMap_cons_none at_] at left
    exact buffers.once.congr left.symm
  | some b =>
    rw [List.filterMap_cons_some at_, List.map_cons] at left
    exact buffers.once.complete left

end Buffers

end TestIOCP.Tcp
