import TestIOCP.File.Writer
import TestIOCP.Stock
import TestIOCP.Transition

/-! A writer re-blocks the packets that it gets and loses none of their bytes. What it has
not yet written out is at the front of its current buffer, which nobody else holds. -/
namespace TestIOCP.File
open Transition
open CString (Byte)
open Files

variable {W : Type} {s s' : Files W} {w : W} {b : Buf} {bs : List Buf} {q : Req}
  {qs : List Req} {extra data : List Byte} {api : Api} {clean : Prop}

/-- The static lists; bs and qs are the buffers and requests that are neither in them nor
with WriteFile. -/
structure Kept (s : Files W) (bs : List Buf) (qs : List Req) : Prop where
  bufs : Stocked ((List.range s.newBufs).map some) s.m_BufList.eles
    (s.writing.map fun f => some f.buf)
    (bs.map some)
  reqs : Stocked ((List.range s.newReqs).map some) s.m_IOReqList.eles
    (s.writing.map fun f => some f.req)
    (qs.map some)
  noted : ∀ f ∈ s.writing, (s.reqs f.req).m_pObserver = f.writer ∧
    (s.reqs f.req).m_pDataBuf = some f.buf ∧
    (s.reqs f.req).m_nDataSize = f.size
  sized : ∀ b, (s.memory b).length = WFILEBUFSIZE
  intact : ∀ f ∈ s.writing, s.memory f.buf = f.contents

theorem some_range_nodup (n : Nat) : ((List.range n).map (some : Nat → Option Nat)).Nodup :=
  List.nodup_range.map (Option.some_injective Nat)

/-- The lists hold buffers and requests only. -/
theorem popHead_stocked {n : Nat} {l : BiList (Option Nat)} {out held : List (Option Nat)}
    (stocked : Stocked ((List.range n).map some) l.eles out held) :
    (l.eles = [] ∧ l.popHead = (l, none)) ∨
      ∃ b rest, l.eles = some b :: rest ∧ l.popHead = ({ l with eles := rest }, some b) := by
  cases list : l.eles with
  | nil => exact .inl ⟨rfl, by simp [BiList.popHead, list]⟩
  | cons e rest =>
    obtain ⟨b, -, rfl⟩ := List.mem_map.mp
      (stocked.mem_all (.inl (by rw [list]; exact List.mem_cons_self)))
    exact .inr ⟨b, rest, rfl, by simp [BiList.popHead, list]⟩

/-- What taking from the lists leaves alone. -/
structure Aside (s s' : Files W) : Prop where
  writers : s'.writers = s.writers
  memory : s'.memory = s.memory
  writing : s'.writing = s.writing
  payloads : s'.payloads = s.payloads
  imported : s'.imported = s.imported

namespace Kept

/-- A buffer in hand is not with WriteFile. -/
theorem apart (kept : Kept s bs qs) (mine : b ∈ bs) : ∀ f ∈ s.writing, f.buf ≠ b := by
  rintro f inside rfl
  have out := (kept.bufs.separate (some_range_nodup _) (List.mem_map_of_mem mine)).2
  exact out (List.mem_map_of_mem inside)

theorem once (kept : Kept s bs qs) : bs.Nodup :=
  (kept.bufs.held_nodup (some_range_nodup _)).of_map _

/-- Only the lists of the class are looked at. -/
theorem congr (kept : Kept s bs qs) (bufs : s'.m_BufList = s.m_BufList ∧ s'.newBufs = s.newBufs)
    (requests : s'.m_IOReqList = s.m_IOReqList ∧ s'.newReqs = s.newReqs ∧ s'.reqs = s.reqs)
    (writing : s'.writing = s.writing) (memory : s'.memory = s.memory) : Kept s' bs qs := by
  obtain ⟨stockedBufs, stockedReqs, noted, sized, intact⟩ := kept
  refine ⟨?_, ?_, ?_, ?_, ?_⟩
  · rwa [bufs.1, bufs.2, writing]
  · rwa [requests.1, requests.2.1, writing]
  · rwa [writing, requests.2.2]
  · rwa [memory]
  · rwa [writing, memory]

/-- With memory there always is a buffer, and it is nobody else's. -/
theorem takeBuf (kept : Kept s bs qs) : ∃ s' b, s.takeBuf true = (s', some b) ∧
    Kept s' (b :: bs) qs ∧
    b ∉ bs ∧ Aside s s' := by
  have fresh {s' : Files W} {b : Buf} (kept : Kept s' (b :: bs) qs) : b ∉ bs :=
    (List.nodup_cons.mp kept.once).1
  rcases popHead_stocked kept.bufs with ⟨empty, popped⟩ | ⟨b, rest, list, popped⟩
  · have kept' : Kept { s with m_BufList := s.m_BufList.allocated, newBufs := s.newBufs + 1 }
        (s.newBufs :: bs) qs := by
      refine ⟨?_, kept.reqs, kept.noted, kept.sized, kept.intact⟩
      rw [List.range_succ, List.map_append]
      exact kept.bufs.new
    exact ⟨_, s.newBufs, by rw [Files.takeBuf, popped]; rfl, kept', fresh kept',
      ⟨rfl, rfl, rfl, rfl, rfl⟩⟩
  · have kept' : Kept { s with m_BufList.eles := rest } (b :: bs) qs := by
      refine ⟨?_, kept.reqs, kept.noted, kept.sized, kept.intact⟩
      have stocked := kept.bufs
      rw [list] at stocked
      exact stocked.pop
    exact ⟨_, b, by rw [Files.takeBuf, popped], kept', fresh kept', ⟨rfl, rfl, rfl, rfl, rfl⟩⟩

/-- A request in hand belongs to no WriteFile. -/
theorem reqApart (kept : Kept s bs (q :: qs)) : ∀ f ∈ s.writing, f.req ≠ q := by
  rintro f inside rfl
  exact (kept.reqs.apart (some_range_nodup _)).2 (List.mem_map_of_mem inside)

/-- A request in hand may be written. -/
theorem setReq (kept : Kept s bs (q :: qs)) (req : IOReq W) :
    Kept { s with reqs := Function.update s.reqs q req } bs (q :: qs) := by
  refine ⟨kept.bufs, kept.reqs, fun f inside => ?_, kept.sized, kept.intact⟩
  simp only [Function.update_of_ne (kept.reqApart f inside)]
  exact kept.noted f inside

theorem takeReq (kept : Kept s bs qs) (req : IOReq W) : ∃ s' q, s.takeReq true req = (s', some q) ∧
    Kept s' bs (q :: qs) ∧ s'.reqs q = req ∧ Aside s s' := by
  rcases popHead_stocked kept.reqs with ⟨empty, popped⟩ | ⟨q, rest, list, popped⟩
  · have kept' : Kept { s with m_IOReqList := s.m_IOReqList.allocated, newReqs := s.newReqs + 1 } bs
        (s.newReqs :: qs) := by
      refine ⟨kept.bufs, ?_, kept.noted, kept.sized, kept.intact⟩
      rw [List.range_succ, List.map_append]
      exact kept.reqs.new
    exact ⟨_, s.newReqs, by rw [Files.takeReq, popped]; rfl, kept'.setReq req,
      Function.update_self _ _ _,
      ⟨rfl, rfl, rfl, rfl, rfl⟩⟩
  · have kept' : Kept { s with m_IOReqList.eles := rest } bs (q :: qs) := by
      refine ⟨kept.bufs, ?_, kept.noted, kept.sized, kept.intact⟩
      have stocked := kept.reqs
      rw [list] at stocked
      exact stocked.pop
    exact ⟨_, q, by rw [Files.takeReq, popped], kept'.setReq req, Function.update_self _ _ _,
      ⟨rfl, rfl, rfl, rfl, rfl⟩⟩

/-- WriteFile takes the current buffer and a request. -/
theorem post (kept : Kept s bs (q :: qs)) (mine : b ∈ bs) (size : Nat)
    (noted : (s.reqs q).m_pObserver = w ∧ (s.reqs q).m_pDataBuf = some b ∧
      (s.reqs q).m_nDataSize = size) :
    Kept { s with writing := ⟨q, w, b, size, s.memory b⟩ :: s.writing } (bs.erase b) qs := by
  have perm := (List.perm_cons_erase mine).symm.map (some : Nat → Option Nat)
  refine ⟨(kept.bufs.hold perm).post, kept.reqs.post, fun f inside => ?_, kept.sized,
    fun f inside => ?_⟩
  · rcases List.mem_cons.mp inside with rfl | inside
    · exact noted
    · exact kept.noted f inside
  · rcases List.mem_cons.mp inside with rfl | inside
    · rfl
    · exact kept.intact f inside

/-- A buffer in hand may be written. -/
theorem fill (kept : Kept s bs qs) (mine : b ∈ bs) {at_ : Nat}
    (fits : at_ + data.length ≤ WFILEBUFSIZE) :
    Kept { s with memory := Function.update s.memory b (store (s.memory b) at_ data) } bs qs := by
  have sized := kept.sized b
  refine ⟨kept.bufs, kept.reqs, kept.noted, fun b' => ?_, fun f inside => ?_⟩
  · by_cases this : b' = b
    · subst this
      simp only [Function.update_self, store, List.length_append, List.length_take,
        List.length_drop]
      omega
    · simpa only [Function.update_of_ne this] using kept.sized b'
  · simp only [Function.update_of_ne (kept.apart mine f inside)]
    exact kept.intact f inside

/-- InitObject puts a new buffer in the list. -/
theorem stockBuf (kept : Kept s bs qs) : Kept (stockBuf s true) bs qs := by
  refine ⟨?_, kept.reqs, kept.noted, kept.sized, kept.intact⟩
  simp only [File.stockBuf, if_true, List.range_succ, List.map_append]
  exact kept.bufs.new.push

/-- InitObject puts a new request in the list. -/
theorem stockReq (kept : Kept s bs qs) (w : W) : Kept (stockReq s true w) bs qs := by
  have known (f : Write W) (inside : f ∈ s.writing) : f.req ≠ s.newReqs := by
    obtain ⟨q, below, same⟩ := List.mem_map.mp
      (kept.reqs.mem_all (.inr (List.mem_map_of_mem inside)))
    rw [← Option.some.inj same]
    exact Nat.ne_of_lt (List.mem_range.mp below)
  refine ⟨kept.bufs, ?_, fun f inside => ?_, kept.sized, kept.intact⟩
  · simp only [File.stockReq, if_true, List.range_succ, List.map_append]
    exact kept.reqs.new.push
  · simp only [File.stockReq, if_true, Function.update_of_ne (known f inside)]
    exact kept.noted f inside

end Kept

/-- What ImportData only adds a packet to, and the files that are open. -/
def opened (s : Files W) : (W → List Byte) × (W → Option Nat) :=
  (s.imported, fun u => (s.writers u).m_hFileDest)

theorem takeBuf_opened (available : Bool) : opened (s.takeBuf available).1 = opened s := by
  simp only [takeBuf]
  split
  · rfl
  · split <;> rfl

theorem takeBuf_opened_of {s₁ : Files W} {available : Bool} {r : Option Buf}
    (took : s.takeBuf available = (s₁, r)) : opened s₁ = opened s := by
  have same : opened (s.takeBuf available).1 = opened s := takeBuf_opened available
  rwa [took] at same

/-- What m_pCurBuf holds. -/
def cached (s : Files W) (w : W) : List Byte :=
  (s.writers w).m_pCurBuf.elim [] fun b => (s.memory b).take (s.writers w).m_nCurSize

theorem cached_congr {u : W} (buf : (s'.writers u).m_pCurBuf = (s.writers u).m_pCurBuf)
    (size : (s'.writers u).m_nCurSize = (s.writers u).m_nCurSize)
    (memory : ∀ b, (s.writers u).m_pCurBuf = some b → s'.memory b = s.memory b) :
      cached s' u = cached s u := by
  rw [cached, cached, buf, size]
  cases current : (s.writers u).m_pCurBuf with
  | none => rfl
  | some b => simp only [Option.elim_some, memory b current]

variable [DecidableEq W]

/-- The bytes whose WriteFile is not yet completed. -/
def inFlight (s : Files W) (w : W) : Nat :=
  ((s.writing.filter (·.writer = w)).map Write.size).sum

/-- What was written out or is cached is what was imported, but for the last bytes. The
counters agree as long as no WriteFile has completed with an error. -/
structure Writes (clean : Prop) (s : Files W) (w : W) (extra : List Byte) : Prop where
  stream : (s.payloads w).flatten ++ cached s w ++ extra = s.imported w
  counted : clean → (s.writers w).m_nRecvPackets = (s.writers w).m_nWritedPackets +
    BitVec.ofNat 32 (inFlight s w + (s.writers w).m_nCurSize + extra.length)

/-- The current buffers of the writers. -/
structure Caches (s : Files W) (bs : List Buf) : Prop where
  mine : ∀ u b, (s.writers u).m_pCurBuf = some b → b ∈ bs
  apart : ∀ u v b, (s.writers u).m_pCurBuf = some b → (s.writers v).m_pCurBuf = some b → u = v
  filled : ∀ u, (s.writers u).m_nCurSize ≤ WFILEBUFSIZE ∧
    ((s.writers u).m_pCurBuf = none → (s.writers u).m_nCurSize = 0)

/-- While w has some bytes in its hands. -/
structure Busy (clean : Prop) (s : Files W) (w : W) (extra : List Byte) (bs : List Buf) : Prop where
  kept : Kept s bs []
  caches : Caches s bs
  writes : ∀ u, Writes clean s u (if u = w then extra else [])

/-- Enough memory, and WriteFile is accepted. -/
structure Api.Accepts (api : Api) : Prop where
  newBuf : api.newBuf = true
  newReq : api.newReq = true
  nextBuf : api.nextBuf = true
  writeFile : api.writeFile ≠ .failed

/-- Both places that write the current buffer out hand it over to WriteFile, once there is
a request for it. -/
theorem writeCurBuf_spec {s₁ : Files W} (kept₁ : Kept s₁ bs [q])
    (took : s.takeReq api.newReq
      ⟨w, some b, WFILEBUFSIZE, (s.writers w).m_nCurSize, 0xffffffff, 0xffffffff⟩ = (s₁, some q))
    (noted : s₁.reqs q =
      ⟨w, some b, WFILEBUFSIZE, (s.writers w).m_nCurSize, 0xffffffff, 0xffffffff⟩)
    (aside : Aside s s₁) (accepted : api.writeFile ≠ .failed)
    (current : (s.writers w).m_pCurBuf = some b)
    (mine : b ∈ bs) : ∃ s', s.writeCurBuf api w = (s', some false) ∧ Kept s' (bs.erase b) [] ∧
      s'.writers = (s.set w fun o => { o with m_nWriteNum := o.m_nWriteNum + 1 }).writers ∧
        s'.memory = s.memory ∧
      s'.writing = ⟨q, w, b, (s.writers w).m_nCurSize, s.memory b⟩ :: s.writing ∧
      s'.payloads = Function.update s.payloads w
        (s.payloads w ++ [(s.memory b).take (s.writers w).m_nCurSize]) ∧
            s'.imported = s.imported := by
  have kept₂ := kept₁.post (w := w) mine (s.writers w).m_nCurSize
    (by rw [noted]; exact ⟨rfl, rfl, rfl⟩)
  have written : s₁.writeFile api.writeFile w q = ({ s₁ with
      writing := ⟨q, w, b, (s.writers w).m_nCurSize, s.memory b⟩ :: s.writing
      payloads := Function.update s.payloads w
        (s.payloads w ++ [(s.memory b).take (s.writers w).m_nCurSize]) }, true) := by
    simp only [writeFile, aside.writers, current, ne_eq, accepted,
      not_false_eq_true, if_true,
      aside.memory, aside.writing, aside.payloads]
  refine ⟨Files.set { s₁ with
      writing := ⟨q, w, b, (s.writers w).m_nCurSize, s.memory b⟩ :: s.writing
      payloads := Function.update s.payloads w
        (s.payloads w ++ [(s.memory b).take (s.writers w).m_nCurSize]) } w
    fun o => { o with m_nWriteNum := o.m_nWriteNum + 1 }, ?_,
    kept₂.congr ⟨rfl, rfl⟩ ⟨rfl, rfl, rfl⟩ ?_ rfl,
    ?_, aside.memory, rfl, rfl, aside.imported⟩
  · simp only [writeCurBuf, current, took, written, if_true, Bool.not_true]
  · simp only [Files.set, aside.memory, aside.writing]
  · simp only [Files.set, aside.writers]

theorem Writes.congr {u : W} (writes : Writes clean s u extra)
    (writers : s'.writers u = s.writers u)
    (memory : ∀ b, (s.writers u).m_pCurBuf = some b → s'.memory b = s.memory b)
    (writing : inFlight s' u = inFlight s u) (payloads : s'.payloads u = s.payloads u)
    (imported : s'.imported u = s.imported u) : Writes clean s' u extra := by
  obtain ⟨stream, counted⟩ := writes
  have same := cached_congr (congrArg _ writers) (congrArg _ writers) memory
  refine ⟨?_, fun now => ?_⟩
  · rw [payloads, imported, same, stream]
  · rw [writers, writing, counted now]

@[simp] theorem set_self (f : FileWriter → FileWriter) : (s.set w f).writers w = f (s.writers w) :=
  Function.update_self _ _ _

theorem set_other {u : W} (other : u ≠ w) (f : FileWriter → FileWriter) :
    (s.set w f).writers u = s.writers u :=
  Function.update_of_ne other _ _

/-- The completion of a WriteFile is consumed. -/
def complete (s : Files W) (f : Write W) (error : Bool) : Files W :=
  consumeReq { s with writing := s.writing.erase f } (s.reqs f.req).m_pObserver error f.req

/-- What a completion leaves alone. -/
theorem complete_same {f : Write W} (error : Bool) :
    (complete s f error).newBufs = s.newBufs ∧ (complete s f error).newReqs = s.newReqs ∧
      (complete s f error).reqs = s.reqs ∧ (complete s f error).memory = s.memory ∧
      (complete s f error).writing = s.writing.erase f ∧
        (complete s f error).payloads = s.payloads ∧
      (complete s f error).imported = s.imported := by
  cases error <;> exact ⟨rfl, rfl, rfl, rfl, rfl, rfl, rfl⟩

theorem Kept.complete_writers (kept : Kept s bs qs) {f : Write W} (member : f ∈ s.writing)
    (error : Bool) (u : W) : (complete s f error).writers u = if u = f.writer then
      { s.writers u with
      m_nWritedNum := (s.writers u).m_nWritedNum + 1
      m_nWritedPackets := if error then (s.writers u).m_nWritedPackets else
        (s.writers u).m_nWritedPackets + BitVec.ofNat 32 f.size } else s.writers u := by
  obtain ⟨observer, -, size⟩ := kept.noted f member
  simp only [complete, consumeReq, observer, size]
  by_cases this : u = f.writer
  · subst this
    cases error <;> simp
  · rw [if_neg this]
    cases error <;> simp [Files.set, this]

/-- The buffer and the request of a completed write go back to their lists. -/
theorem Kept.completes (kept : Kept s bs qs) {f : Write W} (member : f ∈ s.writing)
    (error : Bool) : Kept (complete s f error) bs qs := by
  obtain ⟨-, buffer, -⟩ := kept.noted f member
  have perm := List.perm_cons_erase member
  have lists : (complete s f error).m_BufList = s.m_BufList.pushTail (some f.buf) ∧
      (complete s f error).m_IOReqList = s.m_IOReqList.pushTail (some f.req) := by
    cases error <;> exact ⟨by simp only [complete, consumeReq, buffer]; rfl, rfl⟩
  obtain ⟨newBufs, newReqs, reqs, memory, writing, -, -⟩ := complete_same (s := s) (f := f) error
  refine ⟨?_, ?_, ?_, by rw [memory]; exact kept.sized, ?_⟩
  · rw [newBufs, lists.1, writing]
    exact (kept.bufs.complete (perm.map fun f => some f.buf)).push
  · rw [newReqs, lists.2, writing]
    exact (kept.reqs.complete (perm.map fun f => some f.req)).push
  · rw [writing, reqs]
    exact fun g inside => kept.noted g (List.mem_of_mem_erase inside)
  · rw [writing, memory]
    exact fun g inside => kept.intact g (List.mem_of_mem_erase inside)

namespace Busy

/-- The writer has no current buffer, and takes one. -/
theorem takes (busy : Busy clean s w extra bs) (empty : (s.writers w).m_pCurBuf = none) : ∃ s' b,
    s.takeBuf true = (s', some b) ∧
      Busy clean (s'.set w fun o => { o with m_pCurBuf := some b, m_nCurSize := 0 }) w
        extra (b :: bs) := by
  obtain ⟨s', b, took, kept, fresh, aside⟩ := busy.kept.takeBuf
  have other {u : W} (this : u ≠ w) :
      (s'.set w fun o => { o with m_pCurBuf := some b, m_nCurSize := 0 }).writers u =
          s.writers u := by
    rw [set_other this, aside.writers]
  refine ⟨s', b, took, ⟨kept.congr ⟨rfl, rfl⟩ ⟨rfl, rfl, rfl⟩ rfl rfl,
    ⟨fun u b' at_ => ?_, fun u v b' at_ at' => ?_,
    fun u => ?_⟩, fun u => ?_⟩⟩
  · by_cases this : u = w
    · subst this
      simp only [set_self, Option.some.injEq] at at_
      exact List.mem_cons.mpr (.inl at_.symm)
    · rw [other this] at at_
      exact List.mem_cons_of_mem b (busy.caches.mine u b' at_)
  · by_cases this : u = w <;> by_cases that : v = w
    · exact this.trans that.symm
    · subst this
      simp only [set_self, Option.some.injEq] at at_
      rw [other that, ← at_] at at'
      exact absurd (busy.caches.mine v b at') fresh
    · subst that
      simp only [set_self, Option.some.injEq] at at'
      rw [other this, ← at'] at at_
      exact absurd (busy.caches.mine u b at_) fresh
    · rw [other this] at at_
      rw [other that] at at'
      exact busy.caches.apart u v b' at_ at'
  · by_cases this : u = w
    · subst this
      simp
    · rw [other this]
      exact busy.caches.filled u
  · have writes := busy.writes u
    by_cases this : u = w
    · subst this
      have size := (busy.caches.filled u).2 empty
      obtain ⟨stream, counted⟩ := writes
      refine ⟨?_, ?_⟩
      · simpa [cached, empty, Files.set, aside.payloads, aside.imported] using stream
      · simpa [size, inFlight, Files.set, aside.writing, aside.writers] using counted
    · refine writes.congr (other this) (fun b' _ => ?_) ?_ ?_ ?_
      · exact congrFun aside.memory b'
      · exact congrArg (fun writing =>
          ((writing.filter (·.writer = u)).map Write.size).sum) aside.writing
      · exact congrFun aside.payloads u
      · exact congrFun aside.imported u

/-- The writer hands its current buffer over to WriteFile. -/
theorem writesOut (busy : Busy clean s w extra bs) (accepts : api.Accepts)
    (current : (s.writers w).m_pCurBuf = some b) : ∃ s', s.writeCurBuf api w = (s', some false) ∧
      Busy clean (s'.set w fun o => { o with m_pCurBuf := none, m_nCurSize := 0 }) w extra
        (bs.erase b) := by
  obtain ⟨s₁, q, took, kept₁, noted, aside⟩ := busy.kept.takeReq
    ⟨w, some b, WFILEBUFSIZE, (s.writers w).m_nCurSize, 0xffffffff, 0xffffffff⟩
  rw [← accepts.newReq] at took
  obtain ⟨s', wrote, kept, writers, memory, writing, payloads, imported⟩ :=
    writeCurBuf_spec kept₁ took noted aside accepts.writeFile current
      (busy.caches.mine w b current)
  have other {u : W} (this : u ≠ w) :
      (s'.set w fun o => { o with m_pCurBuf := none, m_nCurSize := 0 }).writers u =
          s.writers u := by
    rw [set_other this, writers, set_other this]
  have cleared {u : W} {b' : Buf}
      (at_ : ((s'.set w fun o => { o with m_pCurBuf := none, m_nCurSize := 0 }).writers
        u).m_pCurBuf = some b') :
      u ≠ w ∧ (s.writers u).m_pCurBuf = some b' := by
    by_cases this : u = w
    · subst this
      simp at at_
    · exact ⟨this, by rwa [other this] at at_⟩
  refine ⟨s', wrote, kept.congr ⟨rfl, rfl⟩ ⟨rfl, rfl, rfl⟩ rfl rfl,
    ⟨fun u b' at_ => ?_, fun u v b' at_ at' => ?_,
    fun u => ?_⟩, fun u => ?_⟩
  · obtain ⟨this, at_⟩ := cleared at_
    have differ : b' ≠ b := fun same => this (busy.caches.apart u w b (same ▸ at_) current)
    exact (List.mem_erase_of_ne differ).mpr (busy.caches.mine u b' at_)
  · exact busy.caches.apart u v b' (cleared at_).2 (cleared at').2
  · by_cases this : u = w
    · subst this
      simp
    · rw [other this]
      exact busy.caches.filled u
  · have writes := busy.writes u
    by_cases this : u = w
    · subst this
      obtain ⟨stream, counted⟩ := writes
      refine ⟨?_, fun now => ?_⟩
      · simpa [cached, current, Files.set, payloads, imported] using stream
      · simp only [set_self, writers, counted now, if_true]
        congr 2
        simp only [inFlight, Files.set, writing, List.filter_cons, decide_true, if_true,
          List.map_cons, List.sum_cons]
        omega
    · refine writes.congr (other this) (fun b' _ => ?_) ?_ ?_ ?_
      · exact congrFun memory b'
      · simp [inFlight, Files.set, writing, Ne.symm this]
      · simp [Files.set, payloads, this]
      · exact congrFun imported u

/-- The packet is copied behind what the current buffer holds. -/
theorem appends (busy : Busy clean s w data bs) (current : (s.writers w).m_pCurBuf = some b)
    (fits : (s.writers w).m_nCurSize + data.length ≤ WFILEBUFSIZE) :
      Busy clean (append s w data) w [] bs := by
  have mine := busy.caches.mine w b current
  have appended : append s w data =
      { s with
        memory :=
          Function.update s.memory b (store (s.memory b) (s.writers w).m_nCurSize data) }.set w
        fun o => { o with m_nCurSize := o.m_nCurSize + data.length } := by
    simp only [append, current]
  have buf (u : W) : ((append s w data).writers u).m_pCurBuf = (s.writers u).m_pCurBuf := by
    rw [appended]
    by_cases this : u = w
    · subst this
      simp
    · rw [set_other this]
  have sized := busy.kept.sized b
  refine ⟨?_, ⟨fun u b' => by rw [buf]; exact busy.caches.mine u b',
    fun u v b' => by rw [buf, buf]; exact busy.caches.apart u v b', fun u => ?_⟩, fun u => ?_⟩
  · rw [appended]
    exact (busy.kept.fill mine fits).congr ⟨rfl, rfl⟩ ⟨rfl, rfl, rfl⟩ rfl rfl
  · rw [buf, appended]
    by_cases this : u = w
    · subst this
      simp only [set_self, current, reduceCtorEq, false_implies, and_true]
      exact fits
    · rw [set_other this]
      exact busy.caches.filled u
  · have writes := busy.writes u
    rw [appended]
    by_cases this : u = w
    · subst this
      obtain ⟨stream, counted⟩ := writes
      have longer : (store (s.memory b) (s.writers u).m_nCurSize data).take
          ((s.writers u).m_nCurSize + data.length) =
              (s.memory b).take (s.writers u).m_nCurSize ++ data := by
        rw [store, List.take_append_of_le_length, List.take_of_length_le]
        · simp
        · simp only [List.length_append, List.length_take]
          omega
      refine ⟨?_, fun now => ?_⟩
      · simp only [cached, current, Option.elim_some, Files.set, Function.update_self, longer]
        simpa [cached, current] using stream
      · simp only [set_self, counted now, if_true, List.length_nil]
        congr 2
        simp only [inFlight, Files.set]
        omega
    · rw [if_neg this] at writes ⊢
      refine writes.congr (set_other this _) (fun b' at_ => ?_) rfl rfl rfl
      have differ : b' ≠ b := fun same => this (busy.caches.apart u w b (same ▸ at_) current)
      simp only [Files.set, Function.update_of_ne differ]

/-- A packet comes in. -/
theorem receives (busy : Busy clean s w [] bs) (data : List Byte) :
    Busy clean (receive s w data) w data bs := by
  have other {u : W} (this : u ≠ w) : (receive s w data).writers u = s.writers u := set_other this _
  have buf (u : W) : ((receive s w data).writers u).m_pCurBuf = (s.writers u).m_pCurBuf := by
    by_cases this : u = w
    · subst this
      simp [receive]
    · rw [other this]
  have size (u : W) : ((receive s w data).writers u).m_nCurSize = (s.writers u).m_nCurSize := by
    by_cases this : u = w
    · subst this
      simp [receive]
    · rw [other this]
  refine ⟨busy.kept.congr ⟨rfl, rfl⟩ ⟨rfl, rfl, rfl⟩ rfl rfl,
    ⟨fun u b' => by rw [buf]; exact busy.caches.mine u b',
    fun u v b' => by rw [buf, buf]; exact busy.caches.apart u v b',
    fun u => by rw [buf, size]; exact busy.caches.filled u⟩, fun u => ?_⟩
  have writes := busy.writes u
  by_cases this : u = w
  · subst this
    obtain ⟨stream, counted⟩ := writes
    rw [if_pos rfl, List.append_nil] at stream
    refine ⟨?_, fun now => ?_⟩
    · rw [if_pos rfl, cached_congr (buf u) (size u) fun _ _ => rfl]
      simp only [receive, Files.set, Function.update_self, stream]
    · have counted := counted now
      simp only [if_true, List.length_nil, Nat.add_zero] at counted ⊢
      rw [size, BitVec.ofNat_add _ data.length, ← BitVec.add_assoc]
      simp only [receive, set_self, counted]
      rfl
  · rw [if_neg this] at writes ⊢
    refine writes.congr (other this) (fun b' at_ => rfl) rfl rfl ?_
    simp only [receive, Files.set, Function.update_of_ne this]

end Busy

theorem takeBuf_set (available : Bool) (f : FileWriter → FileWriter) :
    (s.set w f).takeBuf available = ((s.takeBuf available).1.set w f, (s.takeBuf available).2) := by
  have writers : (s.takeBuf available).1.writers = s.writers := by
    simp only [takeBuf]
    split
    · rfl
    · split <;> rfl
  simp only [Files.set, writers]
  simp only [takeBuf]
  split
  · rfl
  · split <;> rfl

theorem set_set (f g : FileWriter → FileWriter) : (s.set w f).set w g =
    s.set w fun o => g (f o) := by
  simp only [Files.set, Function.update_self, Function.update_idem]

namespace Busy

/-- The writer hands its buffer over and goes on with another one. -/
theorem swaps (busy : Busy clean s w extra bs) (accepts : api.Accepts)
    (current : (s.writers w).m_pCurBuf = some b) :
    ∃ s₁ s₂ b', s.writeCurBuf api w = (s₁, some false) ∧ s₁.takeBuf true = (s₂, some b') ∧
      Busy clean (s₂.set w fun o => { o with m_pCurBuf := some b', m_nCurSize := 0 }) w extra
        (b' :: bs.erase b) := by
  obtain ⟨s₁, wrote, busy⟩ := busy.writesOut accepts current
  obtain ⟨s₂, b', took, busy⟩ := busy.takes (by simp)
  rw [takeBuf_set] at took
  obtain ⟨rfl, took⟩ := Prod.mk.inj took
  rw [set_set] at busy
  exact ⟨s₁, (s₁.takeBuf true).1, b', wrote, Prod.ext rfl (Prod.mk.inj took).2, busy⟩

/-- A buffer that holds nothing is forgotten. -/
theorem clears (busy : Busy clean s w extra bs) (empty : (s.writers w).m_nCurSize = 0) :
    Busy clean (s.set w fun o => { o with m_pCurBuf := none, m_nCurSize := 0 }) w extra bs := by
  have cleared {u : W} {b' : Buf}
      (at_ : ((s.set w fun o => { o with m_pCurBuf := none, m_nCurSize := 0 }).writers
        u).m_pCurBuf = some b') :
      (s.writers u).m_pCurBuf = some b' := by
    by_cases this : u = w
    · subst this
      simp at at_
    · rwa [set_other this] at at_
  refine ⟨busy.kept.congr ⟨rfl, rfl⟩ ⟨rfl, rfl, rfl⟩ rfl rfl,
    ⟨fun u b' at_ => busy.caches.mine u b' (cleared at_),
    fun u v b' at_ at' => busy.caches.apart u v b' (cleared at_) (cleared at'), fun u => ?_⟩,
      fun u => ?_⟩
  · by_cases this : u = w
    · subst this
      simp
    · rw [set_other this]
      exact busy.caches.filled u
  · have writes := busy.writes u
    by_cases this : u = w
    · subst this
      have silent : cached s u = [] := by
        rw [cached, empty]
        cases (s.writers u).m_pCurBuf <;> rfl
      obtain ⟨stream, counted⟩ := writes
      refine ⟨?_, ?_⟩
      · rw [silent] at stream
        simpa [cached, Files.set] using stream
      · simpa [empty, inFlight, Files.set] using counted
    · exact writes.congr (set_other this _) (fun _ _ => rfl) rfl rfl rfl

/-- A flush writes out what there is. -/
theorem flushes (busy : Busy clean s w [] bs) (accepts : api.Accepts) :
    ∃ s' bs', flush api s w = ⟨s', 0, 0⟩ ∧ Busy clean s' w [] bs' ∧
      (s'.writers w).m_nCurSize = 0 := by
  by_cases filled : 0 < (s.writers w).m_nCurSize
  · have current : (s.writers w).m_pCurBuf ≠ none := fun none_ =>
      absurd ((busy.caches.filled w).2 none_) (Nat.ne_of_gt filled)
    obtain ⟨b, current⟩ := Option.ne_none_iff_exists'.mp current
    obtain ⟨s', wrote, busy⟩ := busy.writesOut accepts current
    exact ⟨_, _, by simp only [flush, if_pos filled, wrote, Bool.toNat_false], busy, by simp⟩
  · exact ⟨_, _, by simp only [flush, if_neg filled],
      busy.clears (Nat.eq_zero_of_not_pos filled), by simp⟩

/-- The packet goes to a buffer with enough room. -/
theorem stores (busy : Busy clean s w data bs) (accepts : api.Accepts)
    (fits : data.length ≤ WFILEBUFSIZE) :
    ∃ s₁ s₂ bs', firstBuf api s w = .ok s₁ ∧ nextBuf api s₁ w data.length = .ok (s₂, 0) ∧
      Busy clean (append s₂ w data) w [] bs' := by
  -- there is a current buffer
  obtain ⟨s₁, bs₁, b, first, busy, current⟩ : ∃ s₁ bs₁ b, firstBuf api s w = .ok s₁ ∧
      Busy clean s₁ w data bs₁ ∧
      (s₁.writers w).m_pCurBuf = some b := by
    cases current : (s.writers w).m_pCurBuf with
    | none =>
      obtain ⟨s₁, b, took, busy⟩ := busy.takes current
      exact ⟨_, _, b, by simp only [firstBuf, current, if_true, accepts.newBuf,
        took], busy, by simp⟩
    | some b =>
      exact ⟨s, bs, b, by simp only [firstBuf, current, reduceCtorEq, if_false], busy, current⟩
  by_cases full : (s₁.writers w).m_nCurSize + data.length > WFILEBUFSIZE
  · obtain ⟨s₂, s₃, b', wrote, took, busy⟩ := busy.swaps accepts current
    refine ⟨s₁, _, _, first, ?_, busy.appends (b := b') (by simp) (by simpa using fits)⟩
    simp only [nextBuf, if_pos full, wrote, accepts.nextBuf, took, Bool.toNat_false]
  · exact ⟨s₁, s₁, _, first, by simp only [nextBuf, if_neg full],
      busy.appends current (Nat.le_of_not_lt full)⟩

/-- What ImportData does with a packet, or a flush, when the file is open. -/
theorem imports (busy : Busy clean s w [] bs) (accepts : api.Accepts)
    (open_ : (s.writers w).m_hFileDest ≠ none)
    (fits : data.length ≤ WFILEBUFSIZE) : ∃ s' bs',
      importData api s w data = ⟨s', 0, if data.length = 0 then 0 else 1⟩ ∧ Busy clean s' w [] bs' ∧
        (data = [] → (s'.writers w).m_nCurSize = 0) := by
  have received := busy.receives data
  have open_ : ((receive s w data).writers w).m_hFileDest ≠ none := by simpa [receive] using open_
  by_cases empty : data.length = 0
  · obtain rfl := List.eq_nil_of_length_eq_zero empty
    obtain ⟨s', bs', flushed, busy, clear⟩ := received.flushes accepts
    exact ⟨s', bs', by simp only [importData, if_neg open_, flushed, List.length_nil, if_true],
      busy, fun _ => clear⟩
  · obtain ⟨s₁, s₂, bs', first, next, busy⟩ := received.stores accepts fits
    refine ⟨append s₂ w data, bs', ?_, busy, fun none_ => absurd (by simp [none_]) empty⟩
    simp only [importData, if_neg open_, if_neg empty, first, next]

theorem rest (busy : Busy clean s w [] bs) (v : W) : Busy clean s v [] bs :=
  ⟨busy.kept, busy.caches, fun u => by simpa using busy.writes u⟩

/-- A completion gives the buffer and the request back; with an error it is not counted. -/
theorem completes (busy : Busy clean s w [] bs) {f : Write W}
    (member : f ∈ s.writing) {error : Bool}
    (faultless : clean → error = false) : Busy clean (complete s f error) w [] bs := by
  have perm := List.perm_cons_erase member
  have writers := busy.kept.complete_writers member error
  obtain ⟨-, -, -, memory, writing, payloads, imported⟩ := complete_same (s := s) (f := f) error
  have buf (u : W) : ((complete s f error).writers u).m_pCurBuf = (s.writers u).m_pCurBuf := by
    rw [writers]
    split <;> rfl
  have fill (u : W) : ((complete s f error).writers u).m_nCurSize = (s.writers u).m_nCurSize := by
    rw [writers]
    split <;> rfl
  refine ⟨busy.kept.completes member error,
    ⟨fun u b' => by rw [buf]; exact busy.caches.mine u b',
      fun u v b' => by rw [buf, buf]; exact busy.caches.apart u v b',
      fun u => by rw [buf, fill]; exact busy.caches.filled u⟩, fun u => ?_⟩
  obtain ⟨stream, counted⟩ := busy.writes u
  have nothing : (if u = w then ([] : List Byte) else []) = [] := by simp
  rw [nothing] at stream counted ⊢
  refine ⟨?_, fun now => ?_⟩
  · rw [cached_congr (buf u) (fill u) fun _ _ => by rw [memory], payloads, imported]
    exact stream
  · have total := ((perm.filter fun g => g.writer = u).map Write.size).sum_nat
    rw [fill, writers, faultless now]
    by_cases this : u = f.writer
    · subst this
      rw [List.filter_cons_of_pos (by simp), List.map_cons, List.sum_cons] at total
      simp only [if_true, Bool.false_eq_true, if_false, counted now,
        BitVec.add_assoc, ← BitVec.ofNat_add]
      congr 2
      rw [inFlight, total, inFlight, ← faultless now, writing]
      omega
    · rw [List.filter_cons_of_neg (by simpa using Ne.symm this)] at total
      simp only [if_neg this, counted now]
      congr 2
      rw [inFlight, total, inFlight, ← faultless now, writing]

/-- Only the lists and the handles change. -/
theorem congr (busy : Busy clean s w extra bs) (kept : Kept s' bs [])
    (buf : ∀ u, (s'.writers u).m_pCurBuf = (s.writers u).m_pCurBuf)
    (size : ∀ u, (s'.writers u).m_nCurSize = (s.writers u).m_nCurSize)
    (recv : ∀ u, (s'.writers u).m_nRecvPackets = (s.writers u).m_nRecvPackets)
    (writed : ∀ u, (s'.writers u).m_nWritedPackets = (s.writers u).m_nWritedPackets)
    (memory : s'.memory = s.memory) (writing : s'.writing = s.writing)
    (payloads : s'.payloads = s.payloads)
    (imported : s'.imported = s.imported) : Busy clean s' w extra bs := by
  refine ⟨kept, ⟨fun u b' => by rw [buf]; exact busy.caches.mine u b',
    fun u v b' => by rw [buf, buf]; exact busy.caches.apart u v b',
    fun u => by rw [buf, size]; exact busy.caches.filled u⟩, fun u => ?_⟩
  obtain ⟨stream, counted⟩ := busy.writes u
  refine ⟨?_, fun now => ?_⟩
  · rw [payloads, imported, cached_congr (buf u) (size u) fun _ _ => by rw [memory], stream]
  · rw [recv, writed, size, counted now, inFlight, inFlight, writing]

/-- InitObject of a writer that has not been used. -/
theorem opens (busy : Busy clean s w [] bs) (unused : s.writers w = constructed)
    (accepts : api.Accepts)
    (named : Bool) (m_hFileDest : Option Nat) :
      Busy clean (initObject api s w named m_hFileDest).1 w [] bs := by
  have fields (f : FileWriter → FileWriter) (buf : (f constructed).m_pCurBuf = none)
      (size : (f constructed).m_nCurSize = 0) (recv : (f constructed).m_nRecvPackets = 0)
      (writed : (f constructed).m_nWritedPackets = 0) : Busy clean (s.set w f) w [] bs := by
    refine busy.congr (busy.kept.congr ⟨rfl, rfl⟩ ⟨rfl, rfl, rfl⟩ rfl rfl) (fun u => ?_)
      (fun u => ?_) (fun u => ?_)
      (fun u => ?_) rfl rfl rfl rfl <;> by_cases this : u = w
    all_goals first
      | (subst this; rw [set_self, unused]; assumption)
      | rw [set_other this]
  cases named with
  | false => exact busy
  | true =>
    cases m_hFileDest with
    | none => exact fields (fun o => { o with m_hFileDest := none }) rfl rfl rfl rfl
    | some file =>
      have opened := fields (fun o => { { o with m_hFileDest := some file } with
        m_nRecvPackets := 0, m_nWritedPackets := 0 }) rfl rfl rfl rfl
      simp only [initObject, Bool.not_true, Bool.false_eq_true, if_false, reduceCtorEq,
        set_set, accepts.newBuf,
        accepts.nextBuf, accepts.newReq]
      exact opened.congr ((opened.kept.stockBuf.stockBuf).stockReq w) (fun _ => rfl)
        (fun _ => rfl) (fun _ => rfl)
        (fun _ => rfl) rfl rfl rfl rfl

end Busy

theorem set_opened {f : FileWriter → FileWriter}
    (file : (f (s.writers w)).m_hFileDest = (s.writers w).m_hFileDest) :
    opened (s.set w f) = opened s := by
  refine Prod.ext rfl (funext fun u => ?_)
  by_cases this : u = w
  · subst this
    simpa [opened] using file
  · simp only [opened, set_other this]

/-- What a completion changes of a writer are its counters. -/
theorem consumeReq_writers (error : Bool) (u : W) :
    ((consumeReq s w error q).writers u).m_nCurSize = (s.writers u).m_nCurSize ∧
      ((consumeReq s w error q).writers u).m_hFileDest = (s.writers u).m_hFileDest := by
  by_cases this : u = w
  · subst this
    cases error <;> simp [consumeReq]
  · cases error <;> simp [consumeReq, set_other this]

theorem consumeReq_imported {error : Bool} : (consumeReq s w error q).imported = s.imported := by
  cases error <;> rfl

theorem writeCurBuf_opened : opened (s.writeCurBuf api w).1 = opened s := by
  have took (req : IOReq W) : opened (s.takeReq api.newReq req).1 = opened s := by
    simp only [takeReq]
    split
    · rfl
    · split <;> rfl
  have wrote (s : Files W) (q : Req) : opened (s.writeFile api.writeFile w q).1 = opened s := by
    simp only [writeFile]
    split
    · split <;> rfl
    · rfl
  simp only [writeCurBuf]
  split
  · rename_i s₁ at_
    exact (congrArg opened (congrArg Prod.fst at_)).symm.trans (took _)
  · rename_i s₁ q at_
    rw [set_opened (by rfl)]
    have first := (congrArg opened (congrArg Prod.fst at_)).symm.trans (took _)
    split
    · exact (wrote s₁ q).trans first
    · exact (wrote s₁ q).trans first

theorem writeCurBuf_opened_of {s₁ : Files W} {r : Option Bool}
    (wrote : s.writeCurBuf api w = (s₁, r)) :
    opened s₁ = opened s := by
  have same : opened (s.writeCurBuf api w).1 = opened s := writeCurBuf_opened
  rwa [wrote] at same

theorem flush_opened : opened (flush api s w).state = opened s := by
  simp only [flush]
  split
  · split
    · rename_i wrote
      exact writeCurBuf_opened_of wrote
    · rename_i wrote
      rw [set_opened (by rfl)]
      exact writeCurBuf_opened_of wrote
  · exact set_opened (by rfl)

/-- Whatever firstBuf returns, and whatever nextBuf returns. -/
theorem firstBuf_opened (api : Api) (s : Files W) (w : W) : match firstBuf api s w with
    | .error failed => opened failed.state = opened s
    | .ok s' => opened s' = opened s := by
  by_cases empty : (s.writers w).m_pCurBuf = none
  · rcases took : s.takeBuf api.newBuf with ⟨s₁, _ | b⟩
    · simp only [firstBuf, if_pos empty, took]
      exact takeBuf_opened_of took
    · simp only [firstBuf, if_pos empty, took]
      exact (set_opened (by rfl)).trans (takeBuf_opened_of took)
  · simp only [firstBuf, if_neg empty]

theorem nextBuf_opened (api : Api) (s : Files W) (w : W) (datasize : Nat) :
    match nextBuf api s w datasize with
    | .error failed => opened failed.state = opened s
    | .ok (s', _) => opened s' = opened s := by
  by_cases full : (s.writers w).m_nCurSize + datasize > WFILEBUFSIZE
  · rcases wrote : s.writeCurBuf api w with ⟨s₁, _ | returned⟩
    · simp only [nextBuf, if_pos full, wrote]
      exact writeCurBuf_opened_of wrote
    · rcases took : s₁.takeBuf api.nextBuf with ⟨s₂, _ | b⟩
      · simp only [nextBuf, if_pos full, wrote, took]
        exact (set_opened (by rfl)).trans
          ((takeBuf_opened_of took).trans (writeCurBuf_opened_of wrote))
      · simp only [nextBuf, if_pos full, wrote, took]
        exact (set_opened (by rfl)).trans
          ((takeBuf_opened_of took).trans (writeCurBuf_opened_of wrote))
  · simp only [nextBuf, if_neg full]

theorem importData_opened : opened (importData api s w data).state =
    (Function.update s.imported w (s.imported w ++ data), (opened s).2) := by
  have received : opened (receive s w data) =
      (Function.update s.imported w (s.imported w ++ data), (opened s).2) := by
    rw [receive, set_opened (by rfl)]
    rfl
  rw [← received]
  simp only [importData]
  split
  · rfl
  split
  · exact flush_opened
  have first := firstBuf_opened api (receive s w data) w
  split
  · rename_i failed at_
    rwa [at_] at first
  · rename_i s₁ at_
    rw [at_] at first
    have next := nextBuf_opened api s₁ w data.length
    split
    · rename_i failed at_
      rw [at_] at next
      exact next.trans first
    · rename_i s₂ returned at_
      rw [at_] at next
      refine Eq.trans ?_ (next.trans first)
      simp only [append]
      split
      · exact (set_opened (by rfl)).trans rfl
      · rfl

/-- Calls of the owner of writers, packets and flushes, and completions of WriteFile. -/
inductive Event (W : Type) where
  | init (w : W) (named : Bool) (m_hFileDest : Option Nat) (api : Api)
  | importData (w : W) (data : List Byte) (api : Api)
  | complete (f : Write W) (error : Bool)

def next (s : Files W) : Event W → Option (Files W)
  | .init w named m_hFileDest api => some (initObject api s w named m_hFileDest).1
  | .importData w data api => some (importData api s w data).state
  | .complete f error => if f ∈ s.writing then some (complete s f error) else none

/-- Before the first call. What the buffers will hold when they are allocated is not known. -/
structure Unused (s : Files W) : Prop where
  writers : ∀ w, s.writers w = constructed
  bufs : s.m_BufList = ⟨[], 0⟩ ∧ s.newBufs = 0
  requests : s.m_IOReqList = ⟨[], 0⟩ ∧ s.newReqs = 0
  memory : ∀ b, (s.memory b).length = WFILEBUFSIZE
  writing : s.writing = []
  history : ∀ w, s.payloads w = [] ∧ s.imported w = []

def system (W : Type) [DecidableEq W] : System (Files W) (Event W) where
  initial := Unused
  next := next

/-- InitObject is called on new writers, packets fit into a buffer and come when the file is
open, there is memory, and each WriteFile is accepted and completes without error. -/
def Proper (s : Files W) : Event W → Prop
  | .init w _ _ api => s.writers w = constructed ∧ api.Accepts
  | .importData w data api => (s.writers w).m_hFileDest ≠ none ∧
    data.length ≤ WFILEBUFSIZE ∧ api.Accepts
  | .complete _ error => error = false

/-- What w gave to WriteFile, and then what it caches, is what it was given; WriteFile
finds in a buffer what was in it at the call; the counters agree; and nothing is cached
beyond the end of a buffer. -/
structure Written (s : Files W) (w : W) : Prop where
  stream : (s.payloads w).flatten ++ cached s w = s.imported w
  intact : ∀ f ∈ s.writing, s.memory f.buf = f.contents
  counted : (s.writers w).m_nRecvPackets =
    (s.writers w).m_nWritedPackets + BitVec.ofNat 32 (inFlight s w + (s.writers w).m_nCurSize)
  within : (s.writers w).m_nCurSize ≤ WFILEBUFSIZE ∧ ∀ b, (s.memory b).length = WFILEBUFSIZE

omit [DecidableEq W] in
theorem Unused.kept (unused : Unused s) : Kept s [] [] := by
  obtain ⟨-, ⟨bufs, newBufs⟩, ⟨requests, newReqs⟩, memory, writing, -⟩ := unused
  refine ⟨?_, ?_, by simp [writing], memory, by simp [writing]⟩
  · rw [bufs, newBufs, writing]
    exact .refl _
  · rw [requests, newReqs, writing]
    exact .refl _

theorem Unused.busy (unused : Unused s) (w : W) : Busy clean s w [] [] := by
  refine ⟨unused.kept, ⟨?_, ?_, ?_⟩, fun u => ?_⟩
  · simp [unused.writers, constructed]
  · simp [unused.writers, constructed]
  · simp [unused.writers, constructed]
  · constructor
    · simp [unused.history, cached, unused.writers, constructed]
    · simp [inFlight, unused.writing, unused.writers, constructed]

/-- One call keeps the invariant. -/
theorem Busy.next (busy : Busy clean s w [] bs) {e : Event W} (proper : Proper s e)
    (taken : next s e = some s') :
    ∃ bs', Busy clean s' w [] bs' := by
  cases e with
  | init v named m_hFileDest api =>
    cases taken
    exact ⟨bs, ((busy.rest v).opens proper.1 proper.2 named m_hFileDest).rest w⟩
  | importData v data api =>
    obtain ⟨s₁, bs', imported, busy, -⟩ := (busy.rest v).imports proper.2.2 proper.1 proper.2.1
    simp only [File.next, imported, Option.some.injEq] at taken
    subst taken
    exact ⟨bs', busy.rest w⟩
  | complete f error =>
    obtain rfl : error = false := proper
    simp only [File.next] at taken
    split at taken
    · rename_i member
      cases taken
      exact ⟨bs, busy.completes member fun _ => rfl⟩
    · contradiction

theorem stream_written (run : (system W).ReachableUnder Proper s) (w : W) : Written s w := by
  obtain ⟨bs, busy⟩ : ∃ bs, Busy True s w [] bs := by
    refine run.invariant (P := fun s => ∃ bs, Busy True s w [] bs)
      (fun s (unused : Unused s) => ⟨[], unused.busy w⟩) ?_
    rintro s e s' ⟨bs, busy⟩ proper taken
    exact busy.next proper taken
  obtain ⟨stream, counted⟩ := busy.writes w
  refine ⟨?_, busy.kept.intact, ?_, (busy.caches.filled w).1, busy.kept.sized⟩
  · simpa using stream
  · simpa using counted trivial

instance (api : Api) : Decidable api.Accepts :=
  decidable_of_iff (api.newBuf = true ∧ api.newReq = true ∧ api.nextBuf = true ∧
      api.writeFile ≠ .failed)
    ⟨fun ⟨a, b, c, d⟩ => ⟨a, b, c, d⟩, fun ⟨a, b, c, d⟩ => ⟨a, b, c, d⟩⟩

instance (s : Files W) : (e : Event W) → Decidable (Proper s e)
  | .init w _ _ api => inferInstanceAs (Decidable (s.writers w = constructed ∧ api.Accepts))
  | .importData w data api => inferInstanceAs
      (Decidable ((s.writers w).m_hFileDest ≠ none ∧ data.length ≤ WFILEBUFSIZE ∧ api.Accepts))
  | .complete _ error => inferInstanceAs (Decidable (error = false))

def accepting : Api :=
  ⟨true, true, true, .pending⟩

def unused : Files Bool :=
  ⟨fun _ => constructed, ⟨[], 0⟩, 0, fun _ => List.replicate WFILEBUFSIZE 0, ⟨[], 0⟩, 0,
    fun _ => ⟨false, none, 0, 0, 0, 0⟩, [], fun _ => [], fun _ => []⟩

theorem unused_unused : Unused unused :=
  ⟨fun _ => rfl, ⟨rfl, rfl⟩, ⟨rfl, rfl⟩, fun _ => List.length_replicate, rfl, fun _ => ⟨rfl, rfl⟩⟩

/-- Two writers share the lists; the last packet of the first one does not fit any more. -/
def importing (full : List Byte) : List (Event Bool) :=
  [.init false true (some 3) accepting, .init true true (some 4) accepting,
    .importData true [9] accepting, .importData false full accepting,
    .importData false [1] accepting]

theorem importing_runs {full : List Byte} (size : full.length = WFILEBUFSIZE) :
    ∃ s, (system Bool).runUnder Proper unused (importing full) = some s ∧
      s.payloads false = [full] ∧ (s.writers false).m_nCurSize = 1 ∧
        s.imported false = full ++ [1] := by
  have accepts : accepting.Accepts := by decide
  have one : 1 ≤ WFILEBUFSIZE := by decide
  have some_ : WFILEBUFSIZE ≠ 0 := by decide
  have whole : full.take WFILEBUFSIZE = full := List.take_of_length_le size.le
  simp [importing, System.runUnder, system, Proper, next, initObject, unused, constructed,
    accepts, Files.set, stockReq, stockBuf, size, importData, receive, firstBuf, Files.takeBuf,
    BiList.popHead, BiList.pushTail, BiList.allocated, nextBuf, append, store,
    Files.writeCurBuf, Files.takeReq, Files.writeFile, one, some_, whole, accepts.newBuf,
    accepts.newReq, accepts.nextBuf, accepts.writeFile]

theorem stream_written_swapping : ∃ (s : Files Bool) (full : List Byte),
    full.length = WFILEBUFSIZE ∧ s.payloads false = [full] ∧
      s.imported false = full ++ [1] ∧ Written s false := by
  have size : (List.replicate WFILEBUFSIZE (7 : Byte)).length = WFILEBUFSIZE :=
    List.length_replicate
  obtain ⟨s, ran, payloads, -, imported⟩ := importing_runs size
  exact ⟨s, _, size, payloads, imported, stream_written
    (System.runUnder_reachable (.initial unused_unused) ran) false⟩

end TestIOCP.File
