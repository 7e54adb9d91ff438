import TestIOCP.File.Writer

/-! What ImportData does with the buffer of its caller, which counts the references to it:
the buffer has to come back once, and may not be read any more after that. -/
namespace TestIOCP.File
open CString (Byte)
open Files

variable {W : Type} {s s' : Files W} {w : W} {api : Api} {data : List Byte}

/-- memcpy from pdatabuf, and ReturnBuf of pdatabuf. -/
inductive Use where
  | read
  | returned
  deriving DecidableEq, Repr

/-- After the buffer is returned for the first time, nothing is done with it any more. -/
def ReturnedOnce (uses : List Use) : Prop :=
  uses.dropWhile (· ≠ .returned) = [.returned]

instance (uses : List Use) : Decidable (ReturnedOnce uses) :=
  inferInstanceAs (Decidable (_ = _))

/-- m_nCurSize + datasize > WFILEBUFSIZE, in 32 bits. -/
def full (m_nCurSize datasize : Nat) : Bool :=
  (WFILEBUFSIZE : Int) < (BitVec.ofNat 32 (m_nCurSize + datasize)).toInt

def rejectedUses (rejected : Bool) : List Use :=
  if rejected then [.returned] else []

/-- The list has a buffer, or there is memory for one. -/
def BufAvailable (api : Api) (s : Files W) : Prop :=
  s.m_BufList.popHead.2 ≠ none ∨ api.newBuf = true

def ReqAvailable (api : Api) (s : Files W) : Prop :=
  s.m_IOReqList.popHead.2 ≠ none ∨ api.newReq = true

theorem takeBuf_none (api : Api) : (s.takeBuf api.newBuf).2 = none ↔ ¬ BufAvailable api s := by
  rw [takeBuf, BufAvailable]
  cases popped : s.m_BufList.popHead with
  | mk list head =>
    cases head with
    | some b => simp
    | none =>
      cases available : api.newBuf with
      | true => simp
      | false => simp

theorem takeReq_none (api : Api) (req : IOReq W) :
    (s.takeReq api.newReq req).2 = none ↔ ¬ ReqAvailable api s := by
  rw [takeReq, ReqAvailable]
  cases popped : s.m_IOReqList.popHead with
  | mk list head =>
    cases head with
    | some q => simp
    | none =>
      cases available : api.newReq with
      | true => simp
      | false => simp

theorem takeReq_writers (available : Bool) (req : IOReq W) :
    (s.takeReq available req).1.writers = s.writers := by
  rw [takeReq]
  cases popped : s.m_IOReqList.popHead with
  | mk list head =>
    cases head with
    | some q => rfl
    | none =>
      cases available with
      | true => rfl
      | false => rfl

theorem takeBuf_requests (available : Bool) :
    (s.takeBuf available).1.m_IOReqList = s.m_IOReqList := by
  rw [takeBuf]
  cases popped : s.m_BufList.popHead with
  | mk list head =>
    cases head with
    | some b => rfl
    | none =>
      cases available with
      | true => rfl
      | false => rfl

variable [DecidableEq W]

/-- The uses of pdatabuf in a call of ImportData with a pbufsource, in their order. -/
def uses (api : Api) (s : Files W) (w : W) (data : List Byte) : List Use :=
  let s := receive s w data
  if (s.writers w).m_hFileDest = none then
    if data.length = 0 then [] else [.returned]
  else if data.length = 0 then
    if 0 < (s.writers w).m_nCurSize then
      match (s.writeCurBuf api w).2 with
      | none => [.returned]
      | some rejected => rejectedUses rejected
    else []
  else
    match firstBuf api s w with
    | .error _ => [.returned]
    | .ok s =>
      if full (s.writers w).m_nCurSize data.length then
        match s.writeCurBuf api w with
        | (_, none) => [.returned]
        | (s, some rejected) =>
          -- the branch of a rejected write does not leave the function
          rejectedUses rejected ++
            match (s.takeBuf api.nextBuf).2 with
            | none => [.returned]
            | some _ => [.read, .returned]
      else [.read, .returned]

/-- An end of stream with something to flush that cannot be written, or a packet that is
not copied after a rejected write. -/
def Orderly (api : Api) (s : Files W) (w : W) (data : List Byte) : Prop :=
  let this := s.writers w
  if data.length = 0 then
    this.m_hFileDest ≠ none ∧ 0 < this.m_nCurSize ∧
      (¬ ReqAvailable api s ∨ this.m_pCurBuf = none ∨ api.writeFile = .failed)
  else
    this.m_hFileDest = none ∨ (this.m_pCurBuf = none ∧ ¬ BufAvailable api s) ∨
      full (if this.m_pCurBuf = none then 0 else this.m_nCurSize) data.length = false ∨
      ¬ ReqAvailable api s ∨ api.writeFile ≠ .failed

/-- WriteFile takes no missing buffer. -/
theorem writeFile_rejects (outcome : Outcome) (pOverlap : Req) :
    (s.writeFile outcome w pOverlap).2 = false ↔
      (s.writers w).m_pCurBuf = none ∨ outcome = .failed := by
  rw [writeFile]
  cases buf : (s.writers w).m_pCurBuf with
  | none => simp
  | some b => cases outcome <;> simp

/-- No request, a write that is rejected, or one that is accepted. -/
inductive Wrote (api : Api) (s : Files W) (w : W) : Option Bool → Prop where
  | unavailable : ¬ ReqAvailable api s → Wrote api s w none
  | rejected : ReqAvailable api s →
      (s.writers w).m_pCurBuf = none ∨ api.writeFile = .failed → Wrote api s w (some true)
  | accepted : ReqAvailable api s →
      (s.writers w).m_pCurBuf ≠ none → api.writeFile ≠ .failed → Wrote api s w (some false)

theorem writeCurBuf_wrote (api : Api) (s : Files W) (w : W) :
    Wrote api s w (s.writeCurBuf api w).2 := by
  rw [writeCurBuf]
  generalize IOReq.mk w (s.writers w).m_pCurBuf WFILEBUFSIZE (s.writers w).m_nCurSize 0xffffffff
    0xffffffff = req
  have none_iff := takeReq_none (s := s) api req
  have writers := takeReq_writers (s := s) api.newReq req
  cases took : s.takeReq api.newReq req with
  | mk s₁ pOverlap =>
    rw [took] at none_iff writers
    simp only at none_iff writers
    cases pOverlap with
    | none => exact .unavailable (none_iff.mp rfl)
    | some pOverlap =>
      have available : ReqAvailable api s := by
        by_contra missing
        cases none_iff.mpr missing
      have rejects := writeFile_rejects (s := s₁) (w := w) api.writeFile pOverlap
      rw [writers] at rejects
      simp only
      cases bsuc : (s₁.writeFile api.writeFile w pOverlap).2 with
      | true =>
        have accepted := mt rejects.mpr (by rw [bsuc]; decide)
        exact .accepted available (accepted ∘ .inl) (accepted ∘ .inr)
      | false => exact .rejected available (rejects.mp bsuc)

/-- There is no memory for the first buffer, or the packet goes behind what is cached. -/
inductive First (api : Api) (s : Files W) (w : W) : Except (Result W) (Files W) → Prop where
  | failed (result : Result W) : (s.writers w).m_pCurBuf = none → ¬ BufAvailable api s →
      result.returned = 1 → First api s w (.error result)
  | ready (s' : Files W) : ((s.writers w).m_pCurBuf = none → BufAvailable api s) →
      (s'.writers w).m_pCurBuf ≠ none →
      (s'.writers w).m_nCurSize =
        (if (s.writers w).m_pCurBuf = none then 0 else (s.writers w).m_nCurSize) →
      s'.m_IOReqList = s.m_IOReqList → First api s w (.ok s')

theorem firstBuf_first (api : Api) (s : Files W) (w : W) : First api s w (firstBuf api s w) := by
  rw [firstBuf]
  cases buf : (s.writers w).m_pCurBuf with
  | some b =>
    rw [if_neg (by simp)]
    exact .ready s (by simp [buf]) (by simp [buf]) (by simp [buf]) rfl
  | none =>
    rw [if_pos rfl]
    have none_iff := takeBuf_none (s := s) api
    have requests := takeBuf_requests (s := s) api.newBuf
    cases took : s.takeBuf api.newBuf with
    | mk s₁ m_pCurBuf =>
      rw [took] at none_iff requests
      cases m_pCurBuf with
      | none => exact .failed _ buf (none_iff.mp rfl) rfl
      | some b =>
        have available : BufAvailable api s := by
          by_contra missing
          cases none_iff.mpr missing
        refine .ready _ (fun _ => available) ?_ ?_ requests
        · simp [Files.set]
        · simp [Files.set, buf]

theorem receive_this (s : Files W) (w : W) (data : List Byte) :
    (receive s w data).writers w =
      { s.writers w with
        m_nRecvPackets := (s.writers w).m_nRecvPackets + BitVec.ofNat 32 data.length } :=
  Function.update_self _ _ _

/-- Only the count of the received bytes is new after the first line. -/
theorem orderly_receive (api : Api) (s : Files W) (w : W) (data : List Byte) :
    Orderly api (receive s w data) w data ↔ Orderly api s w data := by
  simp only [Orderly, receive_this]
  exact Iff.rfl

/-- A rejected write returns the buffer too early, and an accepted one leaves it to the
rest of the function. -/
theorem returnedOnce_next (rejected : Bool) (next : Option Buf) :
    ReturnedOnce (rejectedUses rejected ++
      match next with
      | none => [.returned]
      | some _ => [.read, .returned]) ↔ rejected = false := by
  cases rejected <;> cases next <;> simp [ReturnedOnce, rejectedUses]

/-- ImportData returns the buffer once, and last, exactly when the call is orderly. -/
theorem returnedOnce_iff (api : Api) (s : Files W) (w : W) (data : List Byte) :
    ReturnedOnce (uses api s w data) ↔ Orderly api s w data := by
  rw [← orderly_receive, uses, Orderly]
  generalize receive s w data = s
  by_cases open_ : (s.writers w).m_hFileDest = none
  · by_cases end_ : data.length = 0 <;> simp [open_, end_, ReturnedOnce]
  simp only [if_neg open_]
  by_cases end_ : data.length = 0
  · simp only [if_pos end_]
    by_cases cached : 0 < (s.writers w).m_nCurSize
    · simp only [if_pos cached]
      have wrote := writeCurBuf_wrote api s w
      generalize (s.writeCurBuf api w).2 = result at wrote ⊢
      cases wrote with
      | unavailable missing => simp [ReturnedOnce, open_, cached, missing]
      | rejected available rejects =>
        simp only [rejectedUses, ReturnedOnce]
        simpa [open_, cached] using .inr rejects
      | accepted available buf accepts =>
        simp [rejectedUses, ReturnedOnce, available, buf, accepts]
    · simp [ReturnedOnce, cached]
  · simp only [if_neg end_, open_, false_or]
    have first := firstBuf_first api s w
    generalize firstBuf api s w = result at first ⊢
    cases first with
    | failed result buf missing => simp [ReturnedOnce, buf, missing]
    | ready s₁ available current size requests =>
      have there : ¬ ((s.writers w).m_pCurBuf = none ∧ ¬ BufAvailable api s) := by
        rintro ⟨buf, missing⟩
        exact missing (available buf)
      have same : ReqAvailable api s₁ ↔ ReqAvailable api s := by
        rw [ReqAvailable, ReqAvailable, requests]
      simp only [there, false_or, size]
      cases fits : full (if (s.writers w).m_pCurBuf = none then 0 else
        (s.writers w).m_nCurSize) data.length with
      | false => simp [ReturnedOnce]
      | true =>
        have wrote := writeCurBuf_wrote api s₁ w
        cases result : s₁.writeCurBuf api w with
        | mk s₂ result =>
          rw [result] at wrote
          simp only [if_true, Bool.true_eq_false, false_or]
          cases wrote with
          | unavailable missing => simp [ReturnedOnce, mt same.mpr missing]
          | rejected available rejects =>
            have failed := rejects.resolve_left current
            simp only [returnedOnce_next]
            simp [same.mp available, failed]
          | accepted available buf accepts =>
            simp only [returnedOnce_next]
            simp [accepts]

/-- An open file of a writer that has cached some bytes. -/
def caching (m_nCurSize : Nat) : Files Unit :=
  ⟨fun _ => ⟨some 3, 0, 0, some 0, m_nCurSize, 0, 0⟩, ⟨[], 1⟩, 1, fun _ => [], ⟨[], 0⟩, 0,
    fun _ => ⟨(), none, 0, 0, 0, 0⟩, [], fun _ => [], fun _ => []⟩

/-- An empty datagram never comes back, and one that arrives when the write of a full
buffer is rejected comes back before it is read, and once more. -/
theorem not_returned_once :
    (uses ⟨true, true, true, .success⟩ (caching 0) () [] = [] ∧
      ¬ ReturnedOnce (uses ⟨true, true, true, .success⟩ (caching 0) () [])) ∧
    uses ⟨true, true, true, .failed⟩ (caching WFILEBUFSIZE) () [7] =
        [.returned, .read, .returned] ∧
      ¬ ReturnedOnce (uses ⟨true, true, true, .failed⟩ (caching WFILEBUFSIZE) () [7]) := by
  decide +kernel

/-- The calls of ReturnBuf are those that importData counts, if no sum leaves an int. -/
theorem count_returned (small : (s.writers w).m_nCurSize + data.length < 2 ^ 31) :
    (uses api s w data).count .returned = (importData api s w data).returned := by
  have size : ((receive s w data).writers w).m_nCurSize = (s.writers w).m_nCurSize := by
    rw [receive_this]
  rw [uses, importData]
  rw [← size] at small
  generalize receive s w data = s at small ⊢
  by_cases open_ : (s.writers w).m_hFileDest = none
  · by_cases end_ : data.length = 0 <;> simp [open_, end_]
  simp only [if_neg open_]
  by_cases end_ : data.length = 0
  · simp only [if_pos end_, flush]
    split
    · cases wrote : s.writeCurBuf api w with
      | mk s₁ result =>
        cases result with
        | none => rfl
        | some rejected => cases rejected <;> rfl
    · rfl
  · simp only [if_neg end_]
    have first := firstBuf_first api s w
    generalize firstBuf api s w = result at first ⊢
    cases first with
    | failed result buf missing once => simp [once]
    | ready s₁ available current size requests =>
      have least : (s₁.writers w).m_nCurSize ≤ (s.writers w).m_nCurSize := by
        rw [size]
        split <;> omega
      have fits : full (s₁.writers w).m_nCurSize data.length = true ↔
          (s₁.writers w).m_nCurSize + data.length > WFILEBUFSIZE := by
        have exact_ : (BitVec.ofNat 32 ((s₁.writers w).m_nCurSize + data.length)).toInt =
            ((s₁.writers w).m_nCurSize + data.length : Nat) := by
          have value : (BitVec.ofNat 32 ((s₁.writers w).m_nCurSize + data.length)).toNat =
              (s₁.writers w).m_nCurSize + data.length := by
            rw [BitVec.toNat_ofNat, Nat.mod_eq_of_lt (by omega)]
          rw [BitVec.toInt_eq_toNat_of_lt (by omega), value]
        rw [full, exact_, decide_eq_true_iff, Int.ofNat_lt, gt_iff_lt]
      simp only [nextBuf, fits]
      split
      · cases wrote : s₁.writeCurBuf api w with
        | mk s₂ result =>
          cases result with
          | none => rfl
          | some rejected =>
            cases took : s₂.takeBuf api.nextBuf with
            | mk s₃ next =>
              simp only [took]
              cases rejected <;> cases next <;> rfl
      · rfl

end TestIOCP.File
