import TestIOCP.File.Returns
import TestIOCP.File.Stream
import TestIOCP.Ledger

/-! Where the cache buffers are, and what m_nWriteNum counts, when memory may be short and
WriteFile may reject a write. -/
namespace TestIOCP.File
open Transition
open CString (Byte)
open Files

/-! ### The current buffers -/

section
variable {W : Type} {cur : W → Option Buf} {bs : List Buf} {w : W} {b : Buf}

/-- The buffers that are current ones, each of one writer. -/
structure Owned (cur : W → Option Buf) (bs : List Buf) : Prop where
  listed : ∀ b, b ∈ bs ↔ ∃ u, cur u = some b
  apart : ∀ u v b, cur u = some b → cur v = some b → u = v

variable [DecidableEq W]

theorem Owned.put (owned : Owned cur bs) (empty : cur w = none) (fresh : b ∉ bs) :
    Owned (Function.update cur w (some b)) (b :: bs) := by
  have differ {u : W} {b' : Buf} (at_ : cur u = some b') : u ≠ w ∧ b' ≠ b := by
    refine ⟨fun same => ?_, fun same => ?_⟩
    · rw [same, empty] at at_
      cases at_
    · exact fresh ((owned.listed b).mpr ⟨u, same ▸ at_⟩)
  have cases {u : W} {b' : Buf} (at_ : Function.update cur w (some b) u = some b') :
      (u = w ∧ b' = b) ∨ cur u = some b' := by
    by_cases this : u = w
    · subst this
      rw [Function.update_self, Option.some.injEq] at at_
      exact .inl ⟨rfl, at_.symm⟩
    · rw [Function.update_of_ne this] at at_
      exact .inr at_
  constructor
  · intro b'
    rw [List.mem_cons, owned.listed]
    constructor
    · rintro (rfl | ⟨u, at_⟩)
      · exact ⟨w, Function.update_self _ _ _⟩
      · exact ⟨u, by rw [Function.update_of_ne (differ at_).1, at_]⟩
    · rintro ⟨u, at_⟩
      exact (cases at_).imp And.right fun at_ => ⟨u, at_⟩
  · intro u v b' at_ at'
    rcases cases at_ with ⟨rfl, rfl⟩ | before
    all_goals rcases cases at' with ⟨rfl, same⟩ | before'
    · rfl
    · exact absurd rfl (differ before').2
    · exact absurd same (differ before).2
    · exact owned.apart u v b' before before'

theorem Owned.clear (owned : Owned cur bs) (once : bs.Nodup) (current : cur w = some b) :
    Owned (Function.update cur w none) (bs.erase b) := by
  have cases {u : W} {b' : Buf} : Function.update cur w none u = some b' ↔
      u ≠ w ∧ cur u = some b' := by
    by_cases this : u = w
    · subst this
      simp
    · rw [Function.update_of_ne this, and_iff_right this]
  constructor
  · intro b'
    rw [once.mem_erase_iff, owned.listed]
    constructor
    · rintro ⟨other, u, at_⟩
      refine ⟨u, cases.mpr ⟨?_, at_⟩⟩
      rintro rfl
      rw [current, Option.some.injEq] at at_
      exact other at_.symm
    · rintro ⟨u, at_⟩
      obtain ⟨this, at_⟩ := cases.mp at_
      refine ⟨fun same => this ?_, u, at_⟩
      exact owned.apart u w b (same ▸ at_) current
  · intro u v b' at_ at'
    exact owned.apart u v b' (cases.mp at_).2 (cases.mp at').2

end

variable {W : Type} {s s' : Files W} {w : W} {b : Buf} {bs : List Buf} {q : Req}
  {qs : List Req} {data : List Byte} {api : Api}

/-! ### The lists when memory may be short -/

/-- A call that finds no element and no memory changes nothing. -/
theorem Kept.takesBuf (kept : Kept s bs qs) (available : Bool) :
    (∃ s' b, s.takeBuf available = (s', some b) ∧ Kept s' (b :: bs) qs ∧ b ∉ bs ∧ Aside s s') ∨
      s.takeBuf available = (s, none) := by
  cases available with
  | true => exact .inl kept.takeBuf
  | false =>
    rcases popHead_stocked kept.bufs with ⟨empty, popped⟩ | ⟨b, rest, list, popped⟩
    · exact .inr (by rw [Files.takeBuf, popped]; rfl)
    · have same : s.takeBuf false = s.takeBuf true := by rw [Files.takeBuf, Files.takeBuf, popped]
      exact .inl (same ▸ kept.takeBuf)

theorem Kept.takesReq (kept : Kept s bs qs) (available : Bool) (req : IOReq W) :
    (∃ s' q, s.takeReq available req = (s', some q) ∧ Kept s' bs (q :: qs) ∧ s'.reqs q = req ∧
        Aside s s') ∨
      s.takeReq available req = (s, none) := by
  cases available with
  | true => exact .inl (kept.takeReq req)
  | false =>
    rcases popHead_stocked kept.reqs with ⟨empty, popped⟩ | ⟨q, rest, list, popped⟩
    · exact .inr (by rw [Files.takeReq, popped]; rfl)
    · have same : s.takeReq false req = s.takeReq true req := by
        rw [Files.takeReq, Files.takeReq, popped]
      exact .inl (same ▸ kept.takeReq req)

/-- There is a request in the list or memory for one. -/
theorem Kept.takesReq_found (kept : Kept s bs qs) (found : ReqAvailable api s) (req : IOReq W) :
    ∃ s' q, s.takeReq api.newReq req = (s', some q) ∧ Kept s' bs (q :: qs) ∧ s'.reqs q = req ∧
      Aside s s' := by
  rcases kept.takesReq api.newReq req with took | none_
  · exact took
  · exact absurd found ((takeReq_none api req).mp (congrArg Prod.snd none_))

theorem Kept.takesReq_missing (kept : Kept s bs qs) (missing : ¬ ReqAvailable api s)
    (req : IOReq W) : s.takeReq api.newReq req = (s, none) := by
  rcases kept.takesReq api.newReq req with ⟨s', q, took, -⟩ | none_
  · have none_ := (takeReq_none api req).mpr missing
    rw [took] at none_
    cases none_
  · exact none_

variable [DecidableEq W]

theorem Kept.writeCurBuf_missing (kept : Kept s bs []) (missing : ¬ ReqAvailable api s) :
    s.writeCurBuf api w = (s, none) := by
  simp only [writeCurBuf, kept.takesReq_missing missing]

/-- The writes of w whose completion has not been consumed. -/
def writesInFlight (s : Files W) (w : W) : Nat :=
  s.writing.countP (·.writer = w)

def current (s : Files W) (w : W) : Option Buf :=
  (s.writers w).m_pCurBuf

def Counted (s : Files W) (w : W) : Prop :=
  (s.writers w).m_nWriteNum = (s.writers w).m_nWritedNum + BitVec.ofNat 32 (writesInFlight s w)

/-- The counters differ by the writes in flight, and between the calls a current buffer
holds something; w may be in the middle of one. -/
structure Tallied (s : Files W) (w : W) : Prop where
  counted : ∀ u, Counted s u
  filled : ∀ u, u ≠ w → current s u ≠ none → 0 < (s.writers u).m_nCurSize

/-- Every buffer has its place. -/
structure Placed (s : Files W) (w : W) (bs : List Buf) : Prop extends Tallied s w where
  kept : Kept s bs []
  owned : Owned (current s) bs

theorem current_set (f : FileWriter → FileWriter) :
    current (s.set w f) = Function.update (current s) w (f (s.writers w)).m_pCurBuf := by
  funext u
  by_cases this : u = w
  · subst this
    rw [current, set_self, Function.update_self]
  · rw [current, set_other this, Function.update_of_ne this]
    rfl

/-- What does not change the counters of w. -/
structure Uncounted (f : FileWriter → FileWriter) : Prop where
  write : ∀ o, (f o).m_nWriteNum = o.m_nWriteNum
  writed : ∀ o, (f o).m_nWritedNum = o.m_nWritedNum

theorem Tallied.set (tallied : Tallied s w) {f : FileWriter → FileWriter}
    (uncounted : Uncounted f) : Tallied (s.set w f) w := by
  constructor
  · intro u
    by_cases this : u = w
    · subst this
      rw [Counted, set_self, uncounted.write, uncounted.writed]
      exact tallied.counted u
    · rw [Counted, set_other this]
      exact tallied.counted u
  · intro u other some_
    rw [current, set_other other] at some_
    rw [set_other other]
    exact tallied.filled u other some_

omit [DecidableEq W] in
/-- Only the lists change. -/
theorem current_aside (aside : Aside s s') : current s' = current s := by
  funext u
  rw [current, aside.writers]
  rfl

theorem Tallied.aside (tallied : Tallied s w) (aside : Aside s s') : Tallied s' w := by
  constructor
  · intro u
    rw [Counted, writesInFlight, aside.writers, aside.writing]
    exact tallied.counted u
  · intro u other some_
    rw [current_aside aside] at some_
    rw [aside.writers]
    exact tallied.filled u other some_

namespace Placed

/-- Some fields of w are written. -/
theorem of_set (tallied : Tallied s w) (kept : Kept s bs []) {f : FileWriter → FileWriter}
    (uncounted : Uncounted f)
    (owned : Owned (Function.update (current s) w (f (s.writers w)).m_pCurBuf) bs) :
    Placed (s.set w f) w bs := by
  refine ⟨tallied.set uncounted, kept.congr ⟨rfl, rfl⟩ ⟨rfl, rfl, rfl⟩ rfl rfl, ?_⟩
  rwa [current_set]

/-- The writer has no current buffer, and takes one if there is one. -/
theorem takes (placed : Placed s w bs) (empty : current s w = none) (available : Bool) :
    (∃ s' b, s.takeBuf available = (s', some b) ∧
      Placed (s'.set w fun o => { o with m_pCurBuf := some b, m_nCurSize := 0 }) w (b :: bs)) ∨
      s.takeBuf available = (s, none) := by
  rcases placed.kept.takesBuf available with ⟨s', b, took, kept, fresh, aside⟩ | none_
  · refine .inl ⟨s', b, took, of_set (placed.aside aside) kept ⟨fun _ => rfl, fun _ => rfl⟩ ?_⟩
    rw [current_aside aside]
    exact placed.owned.put empty fresh
  · exact .inr none_

/-- The current buffer is forgotten when there is none. -/
theorem clears (placed : Placed s w bs) (empty : current s w = none) (size : Nat → Nat) :
    Placed (s.set w fun o => { o with m_pCurBuf := none, m_nCurSize := size o.m_nCurSize })
      w bs := by
  refine of_set placed.toTallied placed.kept ⟨fun _ => rfl, fun _ => rfl⟩ ?_
  rw [← empty, Function.update_eq_self]
  exact placed.owned

/-- Fields that say nothing of the buffers are written. -/
theorem keeps (placed : Placed s w bs) {f : FileWriter → FileWriter} (uncounted : Uncounted f)
    (buf : ∀ o, (f o).m_pCurBuf = o.m_pCurBuf) : Placed (s.set w f) w bs := by
  refine of_set placed.toTallied placed.kept uncounted ?_
  have same : Function.update (current s) w (f (s.writers w)).m_pCurBuf = current s := by
    rw [buf]
    exact Function.update_eq_self w (current s)
  rw [same]
  exact placed.owned

/-- A packet comes in. -/
theorem receives (placed : Placed s w bs) (data : List Byte) :
    Placed (receive s w data) w bs := by
  have noted : Placed { s with
      imported := Function.update s.imported w (s.imported w ++ data) } w bs :=
    ⟨⟨placed.counted, placed.filled⟩, placed.kept.congr ⟨rfl, rfl⟩ ⟨rfl, rfl, rfl⟩ rfl rfl,
      placed.owned⟩
  exact noted.keeps ⟨fun _ => rfl, fun _ => rfl⟩ fun _ => rfl

/-- The packet is copied behind what the current buffer holds. -/
theorem appends (placed : Placed s w bs) (cur : current s w = some b)
    (fits : (s.writers w).m_nCurSize + data.length ≤ WFILEBUFSIZE) :
    Placed (append s w data) w bs ∧
      ((append s w data).writers w).m_nCurSize = (s.writers w).m_nCurSize + data.length := by
  have mine : b ∈ bs := (placed.owned.listed b).mpr ⟨w, cur⟩
  have filled : Placed { s with
      memory := Function.update s.memory b (store (s.memory b) (s.writers w).m_nCurSize data) }
      w bs :=
    ⟨⟨placed.counted, placed.filled⟩, placed.kept.fill mine fits, placed.owned⟩
  rw [current] at cur
  simp only [append, cur]
  refine ⟨filled.keeps ⟨fun _ => rfl, fun _ => rfl⟩ fun _ => rfl, ?_⟩
  rw [set_self]

/-- The writer hands its current buffer over to WriteFile. -/
theorem writesOut (placed : Placed s w bs) (cur : current s w = some b)
    (found : ReqAvailable api s) (accepted : api.writeFile ≠ .failed) (size : Nat → Nat) :
    ∃ s', s.writeCurBuf api w = (s', some false) ∧
      Placed (s'.set w fun o => { o with m_pCurBuf := none, m_nCurSize := size o.m_nCurSize }) w
        (bs.erase b) := by
  have mine : b ∈ bs := (placed.owned.listed b).mpr ⟨w, cur⟩
  obtain ⟨s₁, q, took, kept₁, noted, aside⟩ := placed.kept.takesReq_found found
    ⟨w, some b, WFILEBUFSIZE, (s.writers w).m_nCurSize, 0xffffffff, 0xffffffff⟩
  obtain ⟨s', wrote, kept, writers, -, writing, -, -⟩ :=
    writeCurBuf_spec kept₁ took noted aside accepted cur mine
  have same : current s' = current s := by
    funext u
    rw [current, writers]
    exact congrFun (current_set fun o => { o with m_nWriteNum := o.m_nWriteNum + 1 }) u |>.trans
      (congrFun (Function.update_eq_self w (current s)) u)
  have tallied : Tallied s' w := by
    constructor
    · intro u
      have before := placed.counted u
      rw [Counted, writesInFlight] at before ⊢
      rw [writers, writing]
      by_cases this : u = w
      · subst this
        rw [set_self, List.countP_cons_of_pos (by simp)]
        simp only [before, BitVec.ofNat_add, BitVec.add_assoc]
        rfl
      · rw [set_other this, List.countP_cons_of_neg (by simpa using Ne.symm this)]
        exact before
    · intro u other some_
      rw [same] at some_
      rw [writers, set_other other]
      exact placed.filled u other some_
  refine ⟨s', wrote, of_set tallied kept ⟨fun _ => rfl, fun _ => rfl⟩ ?_⟩
  rw [same]
  exact placed.owned.clear placed.kept.once cur

end Placed

/-! ### The calls -/

/-- WriteFile is called and rejects the write; it takes no missing buffer. A packet is no
longer than a buffer, so only a buffer that there is gets full. -/
def Rejects (api : Api) (s : Files W) (w : W) (data : List Byte) : Prop :=
  let this := s.writers w
  this.m_hFileDest ≠ none ∧ ReqAvailable api s ∧
    if data.length = 0 then
      0 < this.m_nCurSize ∧ (this.m_pCurBuf = none ∨ api.writeFile = .failed)
    else
      this.m_pCurBuf ≠ none ∧ WFILEBUFSIZE < this.m_nCurSize + data.length ∧
        api.writeFile = .failed

theorem rejects_receive (api : Api) (s : Files W) (w : W) (data : List Byte) :
    Rejects api (receive s w data) w data ↔ Rejects api s w data := by
  simp only [Rejects, receive_this]
  exact Iff.rfl

/-- Between the calls. -/
structure Rested (s : Files W) (bs : List Buf) : Prop where
  kept : Kept s bs []
  owned : Owned (current s) bs
  counted : ∀ u, Counted s u
  filled : ∀ u, current s u ≠ none → 0 < (s.writers u).m_nCurSize

theorem Rested.placed (rested : Rested s bs) (w : W) : Placed s w bs :=
  ⟨⟨rested.counted, fun u _ => rested.filled u⟩, rested.kept, rested.owned⟩

theorem Placed.rested (placed : Placed s w bs)
    (filled : current s w ≠ none → 0 < (s.writers w).m_nCurSize) : Rested s bs := by
  refine ⟨placed.kept, placed.owned, placed.counted, fun u some_ => ?_⟩
  by_cases this : u = w
  · subst this
    exact filled some_
  · exact placed.filled u this some_

/-- Without a current buffer a writer may rest. -/
theorem Placed.rested_empty {f : FileWriter → FileWriter} (placed : Placed (s.set w f) w bs)
    (empty : ∀ o, (f o).m_pCurBuf = none) : Rested (s.set w f) bs := by
  refine placed.rested fun some_ => absurd ?_ some_
  rw [current, set_self, empty]

namespace Rested

theorem receives (rested : Rested s bs) (data : List Byte) : Rested (receive s w data) bs := by
  refine ((rested.placed w).receives data).rested fun some_ => ?_
  rw [current, receive_this] at some_
  rw [receive_this]
  exact rested.filled w some_

/-- A flush leaves no current buffer, or everything as it is. -/
theorem flushes (rested : Rested s bs) (orderly : ReqAvailable api s →
      0 < (s.writers w).m_nCurSize → current s w ≠ none ∧ api.writeFile ≠ .failed) :
    ∃ bs', Rested (flush api s w).state bs' := by
  rw [flush]
  by_cases some_ : 0 < (s.writers w).m_nCurSize
  · rw [if_pos some_]
    by_cases found : ReqAvailable api s
    · obtain ⟨there, accepted⟩ := orderly found some_
      obtain ⟨b, cur⟩ := Option.ne_none_iff_exists'.mp there
      obtain ⟨s', wrote, placed⟩ := (rested.placed w).writesOut cur found accepted fun _ => 0
      simp only [wrote]
      exact ⟨_, placed.rested_empty fun _ => rfl⟩
    · simp only [rested.kept.writeCurBuf_missing found]
      exact ⟨bs, rested⟩
  · rw [if_neg some_]
    have none_ : current s w = none := by
      by_contra there
      exact some_ (rested.filled w there)
    exact ⟨bs, ((rested.placed w).clears none_ fun _ => 0).rested_empty fun _ => rfl⟩

/-- A packet is cached, or everything is as it was, or only the next buffer is missing. -/
theorem stores (rested : Rested s bs) (some_ : data.length ≠ 0)
    (fits : data.length ≤ WFILEBUFSIZE) (orderly : ReqAvailable api s → current s w ≠ none →
      WFILEBUFSIZE < (s.writers w).m_nCurSize + data.length → api.writeFile ≠ .failed) :
    ∃ bs', Rested (match firstBuf api s w with
      | .error failed => failed
      | .ok s =>
        match nextBuf api s w data.length with
        | .error failed => failed
        | .ok (s, returned) => (⟨append s w data, 0, returned + 1⟩ : Result W)).state bs' := by
  -- A buffer that has just been taken has room.
  have fresh {s : Files W} {b : Buf} {bs : List Buf}
      (placed : Placed (s.set w fun o => { o with m_pCurBuf := some b, m_nCurSize := 0 }) w bs) :
      Rested (append (s.set w fun o => { o with m_pCurBuf := some b, m_nCurSize := 0 }) w data)
        bs := by
    have cur : current (s.set w fun o => { o with m_pCurBuf := some b, m_nCurSize := 0 }) w =
        some b := by rw [current, set_self]
    have room : ((s.set w fun o => { o with
        m_pCurBuf := some b, m_nCurSize := 0 }).writers w).m_nCurSize + data.length ≤
          WFILEBUFSIZE := by simpa using fits
    obtain ⟨placed, size⟩ := placed.appends cur room
    exact placed.rested fun _ => by omega
  cases cur : current s w with
  | none =>
    rcases (rested.placed w).takes cur api.newBuf with ⟨s₁, b, took, placed⟩ | none_
    · have first : firstBuf api s w =
          .ok (s₁.set w fun o => { o with m_pCurBuf := some b, m_nCurSize := 0 }) := by
        rw [current] at cur
        simp only [firstBuf, cur, if_true, took]
      have room : ¬ ((s₁.set w fun o => { o with
          m_pCurBuf := some b, m_nCurSize := 0 }).writers w).m_nCurSize + data.length >
            WFILEBUFSIZE := by
        simpa using fits
      simp only [first, nextBuf, if_neg room]
      exact ⟨_, fresh placed⟩
    · rw [current] at cur
      simp only [firstBuf, cur, if_true, none_]
      exact ⟨bs, rested⟩
  | some b =>
    have first : firstBuf api s w = .ok s := by
      rw [current] at cur
      simp only [firstBuf, cur, reduceCtorEq, if_false]
    simp only [first, nextBuf]
    by_cases full : (s.writers w).m_nCurSize + data.length > WFILEBUFSIZE
    · rw [if_pos full]
      by_cases found : ReqAvailable api s
      · have accepted := orderly found (by simp [cur]) full
        obtain ⟨s₁, wrote, placed⟩ := (rested.placed w).writesOut cur found accepted id
        have next := placed.takes (by rw [current, set_self]) api.nextBuf
        rw [takeBuf_set] at next
        cases took : s₁.takeBuf api.nextBuf with
        | mk s₂ m_pCurBuf =>
          rw [took] at next
          simp only [wrote, took]
          rcases next with ⟨s₃, b', took, placed⟩ | none_
          · obtain ⟨rfl, rfl⟩ := Prod.mk.inj took
            rw [set_set] at placed
            exact ⟨_, fresh placed⟩
          · obtain ⟨same, rfl⟩ := Prod.mk.inj none_
            rw [← same] at placed
            have empty : Rested (s₂.set w fun o => { o with m_pCurBuf := none }) (bs.erase b) :=
              placed.rested_empty fun _ => rfl
            exact ⟨_, empty⟩
      · simp only [rested.kept.writeCurBuf_missing found]
        exact ⟨bs, rested⟩
    · rw [if_neg full]
      obtain ⟨placed, size⟩ := (rested.placed w).appends cur (Nat.le_of_not_lt full)
      exact ⟨bs, placed.rested fun _ => by omega⟩

theorem imports (rested : Rested s bs) (fits : data.length ≤ WFILEBUFSIZE)
    (orderly : ¬ Rejects api s w data) : ∃ bs', Rested (importData api s w data).state bs' := by
  have rested := rested.receives (w := w) data
  rw [← rejects_receive] at orderly
  rw [importData]
  generalize receive s w data = s at rested orderly ⊢
  by_cases open_ : (s.writers w).m_hFileDest = none
  · simp only [if_pos open_]
    exact ⟨bs, rested⟩
  simp only [if_neg open_]
  by_cases end_ : data.length = 0
  · simp only [if_pos end_]
    refine rested.flushes fun found some_ => not_or.mp fun rejects => orderly ?_
    refine ⟨open_, found, ?_⟩
    rw [if_pos end_]
    exact ⟨some_, rejects⟩
  · simp only [if_neg end_]
    refine rested.stores end_ fits fun found there full failed => orderly ?_
    refine ⟨open_, found, ?_⟩
    rw [if_neg end_]
    exact ⟨there, full, failed⟩

/-- A completion counts one write less in flight. -/
theorem completes (rested : Rested s bs) {f : Write W} (member : f ∈ s.writing) (error : Bool) :
    Rested (complete s f error) bs := by
  have perm := List.perm_cons_erase member
  have writers := rested.kept.complete_writers member error
  obtain ⟨-, -, -, -, writing, -, -⟩ := complete_same (s := s) (f := f) error
  have same : current (complete s f error) = current s := by
    funext u
    rw [current, writers]
    split <;> rfl
  have filled (u : W) (some_ : current (complete s f error) u ≠ none) :
      0 < ((complete s f error).writers u).m_nCurSize := by
    rw [same] at some_
    rw [writers]
    split <;> exact rested.filled u some_
  have counted (u : W) : Counted (complete s f error) u := by
    have before := rested.counted u
    rw [Counted, writesInFlight] at before ⊢
    rw [perm.countP_eq] at before
    rw [writing, writers]
    by_cases this : u = f.writer
    · subst this
      rw [List.countP_cons_of_pos (by simp)] at before
      simp only [if_true, before, BitVec.ofNat_add, BitVec.add_assoc]
      rw [BitVec.add_comm (BitVec.ofNat 32 _)]
      rfl
    · rw [List.countP_cons_of_neg (by simpa using Ne.symm this)] at before
      rw [if_neg this, before]
  exact ⟨rested.kept.completes member error, same ▸ rested.owned, counted, filled⟩

/-- InitObject of a writer that has not been used. -/
theorem opens (rested : Rested s bs) (unused : s.writers w = constructed)
    (room : api.newBuf = true ∧ api.nextBuf = true ∧ api.newReq = true) (named : Bool)
    (m_hFileDest : Option Nat) : Rested (initObject api s w named m_hFileDest).1 bs := by
  have empty : current s w = none := by rw [current, unused]; rfl
  have fields {f : FileWriter → FileWriter} (uncounted : Uncounted f)
      (buf : ∀ o, (f o).m_pCurBuf = o.m_pCurBuf) : Rested (s.set w f) bs := by
    refine ((rested.placed w).keeps uncounted buf).rested fun some_ => absurd ?_ some_
    rw [current, set_self, buf]
    exact empty
  cases named with
  | false => exact rested
  | true =>
    cases m_hFileDest with
    | none =>
      have failed : Rested (s.set w fun o => { o with m_hFileDest := none }) bs :=
        fields ⟨fun _ => rfl, fun _ => rfl⟩ fun _ => rfl
      exact failed
    | some file =>
      have opened : Rested (s.set w fun o => { { o with m_hFileDest := some file } with
          m_nRecvPackets := 0, m_nWritedPackets := 0 }) bs :=
        fields ⟨fun _ => rfl, fun _ => rfl⟩ fun _ => rfl
      simp only [initObject, Bool.not_true, Bool.false_eq_true, if_false, reduceCtorEq,
        set_set, room.1, room.2.1, room.2.2]
      exact ⟨(opened.kept.stockBuf.stockBuf).stockReq w, opened.owned, opened.counted,
        opened.filled⟩

end Rested

/-! ### The places of the buffers -/

/-- A buffer is the current one of a writer, at some place of m_BufList, or with some
write in flight. -/
inductive Place (W : Type) where
  | current (w : W)
  | listed (i : Nat)
  | attached (i : Nat)

def At (s : Files W) : Place W → Buf → Prop
  | .current w, b => current s w = some b
  | .listed i, b => s.m_BufList.eles[i]? = some (some b)
  | .attached i, b => (s.writing.map Write.buf)[i]? = some b

theorem Rested.accounted (rested : Rested s bs) : Accounted (At s) (· < s.newBufs) := by
  have stocked := rested.kept.bufs
  have once := some_range_nodup s.newBufs
  obtain ⟨free, out, apart⟩ := stocked.nodups once
  have held {b : Buf} {w : W} (cur : current s w = some b) : some b ∈ bs.map some :=
    List.mem_map_of_mem ((rested.owned.listed b).mpr ⟨w, cur⟩)
  have attached {b : Buf} {i : Nat} (at_ : (s.writing.map Write.buf)[i]? = some b) :
      (s.writing.map fun f => some f.buf)[i]? = some (some b) := by
    rw [List.getElem?_map] at at_ ⊢
    obtain ⟨f, found, same⟩ := Option.map_eq_some_iff.mp at_
    rw [found, Option.map_some, same]
  have known {b : Buf} (member : some b ∈ (List.range s.newBufs).map some) : b < s.newBufs := by
    obtain ⟨b', below, same⟩ := List.mem_map.mp member
    cases same
    exact List.mem_range.mp below
  constructor
  · rintro (w | i | i) b at_
    · exact known (stocked.mem_held (held at_))
    · exact known (stocked.mem_all (.inl (List.mem_of_getElem? at_)))
    · exact known (stocked.mem_all (.inr (List.mem_of_getElem? (attached at_))))
  · intro p q b at_ at'
    have inHand {w : W} (cur : current s w = some b) := stocked.separate once (held cur)
    cases p with
    | current w =>
      cases q with
      | current v => exact congrArg Place.current (rested.owned.apart w v b at_ at')
      | listed j => exact absurd (List.mem_of_getElem? at') (inHand at_).1
      | attached j => exact absurd (List.mem_of_getElem? (attached at')) (inHand at_).2
    | listed i =>
      have listed := List.mem_of_getElem? at_
      cases q with
      | current v => exact absurd listed (inHand at').1
      | listed j =>
        have below := (List.getElem?_eq_some_iff.mp at_).1
        exact congrArg Place.listed ((List.getElem?_inj below free).mp (at_.trans at'.symm))
      | attached j => exact absurd (List.mem_of_getElem? (attached at')) (apart _ listed)
    | attached i =>
      have flying := List.mem_of_getElem? (attached at_)
      cases q with
      | current v => exact absurd flying (inHand at').2
      | listed j => exact absurd flying (apart _ (List.mem_of_getElem? at'))
      | attached j =>
        have below := (List.getElem?_eq_some_iff.mp (attached at_)).1
        exact congrArg Place.attached
          ((List.getElem?_inj below out).mp ((attached at_).trans (attached at').symm))
  · intro b below
    have member : some b ∈ (List.range s.newBufs).map some :=
      List.mem_map_of_mem (List.mem_range.mpr below)
    rcases stocked.cases member with listed | flying | inHand
    · obtain ⟨i, at_⟩ := List.getElem?_of_mem listed
      exact ⟨.listed i, at_⟩
    · obtain ⟨f, inside, same⟩ := List.mem_map.mp flying
      cases same
      obtain ⟨i, at_⟩ := List.getElem?_of_mem (List.mem_map_of_mem (f := Write.buf) inside)
      exact ⟨.attached i, at_⟩
    · obtain ⟨b', inside, same⟩ := List.mem_map.mp inHand
      cases same
      obtain ⟨w, cur⟩ := (rested.owned.listed b).mp inside
      exact ⟨.current w, cur⟩

/-! ### A rejected write -/

/-- What is counted. -/
def tally (s : Files W) (w : W) : BitVec 32 × BitVec 32 × List (Write W) :=
  ((s.writers w).m_nWriteNum, (s.writers w).m_nWritedNum, s.writing)

theorem tally_set {f : FileWriter → FileWriter} (uncounted : Uncounted f) :
    tally (s.set w f) w = tally s w := by
  rw [tally, set_self, uncounted.write, uncounted.writed]
  rfl

omit [DecidableEq W] in
theorem takeBuf_tally (available : Bool) : tally (s.takeBuf available).1 w = tally s w := by
  rw [takeBuf]
  split
  · rfl
  · split <;> rfl

omit [DecidableEq W] in
theorem takeReq_tally (available : Bool) (req : IOReq W) :
    tally (s.takeReq available req).1 w = tally s w := by
  rw [takeReq]
  split
  · rfl
  · split <;> rfl

theorem append_tally (s : Files W) (w : W) (data : List Byte) :
    tally (append s w data) w = tally s w := by
  rw [append]
  split
  · exact tally_set ⟨fun _ => rfl, fun _ => rfl⟩
  · rfl

theorem writeFile_refused {outcome : Outcome}
    (rejects : current s w = none ∨ outcome = .failed) (q : Req) :
    s.writeFile outcome w q = (s, false) := by
  rw [current] at rejects
  rw [writeFile]
  cases cur : (s.writers w).m_pCurBuf with
  | none => rfl
  | some b =>
    rw [cur] at rejects
    obtain rfl := rejects.resolve_left (Option.some_ne_none b)
    rfl

/-- A rejected write is counted like one that was started. -/
theorem writeCurBuf_rejected (found : ReqAvailable api s)
    (rejects : current s w = none ∨ api.writeFile = .failed) :
    ∃ s', s.writeCurBuf api w = (s', some true) ∧
      tally s' w = ((s.writers w).m_nWriteNum + 1, (s.writers w).m_nWritedNum, s.writing) := by
  rw [writeCurBuf]
  generalize IOReq.mk w (s.writers w).m_pCurBuf WFILEBUFSIZE (s.writers w).m_nCurSize 0xffffffff
    0xffffffff = req
  have same := takeReq_tally (s := s) (w := w) api.newReq req
  have writers := takeReq_writers (s := s) api.newReq req
  cases took : s.takeReq api.newReq req with
  | mk s₁ pOverlap =>
    rw [took] at same writers
    cases pOverlap with
    | none => exact absurd found ((takeReq_none api req).mp (congrArg Prod.snd took))
    | some q =>
      have refused : s₁.writeFile api.writeFile w q = (s₁, false) := by
        refine writeFile_refused ?_ q
        rwa [current, writers]
      simp only [refused, Bool.not_false, Bool.false_eq_true, if_false]
      obtain ⟨write, writed, writing⟩ := Prod.mk.inj same |>.imp_right Prod.mk.inj
      refine ⟨_, rfl, ?_⟩
      simp only [tally, set_self, Prod.mk.injEq]
      exact ⟨congrArg (· + 1) write, writed, writing⟩

theorem importData_rejected (rejects : Rejects api s w data) :
    tally (importData api s w data).state w =
      ((s.writers w).m_nWriteNum + 1, (s.writers w).m_nWritedNum, s.writing) := by
  have received : tally (receive s w data) w = tally s w :=
    tally_set ⟨fun _ => rfl, fun _ => rfl⟩
  obtain ⟨open_, found, rejects⟩ := (rejects_receive api s w data).mpr rejects
  refine Eq.trans ?_
    (congrArg (fun t : BitVec 32 × BitVec 32 × List (Write W) => (t.1 + 1, t.2)) received)
  rw [importData]
  generalize receive s w data = s at open_ found rejects ⊢
  simp only [if_neg open_]
  by_cases end_ : data.length = 0
  · rw [if_pos end_] at rejects ⊢
    obtain ⟨s', wrote, counted⟩ := writeCurBuf_rejected found rejects.2
    simp only [flush, if_pos rejects.1, wrote]
    refine (tally_set ?_).trans counted
    exact ⟨fun _ => rfl, fun _ => rfl⟩
  · rw [if_neg end_] at rejects ⊢
    obtain ⟨there, full, failed⟩ := rejects
    obtain ⟨s₁, wrote, counted⟩ := writeCurBuf_rejected found (.inr failed)
    have first : firstBuf api s w = .ok s := by rw [firstBuf, if_neg there]
    have taken := takeBuf_tally (s := s₁) (w := w) api.nextBuf
    cases took : s₁.takeBuf api.nextBuf with
    | mk s₂ next =>
      rw [took] at taken
      have counted := Eq.trans taken counted
      cases next with
      | none =>
        simp only [first, nextBuf, if_pos full, wrote, took]
        refine (tally_set ?_).trans counted
        exact ⟨fun _ => rfl, fun _ => rfl⟩
      | some b =>
        simp only [first, nextBuf, if_pos full, wrote, took]
        refine (append_tally _ w data).trans ((tally_set ?_).trans counted)
        exact ⟨fun _ => rfl, fun _ => rfl⟩

/-! ### Runs -/

/-- InitObject is called on new writers and finds memory, and packets fit into a buffer. -/
def Promised (s : Files W) : Event W → Prop
  | .init w _ _ api => s.writers w = constructed ∧ api.newBuf = true ∧ api.nextBuf = true ∧
    api.newReq = true
  | .importData _ data _ => data.length ≤ WFILEBUFSIZE
  | .complete _ _ => True

instance (s : Files W) : (e : Event W) → Decidable (Promised s e)
  | .init w _ _ api => inferInstanceAs (Decidable (s.writers w = constructed ∧
      api.newBuf = true ∧ api.nextBuf = true ∧ api.newReq = true))
  | .importData _ data _ => inferInstanceAs (Decidable (data.length ≤ WFILEBUFSIZE))
  | .complete _ _ => .isTrue trivial

def promised (W : Type) [DecidableEq W] : System (Files W) (Event W) where
  initial := Unused
  next s e := if Promised s e then next s e else none

/-- The call is one of ImportData whose WriteFile rejects the write. -/
def Rejected (s : Files W) : Event W → Prop
  | .importData w data api => Rejects api s w data
  | .init _ _ _ _ | .complete _ _ => False

structure Lossless (s : Files W) (e : Event W) (s' : Files W) : Prop where
  counted : ∀ w, (s'.writers w).m_nWriteNum - (s'.writers w).m_nWritedNum =
    BitVec.ofNat 32 (writesInFlight s' w)
  placed : Accounted (At s') (· < s'.newBufs)
  held : ∀ w data api, e = .importData w data api → Rejects api s w data →
    (importData api s w data).res < 0 ∨ cached s w <+: cached s' w

theorem promised_taken {e : Event W} (taken : (promised W).next s e = some s') :
    Promised s e ∧ next s e = some s' := by
  simp only [promised] at taken
  split at taken
  · exact ⟨‹_›, taken⟩
  · cases taken

theorem Rested.next (rested : Rested s bs) {e : Event W} (promise : Promised s e)
    (orderly : ¬ Rejected s e) (taken : next s e = some s') : ∃ bs', Rested s' bs' := by
  cases e with
  | init w named m_hFileDest api =>
    cases taken
    exact ⟨bs, rested.opens promise.1 promise.2 named m_hFileDest⟩
  | importData w data api =>
    cases taken
    exact rested.imports promise orderly
  | complete f error =>
    simp only [File.next] at taken
    split at taken
    · rename_i member
      cases taken
      exact ⟨bs, rested.completes member error⟩
    · cases taken

theorem Rested.lossless (rested : Rested s' bs) {e : Event W} (orderly : ¬ Rejected s e) :
    Lossless s e s' := by
  refine ⟨fun w => ?_, rested.accounted, ?_⟩
  · rw [rested.counted w, add_sub_cancel_left]
  · rintro w data api rfl rejects
    exact absurd rejects orderly

/-- After a rejected write the counters say one write too many. -/
theorem Rested.orderly_of_lossless (rested : Rested s bs) {e : Event W} (promise : Promised s e)
    (taken : File.next s e = some s') (lossless : Lossless s e s') : ¬ Rejected s e := by
  cases e with
  | init w named m_hFileDest api => exact id
  | complete f error => exact id
  | importData w data api =>
    cases taken
    intro rejects
    have after := importData_rejected rejects
    obtain ⟨write, writed, writing⟩ := Prod.mk.inj after |>.imp_right Prod.mk.inj
    have now := lossless.counted w
    have before := rested.counted w
    rw [Counted, writesInFlight] at before
    rw [write, writed, writesInFlight, writing, before, add_assoc, add_sub_cancel_left] at now
    have one := add_left_cancel (now.trans (add_zero _).symm)
    exact absurd one (by decide)

theorem Unused.rested (unused : Unused s) : Rested s [] := by
  refine ⟨unused.kept, ⟨?_, ?_⟩, fun u => ?_, ?_⟩
  · simp [current, unused.writers, constructed]
  · simp [current, unused.writers, constructed]
  · simp [Counted, writesInFlight, unused.writers, unused.writing, constructed]
  · simp [current, unused.writers, constructed]

/-- A run of ImportData and completions loses nothing exactly when WriteFile rejects no write. -/
theorem lossless_iff (unused : Unused s) (events : List (Event W)) :
    (promised W).EveryStep Lossless s events ↔
      (promised W).EveryStep (fun s e _ => ¬ Rejected s e) s events := by
  have start : ∃ bs, Rested s bs := ⟨[], unused.rested⟩
  constructor
  · intro lossless
    refine lossless.imp (fun s e s' (inv : ∃ bs, Rested s bs) taken lossless => ?_)
      (fun s e s' inv taken lossless => ?_) start
    all_goals
      obtain ⟨bs, rested⟩ := inv
      obtain ⟨promise, taken⟩ := promised_taken taken
      have orderly := rested.orderly_of_lossless promise taken lossless
    · exact rested.next promise orderly taken
    · exact orderly
  · intro orderly
    refine orderly.imp (fun s e s' (inv : ∃ bs, Rested s bs) taken orderly => ?_)
      (fun s e s' inv taken orderly => ?_) start
    all_goals
      obtain ⟨bs, rested⟩ := inv
      obtain ⟨promise, taken⟩ := promised_taken taken
      obtain ⟨bs', rested'⟩ := rested.next promise orderly taken
    · exact ⟨bs', rested'⟩
    · exact rested'.lossless orderly

instance (api : Api) (s : Files W) : Decidable (ReqAvailable api s) :=
  inferInstanceAs (Decidable (_ ∨ _))

instance (api : Api) (s : Files W) (w : W) (data : List Byte) : Decidable (Rejects api s w data) :=
  inferInstanceAs (Decidable (_ ∧ _ ∧ ite _ _ _))

instance (s : Files W) : (e : Event W) → Decidable (Rejected s e)
  | .importData w data api => inferInstanceAs (Decidable (Rejects api s w data))
  | .init _ _ _ _ | .complete _ _ => .isFalse id

/-- Two writers share the lists; the first one is flushed between its packets. -/
def flushed : List (Event Bool) :=
  [.init false true (some 3) accepting, .init true true (some 4) accepting,
    .importData false [1, 2] accepting, .importData true [9] accepting,
    .importData false [3] accepting,
    .importData false [] accepting, .importData false [4] accepting]

theorem lossless_between_flushes : (promised Bool).EveryStep Lossless unused flushed :=
  (lossless_iff unused_unused flushed).mpr (by decide +kernel)

/-- What is cached is flushed, and WriteFile rejects the write. -/
def rejecting : List (Event Bool) :=
  [.init false true (some 3) accepting, .importData false [1, 2] accepting,
    .importData false [] ⟨true, true, true, .failed⟩]

/-- The write is counted, its buffer is in no place any more, and nothing is cached. -/
theorem rejecting_runs : ((promised Bool).run unused rejecting).map (fun s =>
    ((s.writers false).m_nWriteNum - (s.writers false).m_nWritedNum, s.writing.length,
      s.m_BufList.eles, s.newBufs, current s false)) = some (1, 0, [some 1], 2, none) := by
  decide +kernel

theorem rejected_lost : ¬ (promised Bool).EveryStep Lossless unused rejecting := by
  intro each
  obtain ⟨s, ran, after⟩ := Option.map_eq_some_iff.mp rejecting_runs
  simp only [Prod.mk.injEq] at after
  have split : rejecting = rejecting.dropLast ++
      [.importData false [] ⟨true, true, true, .failed⟩] :=
    rfl
  rw [split] at each ran
  obtain ⟨t, lossless⟩ := each.last ran
  have counted := lossless.counted false
  rw [after.1, writesInFlight, List.length_eq_zero_iff.mp after.2.1] at counted
  exact absurd counted (by decide)

end TestIOCP.File
