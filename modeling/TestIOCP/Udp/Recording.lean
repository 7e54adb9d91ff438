import TestIOCP.Udp.Session
import TestIOCP.File.Stream

/-! A receiver whose only observer is a CFileWriter. Stop flushes the writer, but a datagram
that was received before may be handled after that. -/
namespace TestIOCP.Udp
open Transition Program Semantics
open CString (Byte)
open File (Files Api importData)

/-- The receiver, the writer with its file, and what the receive buffers hold. The history
is what the datagrams brought whose receive completed without error, and whether Stop was
called after the last Start. -/
structure Recording where
  udp : Shared Unit Unit
  files : Files Unit
  memory : Buf → List Byte
  received : List Byte
  stopped : Bool

/-- There is memory, and WriteFile is accepted. -/
structure Choice where
  outcome : Outcome
  api : Api
  accepts : api.Accepts

namespace Recording

def step (s : Recording) (h : Hand) (op : Op Unit Unit) (c : Choice) :
    Option (Recording × Hand × Res op) :=
  match op with
  | .importData iter rest b datasize =>
    let imported := importData c.api s.files () ((s.memory b).take datasize.toNat)
    -- the writer calls ReturnBuf before it returns, or never
    let outcome : Outcome := if imported.returned = 1 then .success else .pending
    (Udp.step s.udp h (.importData iter rest b datasize) outcome).map fun (udp, h', res) =>
      ({ s with udp, files := imported.state }, h', res)
  | .importNull iter =>
    (Udp.step s.udp h (.importNull iter) c.outcome).map fun (udp, h', res) =>
      ({ s with udp, files := (importData c.api s.files () []).state }, h', res)
  | op => (Udp.step s.udp h op c.outcome).map fun (udp, h', res) => ({ s with udp }, h', res)

inductive Entry where
  | init
  | start
  | stop
  | consume (povlp : Req) (data : List Byte) (error : Bool)
  | written (f : File.Write Unit) (error : Bool)
  deriving DecidableEq, Repr

def observers (_ : Unit) : List Unit := [()]

def enter (s : Recording) : Entry → Option (Recording × Hand × Call Unit Unit Unit)
  | .init => (Udp.enter observers s.udp (.init ())).map fun (udp, h, p) => ({ s with udp }, h, p)
  | .start =>
    (Udp.enter observers s.udp (.start ())).map fun (udp, h, p) =>
      ({ s with udp, stopped := false }, h, p)
  | .stop =>
    (Udp.enter observers s.udp (.stop ())).map fun (udp, h, p) =>
      ({ s with udp, stopped := true }, h, p)
  | .consume povlp data error =>
    -- the system writes at most what was posted
    if data.length ≤ RECVBUFSIZE then
      (Udp.enter observers s.udp (.consume povlp data.length error)).map fun (udp, h, p) =>
        ({ s with
          udp
          memory := h.buf.elim s.memory fun b => Function.update s.memory b data
          received := if error then s.received else s.received ++ data }, h, p)
    else none
  | .written f error =>
    if f ∈ s.files.writing then some
      ({ s with files := File.complete s.files f error }, {}, .ret ())
    else none

def semantics : Semantics Recording Hand (Op Unit Unit) Res Choice Entry where
  enter := enter
  step := step

/-- An operation that touches no IO request and posts no read. -/
def Bare : Op Unit Unit → Prop
  | .reqPop | .reqNew _ | .reqPush _ | .setObserver _ _ | .setDataBuf _ _ _ |
    .wsaRecv _ _ _ => False
  | _ => True

/-- An operation that gives the observer nothing. -/
def Mute : Op Unit Unit → Prop
  | .importData _ _ _ _ | .importNull _ => False
  | _ => True

def Free (_ : Recording) (_ : Op Unit Unit) : Prop := True

/-- What bare operations leave alone. -/
def requests (p : Pool Unit Unit) : List Req × Nat × (Req → IOReq Unit) × List Posted :=
  (p.m_IOReqList, p.allocatedReqs, p.reqs, p.reading)

/-- What mute operations leave alone. -/
def recorder (s : Recording) : Files Unit × (Buf → List Byte) × List Byte × Bool :=
  (s.files, s.memory, s.received, s.stopped)

variable {α : Type} {s s' : Recording} {h h' : Hand} {qs : List Req} {q : Req} {c : Choice}

theorem mute_step {op : Op Unit Unit} {res : Res op} (mute : Mute op)
    (taken : step s h op c = some (s', h', res)) :
    recorder s' = recorder s ∧ Udp.step s.udp h op c.outcome = some (s'.udp, h', res) := by
  unfold step at taken
  split at taken
  · exact absurd mute id
  · exact absurd mute id
  · obtain ⟨⟨udp, hand, r⟩, performed, same⟩ := Option.map_eq_some_iff.mp taken
    cases same
    exact ⟨rfl, performed⟩

/-- Every operation is one of the receiver. -/
theorem step_udp {op : Op Unit Unit} {res : Res op} (taken : step s h op c = some (s', h', res)) :
    ∃ outcome, Udp.step s.udp h op outcome = some (s'.udp, h', res) := by
  unfold step at taken
  split at taken
  all_goals
    obtain ⟨⟨udp, hand, r⟩, performed, same⟩ := Option.map_eq_some_iff.mp taken
    cases same
    exact ⟨_, performed⟩

theorem pool_requests {p p' : Pool Unit Unit} {op : Op Unit Unit} {outcome : Outcome} {res : Res op}
    (bare : Bare op) (taken : p.step h op outcome = some (p', h', res)) :
      requests p' = requests p := by
  cases op <;> simp only [Pool.step, reduceCtorEq] at taken
  case reqPop | reqNew | reqPush | setObserver | setDataBuf => exact absurd bare id
  case bufPop =>
    split at taken <;>
    · cases taken
      rfl
  case importData =>
    split at taken
    · cases taken
      rfl
    · split at taken
      · cases taken
        rfl
      · contradiction
  all_goals
    cases taken
    rfl

theorem udp_requests {u u' : Shared Unit Unit} {op : Op Unit Unit}
    {outcome : Outcome} {res : Res op}
    (bare : Bare op) (taken : Udp.step u h op outcome = some (u', h', res)) :
    requests u'.pool = requests u.pool := by
  unfold Udp.step at taken
  split at taken
  case h_9 | h_10 => exact absurd bare id
  case h_11 =>
    obtain ⟨⟨pool, hand, r⟩, performed, same⟩ := Option.map_eq_some_iff.mp taken
    cases same
    exact pool_requests bare performed
  case h_3 =>
    split at taken <;>
    · cases taken
      rfl
  case h_6 =>
    split at taken
    · contradiction
    · cases taken
      rfl
  all_goals
    cases taken
    rfl

theorem bare_requests {op : Op Unit Unit} {res : Res op} (bare : Bare op)
    (taken : step s h op c = some (s', h', res)) : requests s'.udp.pool = requests s.udp.pool := by
  obtain ⟨outcome, taken⟩ := step_udp taken
  exact udp_requests bare taken

theorem mute_ensures {p : Call Unit Unit α} (every : p.Every Mute) :
    p.Ensures step Free s h (fun _ s' _ => recorder s' = recorder s) :=
  every.ensures (I := fun s' => recorder s' = recorder s)
    (fun _ _ _ _ _ _ _ mute same taken => (mute_step mute taken).1.trans same) rfl

theorem bare_ensures {p : Call Unit Unit α} (every : p.Every Bare) :
    p.Ensures step Free s h (fun _ s' _ => requests s'.udp.pool = requests s.udp.pool) :=
  every.ensures (I := fun s' => requests s'.udp.pool = requests s.udp.pool)
    (fun _ _ _ _ _ _ _ bare same taken => (bare_requests bare taken).trans same) rfl

/-- The IO requests; qs are in the hands of the call. What a posted one holds is noted in it. -/
structure Posts (p : Pool Unit Unit) (qs : List Req) : Prop where
  once : Stocked (List.range p.allocatedReqs) p.m_IOReqList (p.reading.map Posted.req) qs
  noted : ∀ x ∈ p.reading, (p.reqs x.req).m_pDataBuf = some x.buf

namespace Posts
variable {p p' : Pool Unit Unit}

theorem congr (posts : Posts p qs) (same : requests p' = requests p) : Posts p' qs := by
  simp only [requests, Prod.mk.injEq] at same
  obtain ⟨list, allocated, reqs, reading⟩ := same
  refine ⟨?_, ?_⟩
  · rw [list, allocated, reading]
    exact posts.once
  · rw [reqs, reading]
    exact posts.noted

theorem pop {rest : List Req} (posts : Posts p qs) (list : p.m_IOReqList = q :: rest) :
    Posts { p with m_IOReqList := rest } (q :: qs) := by
  have once := posts.once
  rw [list] at once
  exact ⟨once.pop, posts.noted⟩

/-- A request in hand may be written. -/
theorem write (posts : Posts p (q :: qs)) (req : IOReq Unit) :
    Posts { p with reqs := Function.update p.reqs q req } (q :: qs) := by
  refine ⟨posts.once, fun x inside => ?_⟩
  have other : x.req ≠ q := by
    rintro rfl
    exact (posts.once.apart List.nodup_range).2 (List.mem_map_of_mem inside)
  simp only [Function.update_of_ne other]
  exact posts.noted x inside

theorem new (posts : Posts p qs) : Posts { p with allocatedReqs := p.allocatedReqs + 1 }
    (p.allocatedReqs :: qs) := by
  refine ⟨?_, posts.noted⟩
  rw [List.range_succ]
  exact posts.once.new

theorem post (posts : Posts p (q :: qs)) {b : Buf} (noted : (p.reqs q).m_pDataBuf = some b)
    (socket : Sock) :
    Posts { p with reading := ⟨q, b, socket⟩ :: p.reading } qs := by
  refine ⟨posts.once.post, fun x inside => ?_⟩
  rcases List.mem_cons.mp inside with rfl | inside
  · exact noted
  · exact posts.noted x inside

theorem complete (posts : Posts p qs) {x : Posted} (member : x ∈ p.reading) :
    Posts { p with reading := p.reading.erase x } (x.req :: qs) :=
  ⟨posts.once.complete ((List.perm_cons_erase member).map Posted.req),
    fun y inside => posts.noted y (List.mem_of_mem_erase inside)⟩

end Posts

theorem posts_ensures {p : Call Unit Unit α} (every : p.Every Bare) (posts : Posts s.udp.pool qs) :
    p.Ensures step Free s h (fun _ s' _ => Posts s'.udp.pool qs) :=
  (bare_ensures every).mono fun _ _ _ same => posts.congr same

theorem reqPush_posts (posts : Posts s.udp.pool (q :: qs)) :
    (reqPush q : Call Unit Unit Unit).Ensures step Free s h (fun _ s' _ =>
      Posts s'.udp.pool qs) := by
  intro _ c s' h' res taken
  obtain ⟨outcome, taken⟩ := step_udp taken
  simp only [Udp.step, Pool.step, Option.map_some, Option.some.injEq, Prod.mk.injEq] at taken
  rw [ensures_ret, ← taken.1]
  exact ⟨posts.once.push, posts.noted⟩

theorem reqNew_posts (posts : Posts s.udp.pool qs) :
    (reqNew () : Call Unit Unit Req).Ensures step Free s h (fun q s' _ =>
      Posts s'.udp.pool (q :: qs)) := by
  intro _ c s' h' res taken
  obtain ⟨outcome, taken⟩ := step_udp taken
  simp only [Udp.step, Pool.step, Option.map_some, Option.some.injEq, Prod.mk.injEq] at taken
  rw [ensures_ret, ← taken.1, ← taken.2.2]
  exact posts.new.write _

theorem takeReq_posts (posts : Posts s.udp.pool qs) :
    (takeReq () : Call Unit Unit Req).Ensures step Free s h (fun q s' _ =>
      Posts s'.udp.pool (q :: qs)) := by
  refine Ensures.bind fun _ c s₁ h₁ found taken => ?_
  obtain ⟨outcome, taken⟩ := step_udp taken
  simp only [Udp.step, Pool.step] at taken
  cases list : s.udp.pool.m_IOReqList with
  | nil =>
    simp only [list, Option.map_some, Option.some.injEq, Prod.mk.injEq] at taken
    obtain ⟨same, -, rfl⟩ := taken
    exact reqNew_posts (same ▸ posts)
  | cons q rest =>
    simp only [list, Option.map_some, Option.some.injEq, Prod.mk.injEq] at taken
    obtain ⟨same, -, rfl⟩ := taken
    have popped : Posts s₁.udp.pool (q :: qs) := by
      rw [← same]
      exact posts.pop list
    refine Ensures.bind fun _ c s₂ h₂ res taken => ?_
    obtain ⟨outcome, taken⟩ := step_udp taken
    simp only [Udp.step, Pool.step, Option.map_some, Option.some.injEq, Prod.mk.injEq] at taken
    have written : Posts s₂.udp.pool (q :: qs) := by
      rw [← taken.1]
      exact popped.write _
    exact written

theorem setDataBuf_posts (posts : Posts s.udp.pool (q :: qs)) (b : Buf) (size : Nat) :
    (perform (.setDataBuf q b size) : Call Unit Unit Unit).Ensures step Free s h
      (fun _ s' _ => Posts s'.udp.pool (q :: qs) ∧ (s'.udp.pool.reqs q).m_pDataBuf = some b) := by
  intro _ c s' h' res taken
  obtain ⟨outcome, taken⟩ := step_udp taken
  simp only [Udp.step, Pool.step, Option.map_some, Option.some.injEq, Prod.mk.injEq] at taken
  rw [ensures_ret, ← taken.1]
  exact ⟨posts.write _, by simp⟩

theorem wsaRecv_posts {b : Buf} (posts : Posts s.udp.pool (q :: qs))
    (noted : (s.udp.pool.reqs q).m_pDataBuf = some b) (socket : Option Sock) :
    (perform (.wsaRecv socket q b) : Call Unit Unit Outcome).Ensures step Free s h
      (fun r s' _ => (r = .failed ∧ Posts s'.udp.pool (q :: qs)) ∨
        (r ≠ .failed ∧ Posts s'.udp.pool qs)) := by
  intro _ c s' h' res taken
  obtain ⟨outcome, taken⟩ := step_udp taken
  cases socket with
  | none =>
    simp only [Udp.step, Option.some.injEq, Prod.mk.injEq] at taken
    obtain ⟨same, -, rfl⟩ := taken
    exact .inl ⟨rfl, same ▸ posts⟩
  | some socket =>
    simp only [Udp.step] at taken
    split at taken
    all_goals
      simp only [Option.some.injEq, Prod.mk.injEq] at taken
      obtain ⟨same, -, rfl⟩ := taken
    · rename_i possible
      refine .inr ⟨possible.2, ?_⟩
      rw [← same]
      exact posts.post noted socket
    · exact .inl ⟨rfl, same ▸ posts⟩

/-- Read posts a request, or gives it back. -/
theorem read_posts (posts : Posts s.udp.pool qs) :
    (read () : Call Unit Unit Int).Ensures step Free s h (fun _ s' _ => Posts s'.udp.pool qs) := by
  refine (posts_ensures (takeBuf_every trivial trivial) posts).seq fun b s h posts => ?_
  refine (posts_ensures (p := perform (.clearRef b)) (.perform trivial) posts).seq
    fun _ s h posts => ?_
  refine (takeReq_posts posts).seq fun q s h posts => ?_
  refine (setDataBuf_posts posts b RECVBUFSIZE).seq ?_
  rintro _ s h ⟨posts, noted⟩
  refine Ensures.bind fun _ c s₁ h₁ this taken => ?_
  have same := bare_requests (by trivial) taken
  have noted : (s₁.udp.pool.reqs q).m_pDataBuf = some b := by
    simp only [requests, Prod.mk.injEq] at same
    rw [same.2.2.1, noted]
  refine (wsaRecv_posts (posts.congr same) noted this.m_UdpSocket).seq fun r s h after => ?_
  rcases after with ⟨rfl, posts⟩ | ⟨accepted, posts⟩
  · refine (posts_ensures (p := set () fun s => { s with m_nStatus := .error })
        (.perform trivial) posts).seq
      fun _ s h posts => ?_
    refine (posts_ensures (p := bufPush b) (.perform trivial) posts).seq fun _ s h posts => ?_
    exact (reqPush_posts posts).seq fun _ _ _ posts => posts
  · cases r with
    | failed => exact absurd rfl accepted
    | pending | success =>
      exact posts_ensures (Every.bind (.perform trivial) fun _ =>
        Every.bind (.perform trivial) fun _ => trivial) posts

/-- The writer has its file, and was given these bytes. -/
structure Saving (s : Recording) (bytes : List Byte) : Prop where
  busy : ∃ bs, File.Busy False s.files () [] bs
  open_ : (s.files.writers ()).m_hFileDest ≠ none
  imported : s.files.imported () = bytes

def Flushed (s : Recording) : Prop := (s.files.writers ()).m_nCurSize = 0

/-- What a call of ImportData leaves. -/
structure Imported (s s' : Recording) (bytes data : List Byte) : Prop where
  saving : Saving s' (bytes ++ data)
  flushed : data = [] → Flushed s'
  same : s'.memory = s.memory ∧ s'.received = s.received ∧ s'.stopped = s.stopped

theorem Saving.congr {bytes : List Byte} (saving : Saving s bytes) (same : s'.files = s.files) :
    Saving s' bytes := by
  obtain ⟨busy, open_, imported⟩ := saving
  exact ⟨same ▸ busy, same ▸ open_, same ▸ imported⟩

theorem recorder_files (same : recorder s' = recorder s) : s'.files = s.files :=
    congrArg Prod.fst same

theorem recorder_history (same : recorder s' = recorder s) : s'.received = s.received ∧
    s'.stopped = s.stopped :=
  Prod.mk.inj (congrArg (·.2.2) same)

theorem Saving.imports {bytes data : List Byte} {api : Api} (saving : Saving s bytes)
    (accepts : api.Accepts)
    (fits : data.length ≤ RECVBUFSIZE) (udp : Shared Unit Unit) :
    Imported s { s with udp, files := (importData api s.files () data).state } bytes data := by
  obtain ⟨⟨bs, busy⟩, open_, imported⟩ := saving
  have opened : File.opened (importData api s.files () data).state = _ := File.importData_opened
  obtain ⟨files, bs', same, busy, flushed⟩ := busy.imports accepts open_ (fits.trans (by decide))
  rw [same] at opened ⊢
  obtain ⟨received, handles⟩ := Prod.mk.inj opened
  refine ⟨⟨⟨bs', busy⟩, ?_, ?_⟩, flushed, rfl, rfl, rfl⟩
  · exact (congrFun handles ()).trans_ne open_
  · simpa [imported] using congrFun received ()

theorem importData_ensures {bytes : List Byte} {rest : List Unit} {b : Buf} {datasize : Int}
    (saving : Saving s bytes) (fits : ((s.memory b).take datasize.toNat).length ≤ RECVBUFSIZE) :
    (perform (.importData () rest b datasize) : Call Unit Unit Bool).Ensures step Free s h
      (fun _ s' _ => Imported s s' bytes ((s.memory b).take datasize.toNat)) := by
  intro _ c s' h' res taken
  obtain ⟨⟨udp, hand, r⟩, -, same⟩ := Option.map_eq_some_iff.mp taken
  cases same
  exact saving.imports c.accepts fits udp

theorem importNull_ensures {bytes : List Byte} (saving : Saving s bytes) :
    (importNull () : Call Unit Unit Unit).Ensures step Free s h (fun _ s' _ =>
      Imported s s' bytes []) := by
  intro _ c s' h' res taken
  cases taken
  exact saving.imports c.accepts (Nat.zero_le _) s.udp

/-- Whenever no call is running. -/
structure Records (s : Recording) : Prop where
  posts : Posts s.udp.pool []
  saving : Saving s s.received
  flushed : s.stopped → Flushed s

theorem Records.congr (records : Records s) (posts : Posts s'.udp.pool [])
    (files : s'.files = s.files)
    (history : s'.received = s.received ∧ s'.stopped = s.stopped) : Records s' := by
  refine ⟨posts, history.1 ▸ records.saving.congr files, fun now => ?_⟩
  rw [Flushed, files]
  exact records.flushed (history.2 ▸ now)

/-- After Stop no datagram is handled any more that brings bytes, before Start is called
again. -/
def Timely (s : Recording) : Entry → Prop
  | .consume _ data error => s.stopped = true → error = false → data = []
  | _ => True

theorem read_mute : (read () : Call Unit Unit Int).Every Mute := by
  refine (takeBuf_every trivial trivial).bind fun b => .bind (.perform trivial) fun _ => ?_
  refine (takeReq_every trivial trivial fun _ => trivial).bind fun q => ?_
  refine .bind (.perform trivial) fun _ => .bind (.perform trivial) fun this =>
    .bind (.perform trivial) fun r => ?_
  cases r with
  | failed =>
    exact .bind (.perform trivial) fun _ => .bind (.perform trivial) fun _ =>
      .bind (.perform trivial) fun _ => trivial
  | pending | success =>
    exact .bind (.perform trivial) fun _ => .bind (.perform trivial) fun _ => trivial

theorem initObject_records (records : Records s) :
    (initObject () : Call Unit Unit Int).Ensures step Free s h (fun _ s' _ => Records s') := by
  have mute : (initObject () : Call Unit Unit Int).Every Mute :=
    initObject_every trivial (fun _ => trivial) trivial fun _ => trivial
  have posts : (initObject () : Call Unit Unit Int).Ensures step Free s h (fun _ s' _ =>
      Posts s'.udp.pool []) := by
    refine (posts_ensures (p := bufNew) (.perform trivial) records.posts).seq fun b s h posts => ?_
    refine (posts_ensures (p := bufPush b) (.perform trivial) posts).seq fun _ s h posts => ?_
    refine (reqNew_posts posts).seq fun q s h posts => ?_
    exact (reqPush_posts posts).seq fun _ _ _ posts => posts
  exact (posts.and (mute_ensures mute)).mono fun _ s' _ ⟨posts, same⟩ =>
    records.congr posts (recorder_files same) (recorder_history same)

theorem start_records (records : Records s) :
    (start () : Call Unit Unit Int).Ensures step Free s h (fun _ s' _ => Records s') := by
  have mute : (start () : Call Unit Unit Int).Every Mute := by
    refine .bind (.perform trivial) fun this => ?_
    by_cases running : this.m_nStatus = .run
    · simp only [if_pos running]
      trivial
    simp only [if_neg running]
    refine .bind (.perform trivial) fun socket => .bind (.perform trivial) fun _ => ?_
    cases socket with
    | none => trivial
    | some socket =>
      refine .bind (.perform trivial) fun suc => ?_
      cases suc with
      | false => trivial
      | true =>
        refine .bind (.perform trivial) fun _ => .bind (.perform trivial) fun _ =>
          .bind (.perform trivial) fun _ => ?_
        exact read_mute.bind fun _ => trivial
  have posts : (start () : Call Unit Unit Int).Ensures step Free s h (fun _ s' _ =>
      Posts s'.udp.pool []) := by
    refine (posts_ensures (p := get ()) (.perform trivial) records.posts).seq
      fun this s h posts => ?_
    by_cases running : this.m_nStatus = .run
    · simp only [if_pos running]
      exact posts
    simp only [if_neg running]
    refine (posts_ensures (p := perform .makeMultiSocket) (.perform trivial) posts).seq
      fun socket s h posts => ?_
    refine (posts_ensures (p := set () _) (.perform trivial) posts).seq fun _ s h posts => ?_
    cases socket with
    | none => exact posts
    | some socket =>
      refine (posts_ensures (p := perform (.associateDevice socket)) (.perform trivial) posts).seq
        fun suc s h posts => ?_
      cases suc with
      | false => exact posts
      | true =>
        refine (posts_ensures (p := set () _) (.perform trivial) posts).seq fun _ s h posts => ?_
        refine (posts_ensures (p := set () _) (.perform trivial) posts).seq fun _ s h posts => ?_
        refine (posts_ensures (p := set () _) (.perform trivial) posts).seq fun _ s h posts => ?_
        exact (read_posts posts).seq fun _ _ _ posts => posts
  exact (posts.and (mute_ensures mute)).mono fun _ s' _ ⟨posts, same⟩ =>
    records.congr posts (recorder_files same) (recorder_history same)

/-- Stop flushes. -/
theorem stop_saving (saving : Saving s s.received) :
    (stop observers () : Call Unit Unit Int).Ensures step Free s h
      (fun _ s' _ => Saving s' s'.received ∧ Flushed s') := by
  have set_same {s : Recording} {h : Hand} {f : Receiver → Receiver} :
      (set () f : Call Unit Unit Unit).Ensures step Free s h (fun _ s' _ =>
          recorder s' = recorder s) :=
    mute_ensures (.perform trivial)
  have flushes {s : Recording} {h : Hand} (saving : Saving s s.received) :
      ((observers ()).forM importNull >>=
          fun _ => set () (fun s => { s with m_nRecvBytesNum := 0 }) >>= fun _ =>
        pure 0 : Call Unit Unit Int).Ensures step Free s h (fun _ s' _ => Saving s' s'.received ∧
            Flushed s') := by
    refine (importNull_ensures saving).seq ?_
    rintro _ s₁ h₁ ⟨saving, flushed, _, received, _⟩
    refine set_same.seq fun _ s₂ h₂ same => ?_
    have saving := saving.congr (recorder_files same)
    simp only [recorder, Prod.mk.injEq] at same
    rw [List.append_nil, ← received, ← same.2.2.1] at saving
    refine ⟨saving, ?_⟩
    rw [Flushed, same.1]
    exact flushed rfl
  have keep {s s' : Recording} (saving : Saving s s.received) (same : recorder s' = recorder s) :
      Saving s' s'.received := by
    have saving := saving.congr (recorder_files same)
    simp only [recorder, Prod.mk.injEq] at same
    rwa [← same.2.2.1] at saving
  refine set_same.seq fun _ s₁ h₁ same => ?_
  replace saving := keep saving same
  refine (mute_ensures (p := get ()) (.perform trivial)).seq fun this s₂ h₂ same => ?_
  replace saving := keep saving same
  cases this.m_UdpSocket with
  | none => exact flushes saving
  | some socket =>
    refine (mute_ensures (p := perform (.closesocket socket)) (.perform trivial)).seq fun _
      s₃ h₃ same => ?_
    replace saving := keep saving same
    refine set_same.seq fun _ s₄ h₄ same => ?_
    exact flushes (keep saving same)

theorem stop_bare : (stop observers () : Call Unit Unit Int).Every Bare := by
  have flushes : ((observers ()).forM importNull >>= fun _ =>
      set () (fun s => { s with m_nRecvBytesNum := 0 }) >>= fun _ => pure 0 :
          Call Unit Unit Int).Every Bare :=
    (Every.forM fun _ _ => .perform trivial).bind fun _ => .bind (.perform trivial) fun _ => trivial
  refine .bind (.perform trivial) fun _ => .bind (.perform trivial) fun this => ?_
  cases this.m_UdpSocket with
  | none => exact flushes
  | some socket => exact .bind (.perform trivial) fun _ => .bind (.perform trivial) fun _ => flushes

theorem consumeReq_posts {bytenumber : Int} {error : Bool} (posts : Posts s.udp.pool [q]) :
    (consumeReq observers () bytenumber error q : Call Unit Unit Int).Ensures step Free s h
      (fun _ s' _ => Posts s'.udp.pool []) := by
  refine (posts_ensures (p := set () _) (.perform trivial) posts).seq fun _ s h posts => ?_
  refine (posts_ensures (p := perform (.reqGet q)) (.perform trivial) posts).seq
    fun req s h posts => ?_
  cases error with
  | true =>
    have ending {s : Recording} {h : Hand} (posts : Posts s.udp.pool [q]) : (do
        reqPush q
        set () fun s => { s with m_nStatus := .error }
        return -1 : Call Unit Unit Int).Ensures step Free s h (fun _ s' _ =>
            Posts s'.udp.pool []) := by
      refine (reqPush_posts posts).seq fun _ s h posts => ?_
      exact (posts_ensures (p := set () _) (.perform trivial) posts).seq fun _ _ _ posts => posts
    cases req.m_pDataBuf with
    | none => exact ending posts
    | some b =>
      exact (posts_ensures (p := bufPush b) (.perform trivial) posts).seq fun _ _ _ posts =>
        ending posts
  | false =>
    refine (posts_ensures (p := set () _) (.perform trivial) posts).seq fun _ s h posts => ?_
    refine (posts_ensures (p := set () _) (.perform trivial) posts).seq fun _ s h posts => ?_
    have ending {s : Recording} {h : Hand} (posts : Posts s.udp.pool [q]) : (do
        reqPush q
        let _ ← read ()
        return 0 : Call Unit Unit Int).Ensures step Free s h (fun _ s' _ =>
            Posts s'.udp.pool []) := by
      refine (reqPush_posts posts).seq fun _ s h posts => ?_
      exact (read_posts posts).seq fun _ _ _ posts => posts
    cases req.m_pDataBuf with
    | none =>
      exact (posts_ensures (p := perform .fault) (.perform trivial) posts).seq fun _ _ _ posts =>
        ending posts
    | some b =>
      have processes : (readedDataProcess observers () b bytenumber).Every Bare :=
        readedDataProcess_every trivial trivial trivial trivial (fun _ _ => trivial) trivial
      exact (posts_ensures processes posts).seq fun _ _ _ posts => ending posts

theorem Imported.congr {s'' : Recording} {bytes data : List Byte}
    (imported : Imported s s' bytes data)
    (same : recorder s'' = recorder s') : Imported s s'' bytes data := by
  obtain ⟨saving, flushed, before⟩ := imported
  have saving := saving.congr (recorder_files same)
  simp only [recorder, Prod.mk.injEq] at same
  obtain ⟨files, memory, received, stopped⟩ := same
  refine ⟨saving, fun none_ => ?_, memory.trans before.1, received.trans before.2.1,
    stopped.trans before.2.2⟩
  rw [Flushed, files]
  exact flushed none_

theorem Imported.after {s₁ : Recording} {bytes data : List Byte}
    (imported : Imported s₁ s' bytes data)
    (same : recorder s₁ = recorder s) : Imported s s' bytes data := by
  obtain ⟨saving, flushed, before⟩ := imported
  simp only [recorder, Prod.mk.injEq] at same
  obtain ⟨-, memory, received, stopped⟩ := same
  exact ⟨saving, flushed, before.1.trans memory, before.2.1.trans received,
    before.2.2.trans stopped⟩

theorem imported_ensures {α : Type} {p : Call Unit Unit α} {s₀ : Recording} {bytes data : List Byte}
    (every : p.Every Mute) (imported : Imported s₀ s bytes data) :
    p.Ensures step Free s h (fun _ s' _ => Imported s₀ s' bytes data) :=
  (mute_ensures every).mono fun _ _ _ same => imported.congr same

/-- The observer gets the datagram, whatever happens before and after that. -/
theorem readedDataProcess_imports {bytes data : List Byte} {b : Buf} (saving : Saving s bytes)
    (filled : s.memory b = data) (fits : data.length ≤ RECVBUFSIZE) :
    (readedDataProcess observers () b data.length).Ensures step Free s h (fun _ s' _ =>
      Imported s s' bytes data) := by
  simp only [readedDataProcess, observers, List.isEmpty_cons, Bool.false_eq_true, if_false]
  refine (mute_ensures (p := perform (.lock ())) (.perform trivial)).seq fun _ s₁ h₁ same₁ => ?_
  refine Ensures.seq (R := fun _ s' _ => Imported s s' bytes data) ?_ fun _ s h imported =>
    imported_ensures (.bind (.perform trivial) fun _ => trivial) imported
  refine (mute_ensures (p := perform (.addRef b)) (.perform trivial)).seq fun _ s₂ h₂ same₂ => ?_
  have same := same₂.trans same₁
  have whole : (s₂.memory b).take ((data.length : Int).toNat) = data := by
    simp only [recorder, Prod.mk.injEq] at same
    simp [same.2.1, filled]
  refine (importData_ensures (saving.congr (recorder_files same)) (by rwa [whole])).seq fun returned
    s₃ h₃ imported => ?_
  rw [whole] at imported
  refine imported_ensures (α := Unit) ?_ (imported.after same)
  split
  · exact (returnBuf_every trivial trivial).bind fun _ => trivial
  · trivial

theorem consumeReq_saving {bytes data : List Byte} {b : Buf} (saving : Saving s bytes)
    (noted : (s.udp.pool.reqs q).m_pDataBuf = some b) (filled : s.memory b = data)
    (fits : data.length ≤ RECVBUFSIZE) :
    (consumeReq observers () data.length false q : Call Unit Unit Int).Ensures step Free s h
      (fun _ s' _ => Imported s s' bytes data) := by
  have set_both {s : Recording} {h : Hand} {f : Receiver → Receiver} :
      (set () f : Call Unit Unit Unit).Ensures step Free s h
        (fun _ s' _ => recorder s' = recorder s ∧ requests s'.udp.pool = requests s.udp.pool) :=
    (mute_ensures (p := set () f) (.perform trivial)).and
      (bare_ensures (p := set () f) (.perform trivial))
  refine set_both.seq ?_
  rintro _ s₁ h₁ ⟨same₁, requests₁⟩
  refine Ensures.bind fun _ c s₂ h₂ req taken => ?_
  obtain ⟨same₂, performed⟩ := mute_step (by trivial) taken
  simp only [Udp.step, Pool.step, Option.map_some, Option.some.injEq, Prod.mk.injEq] at performed
  obtain ⟨-, -, rfl⟩ := performed
  have buf : (s₁.udp.pool.reqs q).m_pDataBuf = some b := by
    simp only [requests, Prod.mk.injEq] at requests₁
    rw [requests₁.2.2.1, noted]
  refine set_both.seq ?_
  rintro _ s₃ h₃ ⟨same₃, _⟩
  refine set_both.seq ?_
  rintro _ s₄ h₄ ⟨same₄, _⟩
  have same := same₄.trans (same₃.trans (same₂.trans same₁))
  simp only [buf]
  have filled : s₄.memory b = data := by
    simp only [recorder, Prod.mk.injEq] at same
    rw [same.2.1, filled]
  refine (readedDataProcess_imports (saving.congr (recorder_files same)) filled fits).seq fun _ s₅
    h₅ imported => ?_
  have ending : (reqPush q >>= fun _ => read () >>=
      fun _ => pure 0 : Call Unit Unit Int).Every Mute :=
    .bind (.perform trivial) fun _ => read_mute.bind fun _ => trivial
  exact imported_ensures ending (imported.after same)

/-- A completion with an error brings nothing. -/
theorem consumeReq_mute {bytenumber : Int} :
    (consumeReq observers () bytenumber true q : Call Unit Unit Int).Every Mute := by
  refine .bind (.perform trivial) fun _ => .bind (.perform trivial) fun req => ?_
  have ending : (do
      reqPush q
      set () fun s => { s with m_nStatus := .error }
      return -1 : Call Unit Unit Int).Every Mute :=
    .bind (.perform trivial) fun _ => .bind (.perform trivial) fun _ => trivial
  cases req.m_pDataBuf with
  | none => exact ending
  | some b => exact .bind (.perform trivial) fun _ => ending

theorem enter_records {e : Entry} {p : Call Unit Unit Unit} (records : Records s)
    (timely : Timely s e)
    (entered : enter s e = some (s', h, p)) :
      p.Ensures step Free s' h (fun _ s _ => Records s) := by
  cases e with
  | init =>
    cases entered
    exact (initObject_records records).seq fun _ _ _ records => records
  | start =>
    cases entered
    have records : Records { s with stopped := false } :=
      ⟨records.posts, records.saving.congr rfl, fun now => Bool.noConfusion now⟩
    exact (start_records records).seq fun _ _ _ records => records
  | stop =>
    cases entered
    have saving : Saving { s with stopped := true } s.received :=
      ⟨records.saving.busy, records.saving.open_,
      records.saving.imported⟩
    refine Ensures.seq (Ensures.and (posts_ensures stop_bare records.posts) (stop_saving saving)) ?_
    exact fun _ s' _ ⟨posts, saving, flushed⟩ => ⟨posts, saving, fun _ => flushed⟩
  | consume povlp data error =>
    simp only [enter, Option.ite_none_right_eq_some] at entered
    obtain ⟨fits, entered⟩ := entered
    obtain ⟨_, entered, same⟩ := Option.map_eq_some_iff.mp entered
    obtain ⟨posted, found, rfl⟩ := Option.map_eq_some_iff.mp entered
    cases same
    have member := List.mem_of_find?_eq_some found
    have posts := records.posts.complete member
    have noted := records.posts.noted posted member
    cases error with
    | true =>
      refine Ensures.seq (Ensures.and (consumeReq_posts posts) (mute_ensures consumeReq_mute)) ?_
      rintro _ s' _ ⟨posts, same⟩
      have files := recorder_files same
      have history := recorder_history same
      exact records.congr posts files history
    | false =>
      have saving := consumeReq_saving (s := { s with
          udp.pool.reading := s.udp.pool.reading.erase posted
          memory := Function.update s.memory posted.buf data
          received := s.received ++ data })
        (h := posted.hand) (records.saving.congr rfl) noted (Function.update_self _ _ _) fits
      refine Ensures.seq (Ensures.and (consumeReq_posts posts) saving) ?_
      rintro _ s' _ ⟨posts, saving, flushed, -, received, stopped⟩
      exact ⟨posts, received ▸ saving, fun now => flushed (timely (stopped ▸ now) rfl)⟩
  | written f error =>
    simp only [enter, Option.ite_none_right_eq_some, Option.some.injEq, Prod.mk.injEq] at entered
    obtain ⟨member, rfl, rfl, rfl⟩ := entered
    obtain ⟨posts, ⟨⟨bs, busy⟩, open_, imported⟩, flushed⟩ := records
    have counters := File.consumeReq_writers (s :=
        { s.files with writing := s.files.writing.erase f })
      (w := (s.files.reqs f.req).m_pObserver) (q := f.req) error ()
    refine ⟨posts, ⟨⟨bs, busy.completes member False.elim⟩, ?_, ?_⟩, fun now => ?_⟩
    · exact counters.2.trans_ne open_
    · exact (congrFun File.consumeReq_imported ()).trans imported
    · exact counters.1.trans (flushed now)

/-- InitObject was called on a writer that has its file now; no receiver was started. -/
def Initial (s : Recording) : Prop :=
  Udp.Initial s.udp ∧ (∃ first api file, File.Unused first ∧ api.Accepts ∧
    s.files = (File.initObject api first () true (some file)).1) ∧ s.received = [] ∧
      s.stopped = false

theorem Initial.records (first : Initial s) : Records s := by
  obtain ⟨⟨-, -, requests, allocated, reading, -⟩, ⟨before, api, file, unused, accepts, files⟩,
      received, stopped⟩ :=
    first
  have busy : File.Busy False before () [] [] := unused.busy ()
  refine ⟨⟨?_, by simp [reading]⟩, ⟨⟨[], ?_⟩, ?_, ?_⟩, fun now => ?_⟩
  · rw [requests, allocated, reading]
    exact .refl _
  · rw [files]
    exact busy.opens (unused.writers ()) accepts true (some file)
  · rw [files]
    simp [File.initObject, File.stockReq, File.stockBuf]
  · rw [files, received]
    simp [File.initObject, File.stockReq, File.stockBuf, Files.set, (unused.history ()).2]
  · rw [stopped] at now
    cases now

/-- What Stop owes: when nothing is outstanding any more, WriteFile has all that was received. -/
def Saved (s : Recording) : Prop :=
  s.stopped = true → s.udp.pool.reading = [] →
    (s.files.payloads ()).flatten = s.received ∧ (s.files.writers ()).m_nCurSize = 0

theorem Records.saved (records : Records s) : Saved s := by
  obtain ⟨-, ⟨⟨bs, busy⟩, -, imported⟩, flushed⟩ := records
  intro stopped _
  have stream := (busy.writes ()).stream
  have empty : File.cached s.files () = [] := by
    rw [File.cached, flushed stopped]
    cases (s.files.writers ()).m_pCurBuf <;> rfl
  rw [empty, if_pos rfl, List.append_nil, List.append_nil, imported] at stream
  exact ⟨stream, flushed stopped⟩

/-- What was received before Stop is written, in whatever order the completions come. -/
theorem saved_when_timely {T : Type} [DecidableEq T]
    {c : Config T Recording Hand (Op Unit Unit) Res}
    (run : (semantics.system Initial {}).ReachableUnder (Serial Timely Free) c)
    (rest : ∀ t, c.code t = .ret ()) : Saved c.shared := by
  have records : Records c.shared := holds_at_rest (I := Records) (fun _ first => first.records)
    (fun _ _ _ _ _ records timely entered => enter_records records timely entered) run rest
  exact records.saved

instance (s : Recording) : (e : Entry) → Decidable (Timely s e)
  | .consume _ data error => inferInstanceAs
    (Decidable (s.stopped = true → error = false → data = []))
  | .init | .start | .stop | .written _ _ => .isTrue trivial

def Anytime (_ : Recording) (_ : Entry) : Prop := True

instance (s : Recording) (e : Entry) : Decidable (Anytime s e) := .isTrue trivial

def emptyFile : Files Unit :=
  ⟨fun _ => File.constructed, ⟨[], 0⟩, 0, fun _ => List.replicate File.WFILEBUFSIZE 0, ⟨[], 0⟩, 0,
    fun _ => ⟨(), none, 0, 0, 0, 0⟩, [], fun _ => [], fun _ => []⟩

/-- A receiver with a writer, before the first call. -/
def unrecorded : Recording :=
  ⟨⟨⟨[], 0, fun _ => 0, [], 0, fun _ => ⟨(), none, 0⟩, [], [], [], 0⟩,
    fun _ => ⟨none, .stop, 0, 0, 0, 0⟩,
    fun _ => false, [], 0⟩, (File.initObject File.accepting emptyFile () true (some 3)).1,
      fun _ => [], [], false⟩

theorem unrecorded_initial : Initial unrecorded := by
  have empty : File.Unused emptyFile :=
    ⟨fun _ => rfl, ⟨rfl, rfl⟩, ⟨rfl, rfl⟩, fun _ => List.length_replicate, rfl, fun _ => ⟨rfl, rfl⟩⟩
  exact ⟨⟨rfl, rfl, rfl, rfl, rfl, rfl, rfl, fun _ => ⟨rfl, rfl⟩, rfl⟩,
    ⟨emptyFile, File.accepting, 3, empty, by decide, rfl⟩, rfl, rfl⟩

def pending : Choice :=
  ⟨.pending, File.accepting, by decide⟩

/-- A datagram is handled before Stop, and the next receive is aborted by it. -/
def stoppedInTime : List (Entry × Choice) :=
  [(.init, pending), (.start, pending), (.consume 0 [7, 8] false, pending), (.stop, pending),
    (.consume 0 [] true, pending)]

theorem stoppedInTime_runs : (semantics.calls Timely unrecorded stoppedInTime).map
    (fun s => (s.stopped, s.udp.pool.reading, s.received)) = some (true, [], [7, 8]) := by
  decide +kernel

theorem saved_after_stopping :
    ∃ s : Recording, s.stopped = true ∧ s.received = [7, 8] ∧
      (s.files.payloads ()).flatten = [7, 8] := by
  obtain ⟨s, ran, after⟩ := Option.map_eq_some_iff.mp stoppedInTime_runs
  simp only [Prod.mk.injEq] at after
  obtain ⟨stopped, reading, received⟩ := after
  obtain ⟨c, reached, rfl, idle⟩ :=
    calls_reachable (m := semantics) (s := ⟨unrecorded, fun _ => {}, fun _ => .ret ()⟩)
    (fun _ _ => trivial) () (.initial ⟨unrecorded_initial, fun _ => ⟨rfl, rfl⟩⟩) (fun _ => rfl) ran
  have saved := saved_when_timely reached idle stopped reading
  exact ⟨c.shared, stopped, received, saved.1.trans received⟩

/-- The datagram came before Stop, and is handled after it. -/
def stoppedEarly : List (Entry × Choice) :=
  [(.init, pending), (.start, pending), (.stop, pending), (.consume 0 [7, 8] false, pending)]

theorem stoppedEarly_runs : (semantics.calls Anytime unrecorded stoppedEarly).map
    (fun s => (s.stopped, s.udp.pool.reading, (s.files.writers ()).m_nCurSize)) =
      some (true, [], 2) := by
  decide +kernel

theorem unsaved_when_late : ¬ ∀ c : Config Unit Recording Hand (Op Unit Unit) Res,
    (semantics.system Initial {}).ReachableUnder (Serial Anytime Free) c →
      (∀ t, c.code t = .ret ()) →
      Saved c.shared := by
  intro saved
  obtain ⟨s, ran, after⟩ := Option.map_eq_some_iff.mp stoppedEarly_runs
  simp only [Prod.mk.injEq] at after
  obtain ⟨stopped, reading, size⟩ := after
  obtain ⟨c, reached, rfl, idle⟩ :=
    calls_reachable (m := semantics) (s := ⟨unrecorded, fun _ => {}, fun _ => .ret ()⟩)
    (fun _ _ => trivial) () (.initial ⟨unrecorded_initial, fun _ => ⟨rfl, rfl⟩⟩) (fun _ => rfl) ran
  have flushed := (saved c reached idle stopped reading).2
  rw [size] at flushed
  cases flushed

end Recording

end TestIOCP.Udp
