import TestIOCP.Engine.Session
import TestIOCP.Serial

/-! What calls that run one at a time keep of a started session: its counters and its
outstanding operations cover the operations it has posted, so that a release test
that fails leaves a completion to come. -/
namespace TestIOCP.Engine
open Transition Program

variable {F : Type}

/-- The outstanding operations of the current connection of an object. -/
def current (s : Shared F) (w : Obj) : Nat :=
  s.pending.countP (fun posted => posted.req.m_pObserver = w ∧ posted.connection = s.connection w)

/-- An operation of the current connection is outstanding. -/
def Posts (s : Shared F) (w : Obj) (type : OperateType) : Prop :=
  ∃ posted ∈ s.pending, posted.req = ⟨w, type⟩ ∧ posted.connection = s.connection w

def Awaits (s : Shared F) (w : Obj) : Prop :=
  Posts s w .SOCKET_READ ∨ Posts s w .SOCKET_CONNECT

/-- The operations that the counters know of exceed the counted completions and the
outstanding operations by at least due. -/
structure Covered (s : Shared F) (w : Obj) (due : Int) : Prop where
  positive : ∀ c, 0 ≤ s.counters w c
  balance : s.counters w .m_nWriteNum + s.counters w .m_nRecvNum + due ≤
    s.counters w .m_nRecvedNum + s.counters w .m_nWritedNum +
      s.counters w .m_nErrorNum + current s w

/-- A started session between two calls. -/
structure Kept [Endpoint F] (s : Shared F) (w : Obj) : Prop where
  covered : Covered s w 0
  outstanding : 0 < current s w
  awaits : Endpoint.m_TcpSocket (s.objects w) ≠ none → Awaits s w

/-- A started session of an object that its allocater owns was released or is the
current one of its object. -/
structure History (owned : F → Prop) (s : Shared F) : Prop where
  begun : ∀ x ∈ s.begun, owned (s.objects x.1) →
    x ∈ s.released ∨ (x.1 ∈ s.serving ∧ x.2 = s.connection x.1)
  begunKnown : ∀ x ∈ s.begun, x.1 < s.allocated
  listKnown : ∀ w ∈ s.m_WorkerList, w < s.allocated
  servingKnown : ∀ w ∈ s.serving, w < s.allocated
  pendingKnown : ∀ posted ∈ s.pending, posted.req.m_pObserver < s.allocated

structure Resting [Endpoint F] (owned : F → Prop) (s : Shared F) : Prop where
  history : History owned s
  kept : ∀ w ∈ s.serving, Kept s w

/-- A call works on an object. -/
structure Working [Endpoint F] (owned : F → Prop) (s : Shared F) (l : Task) (w : Obj) (due : Int) :
    Prop where
  history : History owned s
  others : ∀ v ∈ s.serving, v ≠ w → Kept s v
  self : w ∈ s.serving → Covered s w due
  known : w < s.allocated
  task : ∃ unhandled uncounted, l = .working w unhandled uncounted

/-- What operations must find: m_nErrorNum is not negative when Start resets the other
counters, no counter overflows, and the list hands out a worker whose session is over. -/
def Counts (s : Shared F) : Op F → Prop
  | .zero w _ => 0 ≤ s.counters w .m_nErrorNum
  | .count w c => s.counters w c + 1 < 2 ^ 31
  | .isOver w =>
    s.counters w .m_nWriteNum + s.counters w .m_nRecvNum < 2 ^ 31 ∧
    s.counters w .m_nRecvedNum + s.counters w .m_nWritedNum + s.counters w .m_nErrorNum < 2 ^ 31
  | .workerPop => ∀ w ∈ s.m_WorkerList.head?, w ∉ s.serving
  | _ => True

instance (s : Shared F) : (op : Op F) → Decidable (Counts s op)
  | .zero w _ => inferInstanceAs (Decidable (0 ≤ s.counters w .m_nErrorNum))
  | .count w c => inferInstanceAs (Decidable (s.counters w c + 1 < 2 ^ 31))
  | .isOver _ => inferInstanceAs (Decidable (_ ∧ _))
  | .workerPop => inferInstanceAs (Decidable (∀ w ∈ s.m_WorkerList.head?, w ∉ s.serving))
  | .get _ | .set _ _ | .associateDevice _ | .closesocket _ | .post _ _ | .replies _
  | .release _ | .workerNew | .workerPush _ | .acceptNum _ => .isTrue trivial

/-- A successful write, which is not tested, is not the last operation of a session that
is closed and not over. -/
def Tested [Endpoint F] (s : Shared F) (posted : Posted) : Prop :=
  let w := posted.req.m_pObserver
  posted.req.m_nOperateType = .SOCKET_WRITE → Endpoint.m_TcpSocket (s.objects w) = none →
    w ∈ s.serving → posted.connection = s.connection w →
      0 < current { s with pending := s.pending.erase posted } w

instance [Endpoint F] (s : Shared F) (posted : Posted) : Decidable (Tested s posted) :=
  inferInstanceAs (Decidable (_ → _ → _ → _ → _))

variable {s s' : Shared F} {l : Task} {w v : Obj} {due : Int} {owned : F → Prop} [Endpoint F]

omit [Endpoint F] in
theorem Posts.current (posts : Posts s w type) : 0 < current s w := by
  obtain ⟨posted, inside, req, connection⟩ := posts
  exact List.countP_pos_iff.mpr ⟨posted, inside, by simp [req, connection]⟩

omit [Endpoint F] in
theorem current_pos : 0 < current s w ↔ ∃ type, Posts s w type := by
  refine ⟨fun positive => ?_, fun ⟨type, posts⟩ => posts.current⟩
  obtain ⟨⟨⟨v, type⟩, connection⟩, inside, here⟩ := List.countP_pos_iff.mp positive
  simp only [decide_eq_true_eq] at here
  obtain ⟨rfl, rfl⟩ := here
  exact ⟨type, _, inside, rfl, rfl⟩

omit [Endpoint F] in
theorem Awaits.current (awaits : Awaits s w) : 0 < current s w :=
  awaits.elim Posts.current Posts.current

omit [Endpoint F] in
theorem current_cons (s : Shared F) (posted : Posted) (w : Obj) :
    current { s with pending := posted :: s.pending } w = current s w +
      if posted.req.m_pObserver = w ∧ posted.connection = s.connection w then 1 else 0 := by
  simp [current, List.countP_cons]

omit [Endpoint F] in
theorem current_erase {posted : Posted} (member : posted ∈ s.pending) (w : Obj) :
    current { s with pending := s.pending.erase posted } w +
      (if posted.req.m_pObserver = w ∧ posted.connection = s.connection w then 1 else 0) =
    current s w := by
  have perm := (List.perm_cons_erase member).countP_eq
    (fun posted => posted.req.m_pObserver = w ∧ posted.connection = s.connection w)
  rw [List.countP_cons] at perm
  simpa [current] using perm.symm

def operations (s : Shared F) (w : Obj) : List Posted :=
  s.pending.filter (fun posted => posted.req.m_pObserver = w)

omit [Endpoint F] in
theorem current_eq (s : Shared F) (w : Obj) :
    current s w = (operations s w).countP (fun posted => posted.connection = s.connection w) := by
  simp [current, operations, List.countP_filter, Bool.and_comm]

omit [Endpoint F] in
theorem posts_iff : Posts s w type ↔
    ∃ posted ∈ operations s w, posted.req = ⟨w, type⟩ ∧ posted.connection = s.connection w := by
  simp only [Posts, operations, List.mem_filter, decide_eq_true_eq]
  grind

omit [Endpoint F] in
theorem operations_erase {posted : Posted} (other : posted.req.m_pObserver ≠ v) :
    (s.pending.erase posted).filter (fun posted => posted.req.m_pObserver = v) =
      operations s v := by
  rw [← List.erase_filter]
  exact List.erase_of_not_mem fun inside => other (by simpa using (List.mem_filter.mp inside).2)

omit [Endpoint F] in
theorem Posts.congr (posts : Posts s v type) (connection : s'.connection v = s.connection v)
    (pending : operations s' v = operations s v) : Posts s' v type := by
  rw [posts_iff] at posts ⊢
  rwa [pending, connection]

omit [Endpoint F] in
theorem Awaits.congr (awaits : Awaits s v) (connection : s'.connection v = s.connection v)
    (pending : operations s' v = operations s v) : Awaits s' v :=
  awaits.imp (fun posts => posts.congr connection pending) fun posts =>
    posts.congr connection pending

omit [Endpoint F] in
theorem Covered.congr (covered : Covered s v due) (counters : s'.counters v = s.counters v)
    (connection : s'.connection v = s.connection v) (pending : operations s' v = operations s v) :
    Covered s' v due := by
  refine ⟨counters ▸ covered.positive, ?_⟩
  rw [counters, current_eq, pending, connection, ← current_eq]
  exact covered.balance

/-- A session keeps what it has while nothing of it changes. -/
theorem Kept.congr (kept : Kept s v) (counters : s'.counters v = s.counters v)
    (connection : s'.connection v = s.connection v) (pending : operations s' v = operations s v)
    (socket : Endpoint.m_TcpSocket (s'.objects v) = Endpoint.m_TcpSocket (s.objects v)) :
    Kept s' v := by
  refine ⟨kept.covered.congr counters connection pending, ?_, ?_⟩
  · rw [current_eq, pending, connection, ← current_eq]
    exact kept.outstanding
  · rw [socket]
    exact fun is_open => (kept.awaits is_open).congr connection pending

namespace History

omit [Endpoint F] in
/-- Nothing of the history changes but, maybe, what one object has. -/
theorem congr (history : History owned s) (list : s'.m_WorkerList = s.m_WorkerList)
    (allocated : s'.allocated = s.allocated) (connection : s'.connection = s.connection)
    (serving : s'.serving = s.serving) (begun : s'.begun = s.begun)
    (released : s'.released = s.released) (pending : ∀ posted ∈ s'.pending, posted ∈ s.pending)
    (objects : ∀ w, owned (s'.objects w) → owned (s.objects w)) : History owned s' := by
  constructor
  · rw [begun, released, serving, connection]
    exact fun x inside owns => history.begun x inside (objects _ owns)
  · simpa only [begun, allocated] using history.begunKnown
  · simpa only [list, allocated] using history.listKnown
  · simpa only [serving, allocated] using history.servingKnown
  · rw [allocated]
    exact fun posted inside => history.pendingKnown posted (pending posted inside)

end History

namespace Working

theorem resting (working : Working owned s l w due) (kept : w ∈ s.serving → Kept s w) :
    Resting owned s := by
  refine ⟨working.history, fun v serving => ?_⟩
  by_cases same : v = w
  · subst same
    exact kept serving
  · exact working.others v serving same

/-- The next operation of the session is outstanding. -/
theorem resting_of_awaits (working : Working owned s l w 0) (awaits : Awaits s w) :
    Resting owned s :=
  working.resting fun serving => ⟨working.self serving, awaits.current, fun _ => awaits⟩

theorem set (working : Working owned s l w due) {f : F → F}
    (owns : owned (f (s.objects w)) → owned (s.objects w)) :
    Working owned { s with objects := Function.update s.objects w (f (s.objects w)) } l w due := by
  refine ⟨working.history.congr rfl rfl rfl rfl rfl rfl (fun _ => id) fun v => ?_,
    fun v serving other => ?_, fun serving => (working.self serving).congr rfl rfl rfl,
    working.known, working.task⟩
  · by_cases same : v = w
    · subst same
      simpa using owns
    · simp [same]
  · exact (working.others v serving other).congr rfl rfl rfl (by simp [other])

theorem close (working : Working owned s l w due) (sockets associated : List Sock) :
    Working owned { s with sockets, associated } l w due :=
  ⟨working.history.congr rfl rfl rfl rfl rfl rfl (fun _ => id) fun _ => id,
    fun v serving other => (working.others v serving other).congr rfl rfl rfl rfl,
    fun serving => (working.self serving).congr rfl rfl rfl, working.known, working.task⟩

theorem count (working : Working owned s l w due) {c : Counter}
    (room : s.counters w c + 1 < 2 ^ 31) :
    Working owned (s.write w c (wrap (s.counters w c + 1))) (l.after (F := F) (.count w c) ()) w
      (if c.posts then due - 1 else due + 1) := by
  refine ⟨working.history.congr rfl rfl rfl rfl rfl rfl (fun _ => id) fun _ => id,
    fun v serving other => ?_, fun serving => ?_, working.known, ?_⟩
  · exact (working.others v serving other).congr (by simp [Shared.write, other]) rfl rfl rfl
  · obtain ⟨positive, balance⟩ := working.self serving
    have counted : wrap (s.counters w c + 1) = s.counters w c + 1 := by
      have := positive c
      rw [wrap, Int.bmod_eq_of_le] <;> omega
    rw [counted]
    refine ⟨fun d => ?_, ?_⟩
    · have := positive c
      have := positive d
      simp only [Shared.write, Function.update_self, Function.update_apply]
      grind
    · have same : current (s.write w c (s.counters w c + 1)) w = current s w := rfl
      rw [same]
      simp only [Shared.write, Function.update_self, Function.update_apply]
      cases c <;> simp [Counter.posts] <;> omega
  · obtain ⟨unhandled, uncounted, rfl⟩ := working.task
    simp only [Task.after]
    split <;> exact ⟨_, _, rfl⟩

/-- An operation is posted and not counted yet. -/
theorem post (working : Working owned s l w due) (type : OperateType) :
    Working owned { s with pending := ⟨⟨w, type⟩, s.connection w⟩ :: s.pending }
      (.working w false true) w (due + 1) := by
  have more := current_cons s ⟨⟨w, type⟩, s.connection w⟩ w
  simp only [and_self, if_true] at more
  refine ⟨?_, fun v serving other => ?_, fun serving => ?_, working.known, _, _, rfl⟩
  · refine ⟨working.history.begun, working.history.begunKnown, working.history.listKnown,
      working.history.servingKnown, fun posted inside => ?_⟩
    rcases List.mem_cons.mp inside with rfl | before
    · exact working.known
    · exact working.history.pendingKnown posted before
  · exact (working.others v serving other).congr rfl rfl (by simp [operations, Ne.symm other]) rfl
  · obtain ⟨positive, balance⟩ := working.self serving
    refine ⟨positive, ?_⟩
    rw [more]
    push_cast
    omega

end Working

/-- A release test has found the session over. -/
structure Ending (owned : F → Prop) (s : Shared F) (w : Obj) : Prop where
  history : History owned { s with released := (w, s.connection w) :: s.released }
  kept : ∀ v ∈ s.serving, Kept s v
  known : w < s.allocated

namespace Ending

theorem release (ending : Ending owned s w) :
    Resting owned { s with
      m_WorkerList := s.m_WorkerList ++ [w]
      released := (w, s.connection w) :: s.released } := by
  refine ⟨⟨ending.history.begun, ending.history.begunKnown, fun v listed => ?_,
    ending.history.servingKnown, ending.history.pendingKnown⟩, fun v serving => ?_⟩
  · rcases List.mem_append.mp listed with before | last
    · exact ending.history.listKnown v before
    · exact List.mem_singleton.mp last ▸ ending.known
  · exact (ending.kept v serving).congr rfl rfl rfl rfl

/-- Nobody has to be told. -/
theorem unowned (ending : Ending owned s w) (alone : ¬ owned (s.objects w)) : Resting owned s := by
  refine ⟨⟨fun x inside owns => ?_, ending.history.begunKnown, ending.history.listKnown,
    ending.history.servingKnown, ending.history.pendingKnown⟩, ending.kept⟩
  rcases ending.history.begun x inside owns with released | current
  · rcases List.mem_cons.mp released with rfl | before
    · exact absurd owns alone
    · exact .inl before
  · exact .inr current

end Ending

theorem Working.ending (working : Working owned s l w due) :
    Ending owned { s with serving := s.serving.filter (· ≠ w) } w := by
  refine ⟨⟨fun x inside owns => ?_, working.history.begunKnown, working.history.listKnown, ?_,
    working.history.pendingKnown⟩, ?_, working.known⟩
  · rcases working.history.begun x inside owns with released | ⟨serving, now⟩
    · exact .inl (List.mem_cons_of_mem _ released)
    · by_cases same : x.1 = w
      · refine .inl (List.mem_cons.mpr (.inl ?_))
        rw [← same, ← now]
      · exact .inr ⟨by simpa [same] using serving, now⟩
  · exact fun v serving => working.history.servingKnown v (List.mem_of_mem_filter serving)
  · intro v serving
    obtain ⟨before, other⟩ := List.mem_filter.mp serving
    exact (working.others v before (by simpa using other)).congr rfl rfl rfl rfl

/-- A release test that fails leaves a completion to come. -/
theorem Working.outstanding (working : Working owned s l w 0) (serving : w ∈ s.serving)
    (room : s.counters w .m_nWriteNum + s.counters w .m_nRecvNum < 2 ^ 31 ∧
      s.counters w .m_nRecvedNum + s.counters w .m_nWritedNum + s.counters w .m_nErrorNum < 2 ^ 31)
    (going : ¬ Over (s.counters w)) : 0 < current s w := by
  obtain ⟨positive, balance⟩ := working.self serving
  have unwrapped {i : Int} (low : 0 ≤ i) (high : i < 2 ^ 31) : wrap i = i := by
    rw [wrap, Int.bmod_eq_of_le] <;> omega
  have := positive .m_nWriteNum
  have := positive .m_nRecvNum
  have := positive .m_nRecvedNum
  have := positive .m_nWritedNum
  have := positive .m_nErrorNum
  rw [Over, unwrapped (by omega) room.1, unwrapped (by omega) room.2] at going
  omega

omit [Endpoint F] in
@[simp] theorem step_iff {op : Op F} {c : Choice} {l' : Task} {r : Res op} :
    step s l op c = some (s', l', r) ↔ s.perform l c op = (s', r) ∧ l' = l.after op r := by
  simp only [step, Option.some.injEq, Prod.mk.injEq]
  grind

omit [Endpoint F] in
theorem associateDevice_frame (s : Shared F) (l : Task) (choice : Choice) (socket : Option Sock) :
    ∃ associated, (s.perform l choice (.associateDevice socket)).1 = { s with associated } := by
  simp only [Shared.perform]
  split
  · exact ⟨_, rfl⟩
  · split <;> exact ⟨_, rfl⟩

omit [Endpoint F] in
theorem ensures_op {α : Type} {allowed : Shared F → Op F → Prop} {Q : α → Shared F → Task → Prop}
    (op : Op F) (rest : Res op → Call F α) :
    (Program.call op rest).Ensures step allowed s l Q ↔ (allowed s op → ∀ choice,
      (rest (s.perform l choice op).2).Ensures step allowed (s.perform l choice op).1
        (l.after op (s.perform l choice op).2) Q) := by
  simp only [ensures_call, step_iff]
  grind

omit [Endpoint F] in
@[simp] theorem ensures_get {α : Type} {Q : α → Shared F → Task → Prop} (rest : F → Call F α) :
    (Engine.get w >>= rest).Ensures step Counts s l Q ↔
      (rest (s.objects w)).Ensures step Counts s l Q := by
  simp only [Engine.get, perform, perform_bind, ensures_op]
  exact ⟨fun ensures => ensures trivial {}, fun ensures _ _ => ensures⟩

theorem isOver_ensures (working : Working owned s l w 0)
    (awaits : w ∈ s.serving → Endpoint.m_TcpSocket (s.objects w) ≠ none → Awaits s w) :
    (perform (.isOver w) : Call F Bool).Ensures step Counts s l
      (fun over_ s _ => if over_ then Ending owned s w else Resting owned s) := by
  intro room choice s' l' r taken
  obtain ⟨performed, -⟩ := step_iff.mp taken
  simp only [Shared.perform] at performed
  split at performed
  all_goals
    rename_i over_
    cases performed
  · exact working.ending
  · exact working.resting fun serving =>
      ⟨working.self serving, working.outstanding serving room over_, awaits serving⟩

theorem Working.set_ensures (working : Working owned s l w due) {f : F → F}
    (owns : owned (f (s.objects w)) → owned (s.objects w)) :
    (Engine.set w f).Ensures step Counts s l (fun _ s' l' =>
      s' = { s with objects := Function.update s.objects w (f (s.objects w)) } ∧
        Working owned s' l' w due) := by
  intro _ choice s' l' r taken
  obtain ⟨performed, rfl⟩ := step_iff.mp taken
  cases performed
  exact ⟨rfl, working.set owns⟩

theorem Working.count_ensures (working : Working owned s l w due) (c : Counter) :
    (Engine.count w c : Call F Unit).Ensures step Counts s l (fun _ s' l' =>
      s'.objects = s.objects ∧ s'.pending = s.pending ∧ s'.connection = s.connection ∧
        s'.serving = s.serving ∧ Working owned s' l' w (if c.posts then due - 1 else due + 1)) := by
  intro room choice s' l' r taken
  obtain ⟨performed, rfl⟩ := step_iff.mp taken
  cases performed
  exact ⟨rfl, rfl, rfl, rfl, working.count room⟩

/-- The state after a post that the system accepts. -/
def Shared.posted {F : Type} (s : Shared F) (l : Task) (w : Obj) (type : OperateType) : Shared F :=
  let s := s.begin l w
  { s with pending := ⟨⟨w, type⟩, s.connection w⟩ :: s.pending }

omit [Endpoint F] in
theorem post_cases (s : Shared F) (l : Task) (choice : Choice) (socket : Option Sock) (w : Obj)
    (type : OperateType) :
    s.perform l choice (.post socket ⟨w, type⟩) = (s, .failed) ∨
    (((∃ h ∈ s.sockets, socket = some h) ∧ choice.outcome ≠ .failed) ∧
      s.perform l choice (.post socket ⟨w, type⟩) = (s.posted l w type, choice.outcome)) := by
  simp only [Shared.perform]
  split
  · rename_i accepted
    exact .inr ⟨accepted, rfl⟩
  · exact .inl rfl

/-- A post leaves the socket alone and forgets no operation. -/
structure Adds (s s' : Shared F) (w : Obj) : Prop where
  posts : ∀ type, Posts s w type → Posts s' w type
  socket : Endpoint.m_TcpSocket (s'.objects w) = Endpoint.m_TcpSocket (s.objects w)

theorem postCounted_ensures (type : OperateType) {c : Counter} (posts : c.posts = true)
    (posting : Working owned (s.posted l w type) (.working w false true) w (due + 1)) :
    (postCounted w type c : Call F Int).Ensures step Counts s l (fun r s' l' => Adds s s' w ∧
      ((r = 0 ∧ s'.serving = (s.begin l w).serving ∧ Working owned s' l' w due ∧ Posts s' w type) ∨
      (r = -4 ∧ l' = l ∧ s' = { s with
        objects := Function.update s.objects w (Endpoint.withStatus (s.objects w) .error) }))) := by
  simp only [postCounted, ensures_get, perform, perform_bind, ensures_op]
  intro _ choice
  rcases post_cases s l choice (Endpoint.m_TcpSocket (s.objects w)) w type with same | ⟨suc, same⟩
  all_goals rw [same]
  · refine (ensures_op _ _).mpr fun _ _ => ⟨⟨fun _ => id, ?_⟩, .inr ⟨rfl, rfl, rfl⟩⟩
    simp [Shared.perform, Endpoint.socket_withStatus]
  · have counted : (do Engine.count w c; return 0 : Call F Int).Ensures step Counts
        (s.posted l w type) (.working w false true)
        (fun r s' l' => Adds s s' w ∧ r = 0 ∧ s'.serving = (s.begin l w).serving ∧
          Working owned s' l' w due ∧ Posts s' w type) := by
      refine (posting.count_ensures c).seq ?_
      rintro _ s' l' ⟨objects, pending, connection, serving, working⟩
      rw [if_pos posts, Int.add_sub_cancel] at working
      have begun : (s.begin l w).pending = s.pending ∧ (s.begin l w).connection = s.connection ∧
          (s.begin l w).objects = s.objects := by
        cases l <;> exact ⟨rfl, rfl, rfl⟩
      have inside : s'.pending = ⟨⟨w, type⟩, s.connection w⟩ :: s.pending := by
        rw [pending, Shared.posted, begun.1, begun.2.1]
      have same : s'.connection = s.connection := connection.trans begun.2.1
      refine ⟨⟨fun other posts => ?_, ?_⟩, rfl, serving, working, _,
        inside ▸ List.mem_cons_self, rfl, ?_⟩
      · obtain ⟨posted, before, req, now⟩ := posts
        exact ⟨posted, inside ▸ List.mem_cons_of_mem _ before, req, by rw [now, same]⟩
      · rw [objects]
        exact congrArg (fun objects => Endpoint.m_TcpSocket (objects w)) begun.2.2
      · rw [same]
    cases outcome : choice.outcome with
    | failed => exact absurd outcome suc.2
    | pending => exact counted.mono fun _ _ _ ⟨adds, ended⟩ => ⟨adds, .inl ended⟩
    | success => exact counted.mono fun _ _ _ ⟨adds, ended⟩ => ⟨adds, .inl ended⟩

theorem Working.postCounted_ensures (working : Working owned s l w due)
    (owns : ∀ x status, owned (Endpoint.withStatus x status) → owned x) (type : OperateType)
    {c : Counter} (posts : c.posts = true) :
    (postCounted w type c : Call F Int).Ensures step Counts s l (fun r s' l' =>
      Adds s s' w ∧ s'.serving = s.serving ∧ Working owned s' l' w due ∧
        ((r = 0 ∧ Posts s' w type) ∨ r = -4)) := by
  obtain ⟨unhandled, uncounted, task⟩ := working.task
  have posting : Working owned (s.posted l w type) (.working w false true) w (due + 1) :=
    task ▸ working.post type
  refine (Engine.postCounted_ensures type posts posting).mono ?_
  rintro r s' l' ⟨adds, ⟨rfl, serving, working', there⟩ | ⟨rfl, rfl, rfl⟩⟩
  · exact ⟨adds, by rw [serving, task]; rfl, working', .inl ⟨rfl, there⟩⟩
  · exact ⟨adds, rfl, working.set (f := fun x => Endpoint.withStatus x .error) (owns _ _), .inr rfl⟩

/-- Posts of a call that began between two handlers leave the session as it was. -/
theorem Resting.after (resting : Resting owned s) (working : Working owned s' l w 0)
    (serving : s'.serving = s.serving) (posts : ∀ type, Posts s w type → Posts s' w type)
    (socket : Endpoint.m_TcpSocket (s'.objects w) = none ∨
      Endpoint.m_TcpSocket (s'.objects w) = Endpoint.m_TcpSocket (s.objects w)) :
    Resting owned s' := by
  refine working.resting fun live => ?_
  rw [serving] at live
  have kept := resting.kept w live
  obtain ⟨type, there⟩ := current_pos.mp kept.outstanding
  refine ⟨working.self (serving ▸ live), (posts type there).current, fun is_open => ?_⟩
  rcases socket with closed | same
  · exact absurd closed is_open
  · exact (kept.awaits (same ▸ is_open)).imp (posts _) (posts _)

namespace Resting

/-- A step of which the sessions take no notice. -/
theorem idle (resting : Resting owned s) (sockets associated : List Sock) (m_nAcceptNum : Int) :
    Resting owned { s with sockets, associated, m_nAcceptNum } :=
  ⟨resting.history.congr rfl rfl rfl rfl rfl rfl (fun _ => id) fun _ => id,
    fun v serving => (resting.kept v serving).congr rfl rfl rfl rfl⟩

theorem push (resting : Resting owned s) (known : w < s.allocated) :
    Resting owned { s with m_WorkerList := s.m_WorkerList ++ [w] } := by
  refine ⟨⟨resting.history.begun, resting.history.begunKnown, fun v listed => ?_,
    resting.history.servingKnown, resting.history.pendingKnown⟩,
    fun v serving => (resting.kept v serving).congr rfl rfl rfl rfl⟩
  rcases List.mem_append.mp listed with before | last
  · exact resting.history.listKnown v before
  · exact List.mem_singleton.mp last ▸ known

/-- An object leaves the list for a new connection. -/
theorem take (resting : Resting owned s) (unserved : w ∉ s.serving) {list : List Obj}
    {allocated : Nat} (grown : s.allocated ≤ allocated) (fewer : ∀ v ∈ list, v ∈ s.m_WorkerList) :
    Resting owned ({ s with m_WorkerList := list, allocated }.take w) := by
  refine ⟨⟨fun x inside owns => ?_, ?_, ?_, ?_, ?_⟩, fun v serving => ?_⟩
  · refine (resting.history.begun x inside owns).imp id fun ⟨serving, now⟩ => ⟨serving, ?_⟩
    have other : x.1 ≠ w := fun same => unserved (same ▸ serving)
    simpa [Shared.take, other] using now
  · exact fun x inside => (resting.history.begunKnown x inside).trans_le grown
  · exact fun v inside => (resting.history.listKnown v (fewer v inside)).trans_le grown
  · exact fun v inside => (resting.history.servingKnown v inside).trans_le grown
  · exact fun posted inside => (resting.history.pendingKnown posted inside).trans_le grown
  · have other : v ≠ w := fun same => unserved (same ▸ serving)
    exact (resting.kept v serving).congr rfl (by simp [Shared.take, other]) rfl rfl

theorem complete (resting : Resting owned s) {posted : Posted} (member : posted ∈ s.pending) :
    Working owned { s with pending := s.pending.erase posted }
      (.working posted.req.m_pObserver true false) posted.req.m_pObserver (-1) := by
  refine ⟨resting.history.congr rfl rfl rfl rfl rfl rfl (fun _ => List.mem_of_mem_erase)
    fun _ => id, fun v serving other => ?_, fun serving => ?_,
    resting.history.pendingKnown posted member, _, _, rfl⟩
  · exact (resting.kept v serving).congr rfl rfl (operations_erase (Ne.symm other)) rfl
  · obtain ⟨positive, balance⟩ := (resting.kept _ serving).covered
    have less := current_erase member posted.req.m_pObserver
    refine ⟨positive, ?_⟩
    simp only at balance ⊢
    split at less <;> omega

omit [Endpoint F] in
theorem posts_erase (posts : Posts s w type) {posted : Posted}
    (other : posted.req.m_nOperateType ≠ type) :
    Posts { s with pending := s.pending.erase posted } w type := by
  obtain ⟨kept, inside, req, connection⟩ := posts
  have apart : kept ≠ posted := by
    rintro rfl
    exact other (by rw [req])
  exact ⟨kept, (List.mem_erase_of_ne apart).mpr inside, req, connection⟩

/-- The read or the connect of the session is still outstanding. -/
theorem awaits_erase (resting : Resting owned s) (serving : w ∈ s.serving)
    (is_open : Endpoint.m_TcpSocket (s.objects w) ≠ none) {posted : Posted}
    (other : posted.req.m_nOperateType ≠ .SOCKET_READ ∧ posted.req.m_nOperateType ≠
      .SOCKET_CONNECT) :
    Awaits { s with pending := s.pending.erase posted } w :=
  ((resting.kept w serving).awaits is_open).imp (posts_erase · other.1) (posts_erase · other.2)

/-- A successful write is counted and not tested. -/
theorem write_ensures (resting : Resting owned s) {posted : Posted} (member : posted ∈ s.pending)
    (operate : posted.req.m_nOperateType = .SOCKET_WRITE) (tested : Tested s posted) :
    (Engine.count posted.req.m_pObserver .m_nWritedNum : Call F Unit).Ensures step Counts
      { s with pending := s.pending.erase posted } (.working posted.req.m_pObserver true false)
      (fun _ s' _ => Resting owned s') := by
  refine ((resting.complete member).count_ensures .m_nWritedNum).mono
    fun _ s' l ⟨objects, pending, connection, serving, working⟩ => working.resting fun live => ?_
  have before : posted.req.m_pObserver ∈ s.serving := serving ▸ live
  have other : posted.req.m_nOperateType ≠ .SOCKET_READ ∧ posted.req.m_nOperateType ≠
      .SOCKET_CONNECT := by
    simp [operate]
  have going : 0 < current { s with pending := s.pending.erase posted } posted.req.m_pObserver := by
    by_cases closed : Endpoint.m_TcpSocket (s.objects posted.req.m_pObserver) = none
    · by_cases now : posted.connection = s.connection posted.req.m_pObserver
      · exact tested operate closed before now
      · have less := current_erase member posted.req.m_pObserver
        rw [if_neg fun same => now same.2] at less
        have outstanding := (resting.kept _ before).outstanding
        omega
    · exact (resting.awaits_erase before closed other).current
  refine ⟨working.self live, ?_, ?_⟩
  · rw [current_eq, operations, pending, connection]
    rw [current_eq] at going
    exact going
  · rw [objects]
    exact fun is_open => (resting.awaits_erase before is_open other).congr
      (by rw [connection]) (by rw [operations, pending]; rfl)

end Resting

/-- A call holds an object whose counters it resets. -/
structure Held (owned : F → Prop) (s : Shared F) (l : Task) (w : Obj) (zeroed : List Counter) :
    Prop where
  history : History owned s
  others : ∀ v ∈ s.serving, v ≠ w → Kept s v
  known : w < s.allocated
  task : l = .holding w zeroed
  zero : ∀ c ∈ zeroed, s.counters w c = 0 ∧ 0 ≤ s.counters w .m_nErrorNum

namespace Held

theorem set (held : Held owned s l w zeroed) {f : F → F}
    (owns : owned (f (s.objects w)) → owned (s.objects w)) :
    Held owned { s with objects := Function.update s.objects w (f (s.objects w)) } l w zeroed := by
  refine ⟨held.history.congr rfl rfl rfl rfl rfl rfl (fun _ => id) fun v => ?_,
    fun v serving other => ?_, held.known, held.task, held.zero⟩
  · by_cases same : v = w
    · subst same
      simpa using owns
    · simp [same]
  · exact (held.others v serving other).congr rfl rfl rfl (by simp [other])

theorem associate (held : Held owned s l w zeroed) (associated : List Sock) :
    Held owned { s with associated } l w zeroed :=
  ⟨held.history.congr rfl rfl rfl rfl rfl rfl (fun _ => id) fun _ => id,
    fun v serving other => (held.others v serving other).congr rfl rfl rfl rfl, held.known,
    held.task, held.zero⟩

theorem zero_ensures (held : Held owned s l w zeroed) (c : Counter) :
    (Engine.zero w c : Call F Unit).Ensures step Counts s l (fun _ s' l' =>
      s' = s.write w c 0 ∧ Held owned s' l' w (c :: zeroed)) := by
  intro error choice s' l' r taken
  obtain ⟨performed, rfl⟩ := step_iff.mp taken
  cases performed
  refine ⟨rfl, held.history.congr rfl rfl rfl rfl rfl rfl (fun _ => id) fun _ => id,
    fun v serving other => ?_, held.known, by rw [held.task]; rfl, fun d inside => ?_⟩
  · exact (held.others v serving other).congr (by simp [Shared.write, other]) rfl rfl rfl
  · have positive : 0 ≤ s.counters w .m_nErrorNum := error
    have before := held.zero d
    simp only [Shared.write, Function.update_self, Function.update_apply]
    grind

/-- The first operation starts a session. -/
theorem posted (held : Held owned s l w zeroed) (all : ∀ c, c ≠ .m_nErrorNum → c ∈ zeroed)
    (type : OperateType) : Working owned (s.posted l w type) (.working w false true) w (0 + 1) := by
  have task := held.task
  subst task
  refine ⟨⟨fun x inside owns => ?_, fun x inside => ?_, held.history.listKnown, fun v serving => ?_,
    fun posted inside => ?_⟩, fun v serving other => ?_, fun _ => ⟨fun c => ?_, ?_⟩, held.known,
    _, _, rfl⟩
  · rcases List.mem_cons.mp inside with rfl | before
    · exact .inr ⟨List.mem_cons_self, rfl⟩
    · exact (held.history.begun x before owns).imp id fun now =>
        ⟨List.mem_cons_of_mem _ now.1, now.2⟩
  · rcases List.mem_cons.mp inside with rfl | before
    · exact held.known
    · exact held.history.begunKnown x before
  · rcases List.mem_cons.mp serving with rfl | before
    · exact held.known
    · exact held.history.servingKnown v before
  · rcases List.mem_cons.mp inside with rfl | before
    · exact held.known
    · exact held.history.pendingKnown posted before
  · refine (held.others v ((List.mem_cons.mp serving).resolve_left other) other).congr rfl rfl ?_
      rfl
    simp [Shared.posted, Shared.begin, operations, Ne.symm other]
  · by_cases error : c = .m_nErrorNum
    · exact error ▸ (held.zero .m_nRecvNum (all _ (by decide))).2
    · exact (held.zero c (all c error)).1.ge
  · have none_ (c : Counter) (other : c ≠ .m_nErrorNum) : s.counters w c = 0 :=
      (held.zero c (all c other)).1
    have error := (held.zero .m_nRecvNum (all _ (by decide))).2
    have more := current_cons (s.begin (.holding w zeroed) w) ⟨⟨w, type⟩, s.connection w⟩ w
    simp only [Shared.begin, and_self, if_true] at more
    simp only [Shared.posted, Shared.begin, none_ .m_nWriteNum (by decide),
      none_ .m_nRecvNum (by decide), none_ .m_nRecvedNum (by decide),
      none_ .m_nWritedNum (by decide), more]
    push_cast
    omega

theorem resting (held : Held owned s l w zeroed) (unserved : w ∉ s.serving) : Resting owned s :=
  ⟨held.history, fun v serving => held.others v serving fun same => unserved (same ▸ serving)⟩

/-- With all counters zero a session that was started before is kept as well. -/
theorem resting_of_zeroed (held : Held owned s l w zeroed)
    (all : ∀ c, c ≠ .m_nErrorNum → c ∈ zeroed)
    (waits : w ∈ s.serving → 0 < current s w ∧
      (Endpoint.m_TcpSocket (s.objects w) ≠ none → Awaits s w)) : Resting owned s := by
  refine ⟨held.history, fun v serving => ?_⟩
  by_cases same : v = w
  · subst same
    have none_ (c : Counter) (other : c ≠ .m_nErrorNum) : s.counters v c = 0 :=
      (held.zero c (all c other)).1
    have error := (held.zero .m_nRecvNum (all _ (by decide))).2
    refine ⟨⟨fun c => ?_, ?_⟩, (waits serving).1, (waits serving).2⟩
    · by_cases other : c = .m_nErrorNum
      · exact other ▸ error
      · exact (none_ c other).ge
    · rw [none_ .m_nWriteNum (by decide), none_ .m_nRecvNum (by decide),
        none_ .m_nRecvedNum (by decide), none_ .m_nWritedNum (by decide)]
      omega
  · exact held.others v serving same

end Held

end TestIOCP.Engine
