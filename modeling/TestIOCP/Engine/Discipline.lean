import TestIOCP.Engine.Worker

/-! The order in which the calls of a worker post, count and test: each completion
that a call handles and each operation that it posts is counted before it tests
whether the session is over, and after that test found so it only releases. -/
namespace TestIOCP.Engine
open Transition Program

/-- What a task must be for an operation. -/
def Needs {F : Type} (l : Task) : Op F → Prop
  | .zero w _ | .workerPush w => ∃ zeroed, l = .holding w zeroed
  | .count w c => ∃ unhandled uncounted, l = .working w unhandled uncounted ∧
    (if c.posts then uncounted else unhandled) = true
  | .isOver w => l = .working w false false
  | .post _ req => l = .working req.m_pObserver false false ∨
    ∃ zeroed, l = .holding req.m_pObserver zeroed ∧ ∀ c, c ≠ .m_nErrorNum → c ∈ zeroed
  | .release w => l = .ending w
  | .workerPop | .workerNew => l = .idle
  | _ => True

def discipline : Discipline Task (Op Worker) Res where
  pre := Needs
  post l op r l' := l' = l.after op r

/-- A call can end. -/
def Task.Done (l : Task) : Prop :=
  l = .idle ∨ ∃ w, l = .working w false false

/-- The operations that change whether the sessions of an object are over, or ask. -/
def Active (w : Obj) : Op Worker → Prop
  | .zero v _ | .count v _ | .isOver v => v = w
  | .post _ req => req.m_pObserver = w
  | _ => False

def Takes : Op Worker → Prop
  | .workerPop | .workerNew => True
  | _ => False

/-- A call posts nothing more for a worker, changes none of its counters and does not
test it, unless it takes it from the list. -/
def Quiet (w : Obj) (p : WorkerCall Unit) : Prop :=
  p.Avoids Takes (Active w)

def Task.on : Task → Option Obj
  | .idle => none
  | .holding w _ | .working w _ _ | .ending w => some w

@[simp] theorem discipline_pre (l : Task) (op : Op Worker) : discipline.pre l op ↔
    Needs l op := Iff.rfl

@[simp] theorem discipline_post (l : Task) (op : Op Worker) (r : Res op) (l' : Task) :
    discipline.post l op r l' ↔ l' = l.after op r := Iff.rfl

/-- A call works on one object at a time. -/
theorem quiet_of_on {p : WorkerCall Unit} {l : Task} {w : Obj}
    (follows : p.Follows discipline l (fun _ => Task.Done))
    (other : l.on ≠ some w) : Quiet w p := by
  refine follows.avoids (F := fun l => l.on ≠ some w) ?_ ?_ ?_ other
  · intro l op other needs active
    cases op <;> simp only [Active, discipline_pre, Needs] at needs active
    all_goals
      subst active
      rcases l with _ | ⟨v, z⟩ | ⟨v, b, b'⟩ | v <;> simp_all [Task.on]
  · rintro l op r l' other needs rfl
    cases op <;> simp only [discipline_pre, Needs, Takes, false_or, true_or] at needs ⊢
    case zero v c =>
      obtain ⟨zeroed, rfl⟩ := needs
      exact other
    case count v c =>
      obtain ⟨unhandled, uncounted, rfl, -⟩ := needs
      simp only [Task.after]
      split <;> exact other
    case isOver v =>
      subst needs
      simp only [Task.after]
      split <;> exact other
    case post socket req =>
      have same : l.on = some req.m_pObserver := by
        rcases needs with rfl | ⟨zeroed, rfl, -⟩ <;> rfl
      simp only [Task.after]
      split
      · exact other
      · exact fun wrong => other (same.trans wrong)
    case release v => simp [Task.after, Task.on]
    case workerPush v => simp [Task.after, Task.on]
    all_goals exact other
  · exact fun l op r _ => ⟨_, rfl⟩

/-- A quiet call has counted everything. -/
theorem settled_of_quiet {p : WorkerCall Unit} {w : Obj} {unhandled uncounted : Bool}
    (follows : p.Follows discipline (.working w unhandled uncounted) (fun _ => Task.Done))
    (quiet : Quiet w p) : unhandled = false ∧ uncounted = false := by
  have settled := quiet.settled
    (D := fun l => ∃ b b', l = Task.working w b b' ∧ (b = true ∨ b' = true)) ?_ ?_ follows
  · cases unhandled <;> cases uncounted <;> simp at settled ⊢
  · rintro _ op ⟨b, b', rfl, debt⟩ needs
    refine ⟨?_, fun calm => ?_⟩
    · cases op <;> simp [Takes, Needs] at needs ⊢
    · cases op <;> simp only [discipline_pre, Needs, Active] at needs calm
      case get v => exact ⟨⟨none, .stop, 0⟩, _, rfl, b, b', rfl, debt⟩
      case set v f => exact ⟨(), _, rfl, b, b', rfl, debt⟩
      case associateDevice socket => exact ⟨true, _, rfl, b, b', rfl, debt⟩
      case closesocket socket => exact ⟨(), _, rfl, b, b', rfl, debt⟩
      case replies v => exact ⟨0, _, rfl, b, b', rfl, debt⟩
      case acceptNum change => exact ⟨(), _, rfl, b, b', rfl, debt⟩
      all_goals exfalso
      case count v c =>
        obtain ⟨_, _, same, -⟩ := needs
        cases same
        exact calm rfl
      case isOver v =>
        cases needs
        exact calm rfl
      case post socket req =>
        rcases needs with same | ⟨_, same, -⟩
        · cases same
          exact calm rfl
        · cases same
      all_goals simp at needs
  · rintro _ _ (rfl | ⟨v, rfl⟩) ⟨b, b', same, debt⟩
    · cases same
    · cases same
      simp at debt

section
variable {w : Obj} {α : Type} {f : α → WorkerCall Unit}

theorem stop_follows (w v : Obj) (b : Bool) :
    (stop w).Follows discipline (.working v b false) (fun _ l => l = .working v b false) := by
  simp only [stop, get, set, perform, perform_bind, follows_call]
  refine ⟨trivial, ?_⟩
  rintro _ _ rfl
  refine ⟨trivial, ?_⟩
  rintro (this : Worker) _ rfl
  split <;> simp [Needs, Task.after]

theorem uninitObject_follows (w v : Obj) (b : Bool) :
    (uninitObject w).Follows discipline (.working v b false) (fun _ l => l = .working v b false) :=
  Follows.bind ((stop_follows w v b).mono fun _ _ same => same)

theorem releaseIfOver_follows (w : Obj) :
    (releaseIfOver w).Follows discipline (.working w false false) (fun _ => Task.Done) := by
  simp only [releaseIfOver, isOver, releaseObject, perform, perform_bind, follows_call]
  refine ⟨rfl, ?_⟩
  rintro (over_ : Bool) _ rfl
  cases over_ with
  | false => simp [Task.after, Task.Done]
  | true => simp [Task.after, Task.Done, Needs]

/-- A post that is accepted is counted. -/
theorem postCounted_follows (w : Obj) (type : OperateType) {c : Counter} (posts : c.posts = true)
    {l : Task} (ready : l = .working w false false ∨
      ∃ zeroed, l = .holding w zeroed ∧ ∀ c, c ≠ .m_nErrorNum → c ∈ zeroed) :
    (postCounted w type c : WorkerCall Int).Follows discipline l
      (fun r l' => (r = -4 ∧ l' = l) ∨ (r = 0 ∧ l' = .working w false false)) := by
  simp only [postCounted, get, set, perform, perform_bind, follows_call]
  refine ⟨trivial, ?_⟩
  rintro (this : Worker) _ rfl
  refine ⟨ready, ?_⟩
  rintro (_ | _ | _) _ rfl
  · simp [Needs, Task.after]
  all_goals simp [count, perform, Needs, Task.after, posts]

theorem read_follows (w : Obj) {l : Task} (ready : l = .working w false false ∨
      ∃ zeroed, l = .holding w zeroed ∧ ∀ c, c ≠ .m_nErrorNum → c ∈ zeroed) :
    (Engine.read w).Follows discipline l
      (fun r l' => (r = -4 ∧ l' = l) ∨ (r = 0 ∧ l' = .working w false false)) :=
  postCounted_follows w _ rfl ready

theorem write_follows (w : Obj) :
    (write w).Follows discipline (.working w false false) (fun _ l => l = .working w false false) :=
  (postCounted_follows w _ rfl (.inl rfl)).mono fun _ _ ended => by
    rcases ended with ⟨_, same⟩ | ⟨_, same⟩ <;> exact same

theorem writes_follows (w : Obj) (n : Nat) :
    (writes w n).Follows discipline (.working w false false)
      (fun _ l => l = .working w false false) := by
  induction n with
  | zero => rfl
  | succ n ih =>
    refine Follows.bind ((write_follows w).mono ?_)
    rintro _ _ rfl
    exact ih

theorem readedDataProcess_follows (type : WorkerType) (w : Obj) :
    (readedDataProcess type w).Follows discipline (.working w false false)
      (fun _ l => l = .working w false false) := by
  cases type with
  | CTcpWorker => exact write_follows w
  | CRtspServer =>
    simp only [readedDataProcess, perform, perform_bind, follows_call]
    refine ⟨trivial, ?_⟩
    rintro (n : Nat) _ rfl
    refine Follows.bind ((writes_follows w n).mono ?_)
    rintro _ _ rfl
    rfl

/-- Closing a session and the release test, as ConsumeReq does in its branches. -/
theorem close_follows (w : Obj) (ret : Int) :
    (do let _ ← uninitObject w; releaseIfOver w; return ret : WorkerCall Int).Follows discipline
      (.working w false false) (fun _ => Task.Done) := by
  refine Follows.bind ((uninitObject_follows w w false).mono ?_)
  rintro _ _ rfl
  exact Follows.bind ((releaseIfOver_follows w).mono fun _ _ done => done)

theorem fail_follows (w : Obj) (ret : Int) :
    (do let _ ← uninitObject w; count w .m_nErrorNum; releaseIfOver w; return ret :
      WorkerCall Int).Follows discipline (.working w true false) (fun _ => Task.Done) := by
  refine Follows.bind ((uninitObject_follows w w true).mono ?_)
  rintro _ _ rfl
  simp only [count, perform, perform_bind, follows_call]
  refine ⟨⟨_, _, rfl, rfl⟩, ?_⟩
  rintro _ _ rfl
  exact Follows.bind ((releaseIfOver_follows w).mono fun _ _ done => done)

/-- The end of ConsumeReq: the next read. -/
theorem readAgain_follows (w : Obj) :
    (do
      let res ← Engine.read w
      set w fun s => { s with res }
      if (← get w).res < 0 then
        let _ ← uninitObject w
        releaseIfOver w
      return 0 : WorkerCall Int).Follows discipline (.working w false false)
        (fun _ => Task.Done) := by
  refine Follows.bind ((read_follows w (.inl rfl)).mono ?_)
  intro res l ended
  obtain rfl : l = .working w false false := by
    rcases ended with ⟨_, same⟩ | ⟨_, same⟩ <;> exact same
  simp only [set, get, perform, perform_bind, follows_call]
  refine ⟨trivial, ?_⟩
  rintro _ _ rfl
  refine ⟨trivial, ?_⟩
  rintro (this : Worker) _ rfl
  split
  · exact close_follows w 0
  · exact .inr ⟨w, rfl⟩

theorem consumeReq_follows (type : WorkerType) (bytenumber : Nat) (error : Bool) (povlp : IOReq) :
    (consumeReq type bytenumber error povlp).Follows discipline
      (.working povlp.m_pObserver true false)
      (fun _ => Task.Done) := by
  obtain ⟨w, operate⟩ := povlp
  simp only [consumeReq]
  cases error with
  | true =>
    simp only [set, perform, perform_bind]
    refine ⟨trivial, ?_⟩
    rintro _ _ rfl
    exact fail_follows w (-4)
  | false =>
    cases operate
    case SOCKET_READ =>
      simp only [count, perform, perform_bind]
      refine ⟨⟨_, _, rfl, rfl⟩, ?_⟩
      rintro _ _ rfl
      split
      · exact close_follows w (-1)
      · refine Follows.bind ((readedDataProcess_follows type w).mono ?_)
        rintro res _ rfl
        simp only [set, get, perform, perform_bind, follows_call]
        refine ⟨trivial, ?_⟩
        rintro _ _ rfl
        refine ⟨trivial, ?_⟩
        rintro (this : Worker) _ rfl
        split
        · exact close_follows w (-2)
        · exact readAgain_follows w
    case SOCKET_WRITE =>
      simp only [count, perform, perform_bind]
      refine ⟨⟨_, _, rfl, rfl⟩, ?_⟩
      rintro _ _ rfl
      exact .inr ⟨w, rfl⟩
    all_goals exact fail_follows w (-3)

theorem discard_follows {p : WorkerCall α} {l : Task}
    (follows : p.Follows discipline l (fun _ => Task.Done)) :
    (discard p).Follows discipline l (fun _ => Task.Done) :=
  Follows.bind (follows.mono fun _ _ done => done)

theorem initObject_follows (w v : Obj) (insock : Option Sock) (zeroed : List Counter) :
    (initObject w insock).Follows discipline (.holding v zeroed)
      (fun _ l => l = .holding v zeroed) := by
  simp only [initObject, set, perform, perform_bind]
  split <;> simp [Needs, Task.after]

/-- A worker that could not be started is still held. -/
theorem start_follows (w : Obj) :
    (start w).Follows discipline (.holding w [])
      (fun res l => if res = 0 then l = .working w false false else ∃ zeroed,
        l = .holding w zeroed) := by
  simp only [start, get, zero, perform, perform_bind, follows_call]
  refine ⟨trivial, ?_⟩
  rintro (this : Worker) _ rfl
  split
  · exact ⟨_, rfl⟩
  · simp only [follows_call]
    refine ⟨trivial, ?_⟩
    rintro (this : Worker) _ rfl
    refine ⟨trivial, ?_⟩
    rintro (_ | _) _ rfl
    · exact ⟨_, rfl⟩
    · simp only [Bool.not_true, Bool.false_eq_true, if_false, follows_call]
      refine ⟨⟨_, rfl⟩, ?_⟩
      rintro _ _ rfl
      refine ⟨⟨_, rfl⟩, ?_⟩
      rintro _ _ rfl
      refine ⟨⟨_, rfl⟩, ?_⟩
      rintro _ _ rfl
      refine ⟨⟨_, rfl⟩, ?_⟩
      rintro _ _ rfl
      have zeroed : ∀ c, c ≠ Counter.m_nErrorNum →
          c ∈ [Counter.m_nWritedNum, .m_nWriteNum, .m_nRecvedNum, .m_nRecvNum] := by
        intro c
        cases c <;> simp
      refine Follows.bind ((read_follows w (.inr ⟨_, rfl, zeroed⟩)).mono ?_)
      rintro res l (⟨rfl, rfl⟩ | ⟨rfl, rfl⟩)
      · exact ⟨_, rfl⟩
      · simp [set, perform, Needs, Task.after]

theorem takeWorker_follows :
    takeWorker.Follows discipline .idle (fun w l => l = .holding w []) := by
  simp only [takeWorker, perform, perform_bind, follows_call]
  refine ⟨rfl, ?_⟩
  rintro (_ | w) _ rfl
  · exact ⟨rfl, fun _ _ same => same⟩
  · rfl

theorem accepted_follows (error : Bool) (m_Socket : Sock) :
    (accepted error m_Socket).Follows discipline .idle (fun _ => Task.Done) := by
  simp only [accepted]
  cases error with
  | true => simp [perform, Needs, Task.after, Task.Done]
  | false =>
    refine Follows.bind (takeWorker_follows.mono ?_)
    rintro w _ rfl
    refine Follows.bind ((initObject_follows w w _ _).mono ?_)
    rintro _ _ rfl
    refine Follows.bind ((start_follows w).mono ?_)
    intro res l started
    simp only [perform, perform_bind]
    by_cases suc : res = 0
    · rw [if_pos suc] at started ⊢
      subst started
      exact ⟨trivial, fun _ _ same => .inr ⟨w, same⟩⟩
    · rw [if_neg suc] at started ⊢
      obtain ⟨zeroed, rfl⟩ := started
      exact ⟨⟨_, rfl⟩, fun _ _ same => .inl same⟩

end

end TestIOCP.Engine
