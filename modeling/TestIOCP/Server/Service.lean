import Mathlib.Data.List.Count
import Mathlib.Tactic.ByContra

/-! StartService and StopService of CTcpIOCPServerImp, and the resources of the system
that they acquire and release. The threads use these resources and release none of them,
so the calls can be taken one after the other. -/
namespace TestIOCP.Service

/-- An object of the system. WSAStartup counts its calls, and has no handle. -/
inductive Resource where
  | completionPort (n : Nat)
  | socket (n : Nat)
  | event (n : Nat)
  | thread (n : Nat)
  | startup
  deriving DecidableEq, Repr

inductive Entry where
  | acquired (r : Resource)
  | released (r : Resource)
  deriving DecidableEq, Repr

/-- Which of the calls that StartService makes succeed. -/
structure Answers where
  CreateIoCompletionPort : Bool
  WSAStartup : Bool
  socket : Bool
  WSACreateEvent : Bool
  WSAEventSelect : Bool
  bind : Bool
  listen : Bool
  beginthreadex : Nat → Bool

/-- The fields of the server, with the objects numbered in the order in which they are
acquired, and what has been acquired and released so far. -/
structure ServerImp where
  m_hIOCP : Option Nat
  m_ListenSocket : Option Nat
  m_hEvent : Option Nat
  m_bAcceptRunning : Bool
  m_bWorkRunning : Bool
  m_pThreadHandle : Option (List (Option Nat))
  m_pThreadData : Option (List Nat)
  acquisitions : Nat
  log : List Entry
  deriving DecidableEq, Repr

namespace ServerImp

/-- What the constructor leaves. -/
def constructed : ServerImp :=
  ⟨none, none, none, false, false, none, none, 0, []⟩

/-- A call that returns a new object. -/
def acquire (s : ServerImp) (kind : Nat → Resource) : ServerImp :=
  { s with acquisitions := s.acquisitions + 1, log := s.log ++ [.acquired (kind s.acquisitions)] }

/-- A call that closes an object, unless the handle is the invalid one. -/
def release (s : ServerImp) (kind : Nat → Resource) (handle : Option Nat) : ServerImp :=
  match handle with
  | none => s
  | some n => { s with log := s.log ++ [.released (kind n)] }

def WSACleanup (s : ServerImp) : ServerImp :=
  { s with log := s.log ++ [.released .startup] }

/-- What the later failures of InitSocket have in common. -/
def undoSocket (s : ServerImp) : ServerImp :=
  let s := ((s.release .socket s.m_ListenSocket).release .event s.m_hEvent).WSACleanup
  { s with m_ListenSocket := none, m_hEvent := none }

def InitSocket (a : Answers) (s : ServerImp) : Int × ServerImp :=
  let s := if a.WSAStartup then { s with log := s.log ++ [.acquired .startup] } else s
  if !a.socket then (-1, { s.WSACleanup with m_ListenSocket := none })
  else
    let s := { s.acquire .socket with m_ListenSocket := some s.acquisitions }
    if !a.WSACreateEvent then
      (-2,
        { (s.release .socket s.m_ListenSocket).WSACleanup with
          m_ListenSocket := none, m_hEvent := none })
    else
      let s := { s.acquire .event with m_hEvent := some s.acquisitions }
      if !a.WSAEventSelect then (-3, s.undoSocket)
      else if !a.bind then (-4, s.undoSocket)
      else if !a.listen then (-5, s.undoSocket)
      else (0, s)

/-- The handle in an element of m_pThreadHandle. -/
def threadHandle (s : ServerImp) (i : Nat) : Option Nat :=
  (s.m_pThreadHandle.getD []).getD i none

/-- _beginthreadex, whose result goes to an element of m_pThreadHandle. -/
def beginThread (a : Answers) (s : ServerImp) (i : Nat) : ServerImp :=
  if a.beginthreadex i then
    { s.acquire .thread with
      m_pThreadHandle := s.m_pThreadHandle.map fun handles => handles.set i (some s.acquisitions) }
  else { s with m_pThreadHandle := s.m_pThreadHandle.map fun handles => handles.set i none }

/-- The loop that creates the worker threads. It tests the handle of the accept thread. -/
def workThreads (a : Answers) : Nat → Nat → ServerImp → Int × ServerImp
  | 0, _, s => (0, s)
  | more + 1, i, s =>
    let s := s.beginThread a i
    if s.threadHandle 0 = none then (-1 * (i + 1), s) else workThreads a more (i + 1) s

/-- The part of StartService after InitSocket. The elements of a new array are undefined,
but each is assigned before it is read. -/
def startThreads (m_nThreadNums : Nat) (a : Answers) (s : ServerImp) : Int × ServerImp :=
  let s := { s with
    m_pThreadHandle := some (List.replicate (m_nThreadNums + 1) none)
    m_pThreadData := some (List.replicate (m_nThreadNums + 1) 0)
    m_bAcceptRunning := true }
  let s := s.beginThread a 0
  if s.threadHandle 0 = none then (-1, s)
  else workThreads a m_nThreadNums 1 { s with m_bWorkRunning := true }

def StartService (m_nThreadNums : Nat) (a : Answers) (s : ServerImp) : Int × ServerImp :=
  if s.m_bAcceptRunning then (0, s)
  else
    let s := if a.CreateIoCompletionPort then
        { s.acquire .completionPort with m_hIOCP := some s.acquisitions }
      else { s with m_hIOCP := none }
    if s.m_hIOCP = none then (-1, s)
    else
      let (ret, s) := s.InitSocket a
      if ret < 0 then (-2, s.release .completionPort s.m_hIOCP)
      else s.startThreads m_nThreadNums a

/-- CloseHandle for each worker thread. -/
def closeThreads : Nat → Nat → ServerImp → ServerImp
  | 0, _, s => s
  | more + 1, i, s => closeThreads more (i + 1) (s.release .thread (s.threadHandle i))

def StopService (m_nThreadNums : Nat) (s : ServerImp) : ServerImp :=
  let s := if s.m_bAcceptRunning then
      { s.release .thread (s.threadHandle 0) with m_bAcceptRunning := false }
    else s
  let s := if s.m_bWorkRunning then
      { closeThreads m_nThreadNums 1 s with m_bWorkRunning := false }
    else s
  let s := { s with m_pThreadHandle := none, m_pThreadData := none }
  let s := { s.release .completionPort s.m_hIOCP with m_hIOCP := none }
  { s.release .socket s.m_ListenSocket with m_ListenSocket := none }

end ServerImp

/-- The calls of a user of the server. -/
inductive Call where
  | StartService (a : Answers)
  | StopService

namespace ServerImp

def call (m_nThreadNums : Nat) (s : ServerImp) : Call → ServerImp
  | .StartService a => (s.StartService m_nThreadNums a).2
  | .StopService => s.StopService m_nThreadNums

def after (m_nThreadNums : Nat) (calls : List Call) : ServerImp :=
  calls.foldl (call m_nThreadNums) constructed

/-- The destructor calls StopService once more. -/
def destroyed (m_nThreadNums : Nat) (calls : List Call) : ServerImp :=
  (after m_nThreadNums calls).StopService m_nThreadNums

/-- The fields that a failed StartService should leave as they were. -/
structure Restored (before after : ServerImp) : Prop where
  m_hIOCP : after.m_hIOCP = before.m_hIOCP
  m_ListenSocket : after.m_ListenSocket = before.m_ListenSocket
  m_hEvent : after.m_hEvent = before.m_hEvent
  m_bAcceptRunning : after.m_bAcceptRunning = before.m_bAcceptRunning
  m_bWorkRunning : after.m_bWorkRunning = before.m_bWorkRunning
  m_pThreadHandle : after.m_pThreadHandle = before.m_pThreadHandle
  m_pThreadData : after.m_pThreadData = before.m_pThreadData

/-- What is acquired is released exactly once by the end, and a failure changes nothing. -/
structure Balanced (m_nThreadNums : Nat) (calls : List Call) : Prop where
  released : ∀ r, (destroyed m_nThreadNums calls).log.count (.released r) =
    (destroyed m_nThreadNums calls).log.count (.acquired r)
  once : ∀ r, r ≠ .startup → (destroyed m_nThreadNums calls).log.count (.released r) ≤ 1
  restored : ∀ earlier a later, calls = earlier ++ .StartService a :: later →
    ((after m_nThreadNums earlier).StartService m_nThreadNums a).1 < 0 →
    Restored (after m_nThreadNums earlier)
      ((after m_nThreadNums earlier).StartService m_nThreadNums a).2

theorem stop_constructed (n : Nat) : constructed.StopService n = constructed := rfl

/-- Without a completion port a new server stays as it is. -/
theorem start_refused (n : Nat) {a : Answers} (refused : a.CreateIoCompletionPort = false) :
    constructed.StartService n a = (-1, constructed) := by
  simp [StartService, constructed, refused]

/-- No call gets a completion port. -/
def Refused (calls : List Call) : Prop :=
  ∀ a, .StartService a ∈ calls → a.CreateIoCompletionPort = false

theorem after_refused {n : Nat} {calls : List Call} (refused : Refused calls) :
    after n calls = constructed := by
  induction calls with
  | nil => rfl
  | cons c calls ih =>
    have others : Refused calls := fun a inside => refused a (List.mem_cons_of_mem _ inside)
    have first : constructed.call n c = constructed := by
      cases c with
      | StartService a => rw [call, start_refused n (refused a List.mem_cons_self)]
      | StopService => rfl
    rw [after, List.foldl_cons, first]
    exact ih others

/-- An event object that has been acquired and is never closed. -/
structure Lost (e : Nat) (s : ServerImp) : Prop where
  acquired : .acquired (.event e) ∈ s.log
  kept : .released (.event e) ∉ s.log
  old : e < s.acquisitions

namespace Lost
variable {e : Nat} {s s' : ServerImp}

theorem append {entries : List Entry} (lost : Lost e s) (more : s'.log = s.log ++ entries)
    (other : .released (.event e) ∉ entries)
    (later : s.acquisitions ≤ s'.acquisitions) : Lost e s' := by
  constructor
  · rw [more]
    exact List.mem_append_left _ lost.acquired
  · rw [more, List.mem_append, not_or]
    exact ⟨lost.kept, other⟩
  · exact Nat.lt_of_lt_of_le lost.old later

theorem acquire (lost : Lost e s) (kind : Nat → Resource) : Lost e (s.acquire kind) :=
  lost.append rfl (by simp) (Nat.le_succ _)

theorem release (lost : Lost e s) (kind : Nat → Resource) (handle : Option Nat)
    (other : ∀ n, handle = some n → kind n ≠ .event e) : Lost e (s.release kind handle) := by
  cases handle with
  | none => exact lost
  | some n => exact lost.append rfl (by simpa using Ne.symm (other n rfl)) (Nat.le_refl _)

theorem cleanup (lost : Lost e s) : Lost e s.WSACleanup :=
  lost.append rfl (by simp) (Nat.le_refl _)

/-- Fields do not matter. -/
theorem fields (lost : Lost e s) (log : s'.log = s.log)
    (acquisitions : s'.acquisitions = s.acquisitions) :
    Lost e s' :=
  lost.append (by rw [log, List.append_nil]) (by simp) (Nat.le_of_eq acquisitions.symm)

theorem undoSocket (lost : Lost e s) (other : s.m_hEvent ≠ some e) : Lost e s.undoSocket := by
  have closed := ((lost.release .socket s.m_ListenSocket (by simp)).release
    .event s.m_hEvent (by rintro n found ⟨⟩; exact other found)).cleanup
  exact closed.fields rfl rfl

theorem startup (lost : Lost e s) (a : Answers) :
    Lost e (if a.WSAStartup then { s with log := s.log ++ [.acquired .startup] } else s) := by
  split
  · exact lost.append rfl (by simp) (Nat.le_refl _)
  · exact lost

theorem initSocket (lost : Lost e s) (a : Answers) : Lost e (s.InitSocket a).2 := by
  have started := lost.startup a
  simp only [InitSocket]
  generalize (if a.WSAStartup then { s with log := s.log ++ [.acquired .startup] } else
    s) = s₁ at started ⊢
  cases a.socket with
  | false => exact started.cleanup.fields rfl rfl
  | true =>
    have listening : Lost e { s₁.acquire .socket with m_ListenSocket := some s₁.acquisitions } :=
      (started.acquire .socket).fields rfl rfl
    cases a.WSACreateEvent with
    | false =>
      have closed := (listening.release .socket (some s₁.acquisitions) (by simp)).cleanup
      exact closed.fields rfl rfl
    | true =>
      have evented : Lost e { ({ s₁.acquire .socket with
          m_ListenSocket := some s₁.acquisitions } : ServerImp).acquire .event with
          m_hEvent := some (s₁.acquisitions + 1) } := (listening.acquire .event).fields rfl rfl
      -- The new event object is not the lost one.
      have other : some (s₁.acquisitions + 1) ≠ some e := by
        have old := started.old
        simp only [ne_eq, Option.some.injEq]
        omega
      cases a.WSAEventSelect with
      | false => exact evented.undoSocket other
      | true =>
        cases a.bind with
        | false => exact evented.undoSocket other
        | true =>
          cases a.listen with
          | false => exact evented.undoSocket other
          | true => exact evented

theorem beginThread (lost : Lost e s) (a : Answers) (i : Nat) : Lost e (s.beginThread a i) := by
  simp only [ServerImp.beginThread]
  split
  · exact (lost.acquire .thread).fields rfl rfl
  · exact lost.fields rfl rfl

theorem workThreads (lost : Lost e s) (a : Answers) (more i : Nat) :
    Lost e (s.workThreads a more i).2 := by
  induction more generalizing i s with
  | zero => exact lost
  | succ more ih =>
    simp only [ServerImp.workThreads]
    split
    · exact lost.beginThread a i
    · exact ih (lost.beginThread a i) (i + 1)

theorem startThreads (lost : Lost e s) (n : Nat) (a : Answers) : Lost e (s.startThreads n a).2 := by
  have running : Lost e { s with
      m_pThreadHandle := some (List.replicate (n + 1) none)
      m_pThreadData := some (List.replicate (n + 1) 0)
      m_bAcceptRunning := true } := lost.fields rfl rfl
  have begun := running.beginThread a 0
  simp only [ServerImp.startThreads]
  split
  · exact begun
  · generalize ServerImp.beginThread a _ 0 = s₁ at begun ⊢
    have working : Lost e { s₁ with m_bWorkRunning := true } := begun.fields rfl rfl
    exact working.workThreads a n 1

/-- StartService closes no event object but its own. -/
theorem startService (lost : Lost e s) (n : Nat) (a : Answers) : Lost e (s.StartService n a).2 := by
  simp only [StartService]
  split
  · exact lost
  · have ported : Lost e (if a.CreateIoCompletionPort then
        { s.acquire .completionPort with m_hIOCP := some s.acquisitions }
        else { s with m_hIOCP := none }) := by
      split
      · exact (lost.acquire .completionPort).fields rfl rfl
      · exact lost.fields rfl rfl
    generalize (if a.CreateIoCompletionPort then
        { s.acquire .completionPort with m_hIOCP := some s.acquisitions }
        else { s with m_hIOCP := none }) = s₁ at ported ⊢
    split
    · exact ported
    · split
      · exact (ported.initSocket a).release _ _ (by simp)
      · exact (ported.initSocket a).startThreads n a

theorem closeThreads (lost : Lost e s) (more i : Nat) : Lost e (s.closeThreads more i) := by
  induction more generalizing i s with
  | zero => exact lost
  | succ more ih => exact ih (lost.release _ _ (by simp)) (i + 1)

/-- And StopService closes none. -/
theorem stopService (lost : Lost e s) (n : Nat) : Lost e (s.StopService n) := by
  have accepted : Lost e (if s.m_bAcceptRunning then
      { s.release .thread (s.threadHandle 0) with m_bAcceptRunning := false } else s) := by
    split
    · exact (lost.release .thread (s.threadHandle 0) (by simp)).fields rfl rfl
    · exact lost
  simp only [StopService]
  generalize (if s.m_bAcceptRunning then
      { s.release .thread (s.threadHandle 0) with m_bAcceptRunning := false } else s) =
        s₁ at accepted ⊢
  have worked : Lost e (if s₁.m_bWorkRunning then
      { s₁.closeThreads n 1 with m_bWorkRunning := false } else s₁) := by
    split
    · exact (accepted.closeThreads n 1).fields rfl rfl
    · exact accepted
  generalize (if s₁.m_bWorkRunning then
      { s₁.closeThreads n 1 with m_bWorkRunning := false } else s₁) = s₂ at worked ⊢
  have freed : Lost e { s₂ with m_pThreadHandle := none, m_pThreadData := none } :=
    worked.fields rfl rfl
  have closed := freed.release .completionPort s₂.m_hIOCP (by simp)
  generalize ServerImp.release _ .completionPort s₂.m_hIOCP = s₃ at closed ⊢
  have cleared : Lost e { s₃ with m_hIOCP := none } := closed.fields rfl rfl
  have deaf := cleared.release .socket s₃.m_ListenSocket (by simp)
  exact deaf.fields rfl rfl

theorem calls (lost : Lost e s) (n : Nat) (calls : List Call) :
    Lost e (calls.foldl (call n) s) := by
  induction calls generalizing s with
  | nil => exact lost
  | cons c calls ih =>
    cases c with
    | StartService a => exact ih (lost.startService n a)
    | StopService => exact ih (lost.stopService n)

end Lost

/-! ### When the port is created -/

section Port
variable (s : ServerImp)

@[simp] theorem acquire_port (kind : Nat → Resource) : (s.acquire kind).m_hIOCP = s.m_hIOCP := rfl

@[simp] theorem release_port (kind : Nat → Resource) (handle : Option Nat) :
    (s.release kind handle).m_hIOCP = s.m_hIOCP := by
  cases handle <;> rfl

@[simp] theorem cleanup_port : s.WSACleanup.m_hIOCP = s.m_hIOCP := rfl

@[simp] theorem undoSocket_port : s.undoSocket.m_hIOCP = s.m_hIOCP := by
  simp [undoSocket]

@[simp] theorem initSocket_port (a : Answers) : (s.InitSocket a).2.m_hIOCP = s.m_hIOCP := by
  simp only [InitSocket]
  cases a.WSAStartup <;> cases a.socket <;> cases a.WSACreateEvent <;> cases a.WSAEventSelect <;>
    cases a.bind <;> cases a.listen <;> simp

@[simp] theorem beginThread_port (a : Answers) (i : Nat) :
    (s.beginThread a i).m_hIOCP = s.m_hIOCP := by
  simp only [beginThread]
  split <;> rfl

@[simp] theorem workThreads_port (a : Answers) (more i : Nat) :
    (s.workThreads a more i).2.m_hIOCP = s.m_hIOCP := by
  induction more generalizing i s with
  | zero => rfl
  | succ more ih =>
    simp only [workThreads]
    split
    · exact beginThread_port s a i
    · rw [ih, beginThread_port]

@[simp] theorem startThreads_port (n : Nat) (a : Answers) :
    (s.startThreads n a).2.m_hIOCP = s.m_hIOCP := by
  simp only [startThreads]
  split
  · rw [beginThread_port]
  · rw [workThreads_port, beginThread_port]

end Port

/-- A new server with its port. -/
def ported : ServerImp := { constructed.acquire .completionPort with m_hIOCP := some 0 }

theorem start_created (n : Nat) {a : Answers} (created : a.CreateIoCompletionPort = true) :
    constructed.StartService n a =
      if (ported.InitSocket a).1 < 0 then
        (-2, (ported.InitSocket a).2.release .completionPort (ported.InitSocket a).2.m_hIOCP)
      else (ported.InitSocket a).2.startThreads n a := by
  simp only [StartService, created]
  rfl

/-- It keeps the handle of the port, also when it has closed the port again. -/
theorem start_port (n : Nat) {a : Answers} (created : a.CreateIoCompletionPort = true) :
    (constructed.StartService n a).2.m_hIOCP = some 0 := by
  rw [start_created n created]
  split
  · rw [release_port, initSocket_port]
    rfl
  · rw [startThreads_port, initSocket_port]
    rfl

/-- Without a failure InitSocket leaves the event object that follows the socket. -/
theorem initSocket_lost {a : Answers} (ready : ¬ (ported.InitSocket a).1 < 0) :
    Lost 2 (ported.InitSocket a).2 := by
  revert ready
  simp only [InitSocket]
  cases a.WSAStartup <;> cases a.socket <;> cases a.WSACreateEvent <;> cases a.WSAEventSelect <;>
    cases a.bind <;> cases a.listen <;> intro ready <;> first
      | exact absurd (by decide) ready
      | exact ⟨by decide, by decide, by decide⟩

/-- What an unbalanced sequence shows: the object is still there at the end. -/
theorem Lost.leaked {e : Nat} {s : ServerImp} (lost : Lost e s)
    (released : s.log.count (.released (.event e)) = s.log.count (.acquired (.event e))) :
      False := by
  have acquired : 0 < s.log.count (.acquired (.event e)) := List.count_pos_iff.mpr lost.acquired
  have kept : s.log.count (.released (.event e)) = 0 := List.count_eq_zero.mpr lost.kept
  omega

/-- The first call that gets a port comes to a server as it was constructed. -/
theorem first_created {calls : List Call} (created : ¬ Refused calls) :
    ∃ earlier a later, calls = earlier ++ .StartService a :: later ∧ Refused earlier ∧
      a.CreateIoCompletionPort = true := by
  induction calls with
  | nil => exact absurd (fun _ inside => absurd inside List.not_mem_nil) created
  | cons c calls ih =>
    by_cases first : ∃ a, c = .StartService a ∧ a.CreateIoCompletionPort = true
    · obtain ⟨a, rfl, ported⟩ := first
      exact ⟨[], a, calls, rfl, fun _ inside => absurd inside List.not_mem_nil, ported⟩
    · have others : ∀ a, c = .StartService a → a.CreateIoCompletionPort = false := by
        intro a here
        by_contra ported
        exact first ⟨a, here, by simpa using ported⟩
      have rest : ¬ Refused calls := by
        intro refused
        apply created
        intro a inside
        rcases List.mem_cons.mp inside with here | inside
        · exact others a here.symm
        · exact refused a inside
      obtain ⟨earlier, a, later, rfl, refused, ported⟩ := ih rest
      refine ⟨c :: earlier, a, later, rfl, ?_, ported⟩
      intro b inside
      rcases List.mem_cons.mp inside with here | inside
      · exact others b here.symm
      · exact refused b inside

/-- A user who never gets a port finds the server balanced. -/
theorem balanced_of_refused {n : Nat} {calls : List Call} (refused : Refused calls) :
    Balanced n calls := by
  have nothing : (destroyed n calls).log = [] := by
    rw [destroyed, after_refused refused, stop_constructed]
    rfl
  constructor
  · intro r
    rw [nothing]
    rfl
  · intro r _
    rw [nothing]
    exact Nat.zero_le 1
  · rintro earlier a later rfl failed
    have before : Refused earlier := fun b inside => refused b (List.mem_append_left _ inside)
    have none : a.CreateIoCompletionPort = false :=
      refused a (List.mem_append_right _ List.mem_cons_self)
    rw [after_refused before, start_refused n none]
    constructor <;> rfl

/-- A server is balanced just if it never gets a completion port: a failure after that
leaves the handle in its field, and a success leaves the event object. -/
theorem balanced_iff (m_nThreadNums : Nat) (calls : List Call) :
    Balanced m_nThreadNums calls ↔ Refused calls := by
  constructor
  · intro balanced
    by_contra created
    obtain ⟨earlier, a, later, rfl, refused, got⟩ := first_created created
    have new : after m_nThreadNums earlier = constructed := after_refused refused
    by_cases failed : (constructed.StartService m_nThreadNums a).1 < 0
    · have restored := balanced.restored earlier a later rfl (by rw [new]; exact failed)
      have handle := restored.m_hIOCP
      rw [new, start_port m_nThreadNums got] at handle
      contradiction
    · have lost : Lost 2 (constructed.StartService m_nThreadNums a).2 := by
        rw [start_created m_nThreadNums got] at failed ⊢
        split at failed
        · exact absurd (by show (-2 : Int) < 0; decide) failed
        · rename_i ready
          rw [if_neg ready]
          exact (initSocket_lost ready).startThreads m_nThreadNums a
      have further : after m_nThreadNums (earlier ++ .StartService a :: later) =
          later.foldl (call m_nThreadNums) (constructed.StartService m_nThreadNums a).2 := by
        rw [after, List.foldl_append, List.foldl_cons]
        exact congrArg (fun s => later.foldl (call m_nThreadNums)
          (s.StartService m_nThreadNums a).2) new
      have kept : Lost 2 (destroyed m_nThreadNums (earlier ++ .StartService a :: later)) := by
        rw [destroyed, further]
        exact (lost.calls m_nThreadNums later).stopService m_nThreadNums
      exact kept.leaked (balanced.released (.event 2))
  · exact balanced_of_refused

/-- All calls succeed. -/
def succeeding : Answers := ⟨true, true, true, true, true, true, true, fun _ => true⟩

/-- After a successful start and a stop, the event object and WSAStartup are left over. After
a start that fails at the socket, the port is closed twice. -/
theorem unbalanced :
    (¬ Balanced 1 [.StartService succeeding, .StopService] ∧
      (destroyed 1 [.StartService succeeding, .StopService]).log =
        [.acquired (.completionPort 0), .acquired .startup, .acquired (.socket 1),
          .acquired (.event 2),
          .acquired (.thread 3), .acquired (.thread 4), .released (.thread 3),
            .released (.thread 4),
          .released (.completionPort 0), .released (.socket 1)]) ∧
    (¬ Balanced 1 [.StartService { succeeding with socket := false }] ∧
      (destroyed 1 [.StartService { succeeding with socket := false }]).log =
        [.acquired (.completionPort 0), .acquired .startup, .released .startup,
          .released (.completionPort 0), .released (.completionPort 0)]) := by
  refine ⟨⟨?_, by decide⟩, ⟨?_, by decide⟩⟩
  · intro balanced
    exact absurd (balanced.released (.event 2)) (by decide)
  · intro balanced
    exact absurd (balanced.once (.completionPort 0) (by decide)) (by decide)

end ServerImp
end TestIOCP.Service
