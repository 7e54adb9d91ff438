import TestIOCP.Ledger
import TestIOCP.Transition
import Mathlib.Data.BitVec

/-! CIOCompletionPortCenter: the threads that take completions off the port and report each
one to the observer of its request, from InitObj until UninitObject has closed the port
under them. -/
namespace TestIOCP.Center
open Transition

/-- What m_hCompletionPort may be; CreateIoCompletionPort returns NULL when it fails. -/
inductive Handle where
  | INVALID_HANDLE_VALUE
  | NULL
  | port
  deriving DecidableEq, Repr

def ERROR_INVALID_HANDLE : BitVec 32 := 6
def ERROR_ABANDONED_WAIT_0 : BitVec 32 := 735

/-- An operation that has ended, with an error other than zero if it failed. povlp is its
request, whose observer does not change before the report. -/
structure Completion (O : Type) where
  povlp : Nat
  m_pObserver : O
  dwnumbytes : BitVec 32
  completionkey : BitVec 32
  dwerror : BitVec 32
  deriving DecidableEq, Repr

/-- A call of ConsumeReq. -/
structure Report (O : Type) where
  m_pObserver : O
  bytenumber : BitVec 32
  ck : BitVec 32
  error : BitVec 32
  povlp : Nat
  deriving DecidableEq, Repr

/-- CIOReq::ReportResult. -/
def reportResult {O : Type} (c : Completion O) (bytenumber ck error : BitVec 32) : Report O :=
  ⟨c.m_pObserver, bytenumber, ck, error, c.povlp⟩

/-- What ProcessThread makes of a completion; the last argument has a default. -/
def processed {O : Type} (c : Completion O) : Report O :=
  let bsuc := c.dwerror = 0
  if bsuc then reportResult c c.dwnumbytes c.completionkey 0
  else reportResult c c.dwnumbytes c.completionkey c.dwerror

/-- Where a thread is in ProcessThread: at the head of the loop, before and in
GetQueuedCompletionStatus, and before ReportResult. -/
inductive Point where
  | none
  | test
  | call
  | wait (m_hCompletionPort : Handle)
  | report (completion : Nat)
  | ended
  deriving DecidableEq, Repr

/-- Where the owner is: in the loop of InitObj, after it, and in UninitObject before
CloseHandle, after it, and behind both. -/
inductive Owner where
  | new
  | starting (i : Nat)
  | ready (res : Int)
  | stopping
  | closing
  | stopped
  deriving DecidableEq, Repr

/-- The completions are numbered as they come. What a thread reports after m_bProcessing was
cleared is counted in late. -/
structure IOCompletionPortCenter (O : Type) where
  m_nThreadNum : Int
  m_bProcessing : Bool
  m_hCompletionPort : Handle
  open_ : Bool
  owner : Owner
  threads : Nat → Point
  posted : List (Completion O)
  queue : List Nat
  reports : List (Nat × Report O)
  late : Nat → Nat

variable {O : Type}

def constructed : IOCompletionPortCenter O :=
  ⟨0, false, .INVALID_HANDLE_VALUE, false, .new, fun _ => .none, [], [], [], fun _ => 0⟩

/-- What GetQueuedCompletionStatus returns: a completion, or an error without one. -/
inductive Got where
  | completion
  | failed (dwerror : BitVec 32)
  deriving DecidableEq, Repr

def IOCompletionPortCenter.goto (s : IOCompletionPortCenter O) (t : Nat) (p : Point) :
    IOCompletionPortCenter O :=
  { s with threads := Function.update s.threads t p }

/-- With 6 or 735 the loop is left. -/
def afterError (dwerror : BitVec 32) : Point :=
  if ERROR_INVALID_HANDLE = dwerror ∨ ERROR_ABANDONED_WAIT_0 = dwerror then .ended else .test

/-- On the open port there is a completion or an error that does not mean that the handle
is no longer good; on anything else there is one that does. -/
def getQueuedCompletionStatus (s : IOCompletionPortCenter O) (t : Nat)
    (m_hCompletionPort : Handle) :
    Got → Option (IOCompletionPortCenter O)
  | .completion =>
    if m_hCompletionPort = .port ∧ s.open_ = true then
      match s.queue with
      | [] => none
      | i :: queue => some { s.goto t (.report i) with queue }
    else none
  | .failed dwerror =>
    if (m_hCompletionPort = .port ∧ s.open_ = true) ↔ afterError dwerror = .test then
      some (s.goto t (afterError dwerror))
    else none

/-- The next step of a thread. -/
def processThread (s : IOCompletionPortCenter O) (t : Nat) (got : Got) :
    Option (IOCompletionPortCenter O) :=
  match s.threads t with
  | .none | .ended => none
  | .test => some (s.goto t (if s.m_bProcessing then .call else .ended))
  | .call => some (s.goto t (.wait s.m_hCompletionPort))
  | .wait m_hCompletionPort => getQueuedCompletionStatus s t m_hCompletionPort got
  | .report i =>
    s.posted[i]?.map fun c =>
      { s.goto t .test with
        reports := s.reports ++ [(i, processed c)]
        late := if s.m_bProcessing then s.late
          else Function.update s.late t (s.late t + 1) }

/-- The calls of the owner, step by step; an operation that ends; and a thread. -/
inductive Label (O : Type) where
  | initObj (nthreadnumber : Int) (processors : Nat) (created : Bool)
  | beginThread (ok : Bool)
  | uninitObject
  | closeHandle
  | clear
  | post (c : Completion O)
  | thread (t : Nat) (got : Got)

def next (s : IOCompletionPortCenter O) : Label O → Option (IOCompletionPortCenter O)
  | .initObj nthreadnumber processors created =>
    if s.owner = .new then
      some { s with
        m_nThreadNum := if nthreadnumber ≤ 0 then processors else nthreadnumber
        -- a handle of NULL is not INVALID_HANDLE_VALUE, so InitObj goes on
        m_hCompletionPort := if created then .port else .NULL
        open_ := created
        m_bProcessing := true
        owner := .starting 0 }
    else none
  | .beginThread ok =>
    match s.owner with
    | .starting i =>
      if (i : Int) < s.m_nThreadNum * 2 then
        if ok then some { s.goto i .test with owner := .starting (i + 1) }
        else some { s with owner := .ready (-2) }
      else some { s with owner := .ready 0 }
    | .new | .ready _ | .stopping | .closing | .stopped => none
  | .uninitObject =>
    match s.owner with
    | .ready _ => some { s with m_bProcessing := false, owner := .stopping }
    | .new | .starting _ | .stopping | .closing | .stopped => none
  | .closeHandle =>
    if s.owner = .stopping then some { s with open_ := false, owner := .closing } else none
  | .clear =>
    if s.owner = .closing then
      some { s with m_hCompletionPort := .INVALID_HANDLE_VALUE, owner := .stopped }
    else none
  | .post c =>
    if s.open_ = true then
      some { s with posted := s.posted ++ [c], queue := s.queue ++ [s.posted.length] }
    else none
  | .thread t got => processThread s t got

def system (O : Type) : System (IOCompletionPortCenter O) (Label O) where
  initial s := s = constructed
  next := next

variable {s s' : IOCompletionPortCenter O} {t : Nat} {got : Got}

/-- What a step of a thread can do. -/
theorem processThread_cases (went : processThread s t got = some s') :
    (s.threads t = .test ∧ s' = s.goto t (if s.m_bProcessing then .call else .ended)) ∨
    (s.threads t = .call ∧ s' = s.goto t (.wait s.m_hCompletionPort)) ∨
    (∃ i queue, s.threads t = .wait .port ∧ s.open_ = true ∧ s.queue = i :: queue ∧
      s' = { s.goto t (.report i) with queue }) ∨
    (∃ handle dwerror, s.threads t = .wait handle ∧
      ((handle = .port ∧ s.open_ = true) ↔ afterError dwerror = .test) ∧
      s' = s.goto t (afterError dwerror)) ∨
    (∃ i c, s.threads t = .report i ∧ s.posted[i]? = some c ∧ s' = { s.goto t .test with
      reports := s.reports ++ [(i, processed c)]
      late := if s.m_bProcessing then s.late else Function.update s.late t (s.late t + 1) }) := by
  simp only [processThread] at went
  cases at_ : s.threads t with
  | none =>
    rw [at_] at went
    cases went
  | ended =>
    rw [at_] at went
    cases went
  | test =>
    rw [at_] at went
    cases went
    exact .inl ⟨rfl, rfl⟩
  | call =>
    rw [at_] at went
    cases went
    exact .inr (.inl ⟨rfl, rfl⟩)
  | wait handle =>
    simp only [at_] at went
    cases got with
    | completion =>
      simp only [getQueuedCompletionStatus] at went
      split at went
      · rename_i good
        split at went
        · cases went
        · rename_i i queue list
          cases went
          exact .inr (.inr (.inl ⟨i, queue, by rw [good.1], good.2, list, rfl⟩))
      · cases went
    | failed dwerror =>
      simp only [getQueuedCompletionStatus] at went
      split at went
      · rename_i meant
        cases went
        exact .inr (.inr (.inr (.inl ⟨handle, dwerror, rfl, meant, rfl⟩)))
      · cases went
  | report i =>
    simp only [at_] at went
    obtain ⟨c, found, rfl⟩ := Option.map_eq_some_iff.mp went
    exact .inr (.inr (.inr (.inr ⟨i, c, rfl, found, rfl⟩)))

theorem afterError_cases (dwerror : BitVec 32) :
    afterError dwerror = .ended ∨ afterError dwerror = .test := by
  rw [afterError]
  split
  · exact .inl rfl
  · exact .inr rfl

/-! ### Every completion is reported once -/

inductive Place where
  | queued
  | hand (t : Nat)
  | reported

/-- The completion waits in the port, or a thread is about to report it, or it is reported. -/
def At (s : IOCompletionPortCenter O) : Place → Nat → Prop
  | .queued, i => i ∈ s.queue
  | .hand t, i => s.threads t = .report i
  | .reported, i => i ∈ s.reports.map Prod.fst

/-- Each completion is in one place, once. -/
structure Tracked (s : IOCompletionPortCenter O) : Prop where
  ledger : Accounted (At s) (· < s.posted.length)
  queued : s.queue.Nodup
  reported : (s.reports.map Prod.fst).Nodup

/-- A thread goes on without a completion in its hands. -/
theorem Tracked.goto (tracked : Tracked s) (empty : ∀ i, s.threads t ≠ .report i) {p : Point}
    (nothing : ∀ i, p ≠ .report i) : Tracked (s.goto t p) := by
  refine ⟨tracked.ledger.congr ?_, tracked.queued, tracked.reported⟩
  rintro (_ | u | _) i
  · exact Iff.rfl
  · by_cases this : u = t
    · subst this
      simp [At, IOCompletionPortCenter.goto, nothing, empty]
    · simp [At, IOCompletionPortCenter.goto, this]
  · exact Iff.rfl

/-- An operation ends, and its completion is queued. -/
theorem Tracked.post (tracked : Tracked s) (c : Completion O) :
    Tracked { s with posted := s.posted ++ [c], queue := s.queue ++ [s.posted.length] } := by
  have new {p : Place} {i : Nat} (there : At s p i) : i ≠ s.posted.length :=
    Nat.ne_of_lt (tracked.ledger.known p i there)
  refine ⟨tracked.ledger.create (r := s.posted.length) (p := .queued) (Nat.lt_irrefl _) ?_ ?_, ?_,
    tracked.reported⟩
  · intro i
    simp only [List.length_append, List.length_singleton]
    omega
  · rintro (_ | u | _) i
    · simp only [At, List.mem_append, List.mem_singleton, and_true]
      constructor
      · rintro (before | now)
        · exact .inr ⟨new (p := .queued) before, before⟩
        · exact .inl now
      · rintro (now | ⟨-, before⟩)
        · exact .inr now
        · exact .inl before
    · simp only [At, reduceCtorEq, and_false, false_or]
      exact ⟨fun there => ⟨new (p := .hand u) there, there⟩, And.right⟩
    · simp only [At, reduceCtorEq, and_false, false_or]
      exact ⟨fun there => ⟨new (p := .reported) there, there⟩, And.right⟩
  · refine tracked.queued.append (List.nodup_singleton _) ?_
    exact List.disjoint_singleton.mpr fun inside => new (p := .queued) inside rfl

/-- A thread takes the first completion off the port. -/
theorem Tracked.dequeue (tracked : Tracked s) {i : Nat} {queue : List Nat}
    (list : s.queue = i :: queue) (empty : ∀ i, s.threads t ≠ .report i) :
    Tracked { s.goto t (.report i) with queue } := by
  obtain ⟨fresh, once⟩ := List.nodup_cons.mp (list ▸ tracked.queued)
  have waiting : At s .queued i := by simp [At, list]
  have alone {p : Place} (other : p ≠ .queued) : ¬ At s p i :=
    tracked.ledger.elsewhere waiting other
  refine ⟨tracked.ledger.move (r := i) (p := .hand t) (tracked.ledger.known _ i waiting) ?_, once,
    tracked.reported⟩
  rintro (_ | u | _) j
  · simp only [At, reduceCtorEq, and_false, false_or, list, List.mem_cons]
    constructor
    · intro inside
      exact ⟨fun same => fresh (same ▸ inside), .inr inside⟩
    · rintro ⟨other, same | inside⟩
      · exact absurd same other
      · exact inside
  · by_cases this : u = t
    · subst this
      simp [At, IOCompletionPortCenter.goto, empty, eq_comm]
    · have elsewhere := alone (p := .hand u) (by simp)
      simp only [At, IOCompletionPortCenter.goto, Function.update_of_ne this, Place.hand.injEq,
        this, and_false, false_or]
      refine ⟨fun there => ⟨?_, there⟩, And.right⟩
      rintro rfl
      exact elsewhere there
  · simp only [At, reduceCtorEq, and_false, false_or]
    refine ⟨fun there => ⟨?_, there⟩, And.right⟩
    rintro rfl
    exact alone (p := .reported) (by simp) there

/-- A thread reports what it has in its hands. -/
theorem Tracked.report (tracked : Tracked s) {i : Nat} (has : s.threads t = .report i)
    (r : Report O) (late : Nat → Nat) :
    Tracked { s.goto t .test with reports := s.reports ++ [(i, r)], late } := by
  have mine : At s (.hand t) i := has
  have alone {p : Place} (other : p ≠ .hand t) : ¬ At s p i :=
    tracked.ledger.elsewhere mine other
  refine ⟨tracked.ledger.move (r := i) (p := .reported) (tracked.ledger.known _ i mine) ?_,
    tracked.queued, ?_⟩
  · rintro (_ | u | _) j
    · simp only [At, reduceCtorEq, and_false, false_or]
      refine ⟨fun there => ⟨?_, there⟩, And.right⟩
      rintro rfl
      exact alone (p := .queued) (by simp) there
    · by_cases this : u = t
      · subst this
        simp only [At, IOCompletionPortCenter.goto, Function.update_self, reduceCtorEq, has,
          and_false, false_or, Point.report.injEq, false_iff, not_and, ne_eq]
        exact fun other same => other same.symm
      · simp only [At, IOCompletionPortCenter.goto, Function.update_of_ne this, reduceCtorEq,
          and_false, false_or]
        refine ⟨fun there => ⟨?_, there⟩, And.right⟩
        rintro rfl
        exact alone (p := .hand u) (by simp [this]) there
    · simp only [At, List.map_append, List.map_singleton, List.mem_append, List.mem_singleton,
        and_true]
      constructor
      · rintro (before | now)
        · refine .inr ⟨?_, before⟩
          rintro rfl
          exact alone (p := .reported) (by simp) before
        · exact .inl now
      · rintro (now | ⟨-, before⟩)
        · exact .inr now
        · exact .inl before
  · rw [List.map_append]
    refine tracked.reported.append (List.nodup_singleton _) ?_
    exact List.disjoint_singleton.mpr (alone (p := .reported) (by simp))

theorem Tracked.thread (tracked : Tracked s) (went : processThread s t got = some s') :
    Tracked s' := by
  rcases processThread_cases went with ⟨at_, rfl⟩ | ⟨at_, rfl⟩ | ⟨i, queue, at_, -, list, rfl⟩ |
    ⟨handle, dwerror, at_, -, rfl⟩ | ⟨i, c, at_, -, rfl⟩
  · exact tracked.goto (by simp [at_]) (by split <;> simp)
  · exact tracked.goto (by simp [at_]) (by simp)
  · exact tracked.dequeue list (by simp [at_])
  · refine tracked.goto (by simp [at_]) ?_
    rcases afterError_cases dwerror with after | after
    · simp [after]
    · simp [after]
  · exact tracked.report at_ _ _

/-! ### Starting and stopping -/

/-- While m_bProcessing is set, the threads wait on the port that InitObj made, and if it
made one none of them has ended. A thread that has reported something after m_bProcessing
was cleared does not take another completion. -/
structure Steady (s : IOCompletionPortCenter O) : Prop where
  unborn : s.owner = .new → ∀ t, s.threads t = .none
  starting : ∀ i, s.owner = .starting i → ∀ t, i ≤ t → s.threads t = .none
  processing : s.m_bProcessing = true ↔
    (∃ i, s.owner = .starting i) ∨ ∃ res, s.owner = .ready res
  opened : s.m_bProcessing = true → s.m_hCompletionPort = .port → s.open_ = true
  waiting : s.m_bProcessing = true → ∀ t handle, s.threads t = .wait handle →
    handle = s.m_hCompletionPort
  alive : s.m_bProcessing = true → s.m_hCompletionPort = .port → ∀ t, s.threads t ≠ .ended
  early : s.m_bProcessing = true → ∀ t, s.late t = 0
  late : ∀ t, s.late t ≤ 1
  busy : ∀ t, s.threads t ≠ .test → s.threads t ≠ .ended → s.late t = 0
  closed : s.owner = .closing ∨ s.owner = .stopped → s.open_ = false
  cleared : s.owner = .stopped → s.m_hCompletionPort = .INVALID_HANDLE_VALUE

theorem Steady.constructed : Steady (constructed : IOCompletionPortCenter O) := by
  constructor <;> simp [Center.constructed]

/-- A thread goes to another point, and may have reported something. -/
theorem Steady.goto (steady : Steady s) {p : Point} (born : s.threads t ≠ .none)
    (waiting : s.m_bProcessing = true → ∀ handle, p = .wait handle → handle = s.m_hCompletionPort)
    (alive : s.m_bProcessing = true → s.m_hCompletionPort = .port → p ≠ .ended)
    {late : Nat → Nat} (others : ∀ u, u ≠ t → late u = s.late u)
    (early : s.m_bProcessing = true → late t = 0) (once : late t ≤ 1)
    (busy : p ≠ .test → p ≠ .ended → late t = 0)
    (reports : List (Nat × Report O)) (queue : List Nat) :
    Steady { s.goto t p with late, reports, queue } := by
  have point (u : Nat) : (s.goto t p).threads u = if u = t then p else s.threads u := by
    by_cases this : u = t
    · subst this
      simp [IOCompletionPortCenter.goto]
    · simp [IOCompletionPortCenter.goto, this]
  refine ⟨fun new => absurd (steady.unborn new t) born, fun i at_ u later => ?_,
    steady.processing, steady.opened, fun on u handle there => ?_, fun on made u => ?_,
    fun on u => ?_, fun u => ?_, fun u test ended => ?_, steady.closed, steady.cleared⟩
  · have before := steady.starting i at_ u later
    simp only [point]
    rw [if_neg, before]
    rintro rfl
    exact born before
  · simp only [point] at there
    split at there
    · exact waiting on handle there
    · exact steady.waiting on u handle there
  · simp only [point]
    split
    · exact alive on made
    · exact steady.alive on made u
  · by_cases this : u = t
    · rw [this]
      exact early on
    · exact (others u this).trans (steady.early on u)
  · by_cases this : u = t
    · rw [this]
      exact once
    · exact (others u this).trans_le (steady.late u)
  · simp only [point] at test ended
    by_cases this : u = t
    · rw [if_pos this] at test ended
      rw [this]
      exact busy test ended
    · rw [if_neg this] at test ended
      exact (others u this).trans (steady.busy u test ended)

theorem Steady.thread (steady : Steady s) (went : processThread s t got = some s') :
    Steady s' := by
  have same (u : Nat) (_ : u ≠ t) : s.late u = s.late u := rfl
  rcases processThread_cases went with ⟨at_, rfl⟩ | ⟨at_, rfl⟩ | ⟨i, queue, at_, -, -, rfl⟩ |
    ⟨handle, dwerror, at_, meant, rfl⟩ | ⟨i, c, at_, -, rfl⟩
  · cases on : s.m_bProcessing with
    | true =>
      exact steady.goto (by simp [at_]) (by simp) (by simp) same (fun on => steady.early on t)
        (steady.late t) (fun _ _ => steady.early on t) _ _
    | false =>
      exact steady.goto (by simp [at_]) (by simp) (by simp [on]) same (by simp [on])
        (steady.late t) (by simp) _ _
  · exact steady.goto (by simp [at_]) (fun _ _ same => (Point.wait.inj same).symm) (by simp) same
      (fun on => steady.early on t) (steady.late t)
      (fun _ _ => steady.busy t (by simp [at_]) (by simp [at_])) _ _
  · exact steady.goto (by simp [at_]) (by simp) (by simp) same (fun on => steady.early on t)
      (steady.late t) (fun _ _ => steady.busy t (by simp [at_]) (by simp [at_])) _ _
  · refine steady.goto (by simp [at_]) ?_ ?_ same (fun on => steady.early on t) (steady.late t) ?_
      _ _
    · rcases afterError_cases dwerror with after | after <;> simp [after]
    · -- the handle is good, so the error is none of those that leave the loop
      intro on made
      have good : handle = .port := (steady.waiting on t handle at_).trans made
      rw [meant.mp ⟨good, steady.opened on made⟩]
      simp
    · rcases afterError_cases dwerror with after | after <;> simp [after]
  · have none_ : s.late t = 0 := steady.busy t (by simp [at_]) (by simp [at_])
    cases on : s.m_bProcessing with
    | true =>
      exact steady.goto (by simp [at_]) (by simp) (by simp) same (fun on => steady.early on t)
        (steady.late t) (by simp) _ _
    | false =>
      exact steady.goto (by simp [at_]) (by simp) (by simp) (fun u other => by simp [other])
        (by simp [on]) (by simp [none_]) (by simp) _ _

/-- InitObj starts a thread. -/
theorem Steady.begins (steady : Steady s) {i : Nat} (at_ : s.owner = .starting i) :
    Steady { s.goto i .test with owner := .starting (i + 1) } := by
  have on : s.m_bProcessing = true := steady.processing.mpr (.inl ⟨i, at_⟩)
  have point (u : Nat) : (s.goto i .test).threads u = if u = i then .test else s.threads u := by
    by_cases this : u = i
    · subst this
      simp [IOCompletionPortCenter.goto]
    · simp [IOCompletionPortCenter.goto, this]
  refine ⟨by simp, fun j same u later => ?_, by simp [IOCompletionPortCenter.goto, on],
    steady.opened, fun _ u handle there => ?_, fun _ made u => ?_, steady.early, steady.late,
    fun u _ _ => steady.early on u, by simp, by simp⟩
  · cases same
    simp only [point]
    rw [if_neg (by omega)]
    exact steady.starting i at_ u (by omega)
  · simp only [point] at there
    split at there
    · cases there
    · exact steady.waiting on u handle there
  · simp only [point]
    split
    · simp
    · exact steady.alive on made u

/-- UninitObject goes on, when the threads already see that m_bProcessing is not set. -/
theorem Steady.stops (steady : Steady s) {owner : Owner} {m_bProcessing : Bool} (open_ : Bool)
    (handle : Handle) (clear : m_bProcessing = false)
    (off : ¬ ((∃ i, owner = .starting i) ∨ ∃ res, owner = .ready res)) (started : owner ≠ .new)
    (closed : owner = .closing ∨ owner = .stopped → open_ = false)
    (cleared : owner = .stopped → handle = .INVALID_HANDLE_VALUE) :
    Steady { s with m_bProcessing, open_, m_hCompletionPort := handle, owner } := by
  subst clear
  refine ⟨fun new => absurd new started, fun i at_ => absurd (.inl ⟨i, at_⟩) off, ?_, by simp,
    by simp, by simp, by simp, steady.late, steady.busy, closed, cleared⟩
  simpa using off

/-- The owner of the threads takes its next step, or an operation ends. -/
theorem Steady.next (steady : Steady s) {l : Label O} (went : next s l = some s') :
    Steady s' := by
  cases l with
  | initObj nthreadnumber processors created =>
    simp only [Center.next] at went
    split at went
    · rename_i new
      cases went
      have none_ := steady.unborn new
      have zero (t : Nat) : s.late t = 0 := steady.busy t (by simp [none_]) (by simp [none_])
      constructor <;> simp [none_, zero]
    · cases went
  | beginThread ok =>
    simp only [Center.next] at went
    split at went
    · rename_i i at_
      have on : s.m_bProcessing = true := steady.processing.mpr (.inl ⟨i, at_⟩)
      have ready (res : Int) : Steady { s with owner := .ready res } :=
        ⟨by simp, by simp, by simp [on], steady.opened, steady.waiting, steady.alive, steady.early,
          steady.late, steady.busy, by simp, by simp⟩
      split at went
      · cases ok with
        | true =>
          cases went
          exact steady.begins at_
        | false =>
          cases went
          exact ready (-2)
      · cases went
        exact ready 0
    all_goals cases went
  | uninitObject =>
    simp only [Center.next] at went
    split at went
    · cases went
      exact steady.stops s.open_ s.m_hCompletionPort rfl (by simp) (by simp) (by simp) (by simp)
    all_goals cases went
  | closeHandle =>
    simp only [Center.next] at went
    split at went
    · rename_i at_
      cases went
      have off : s.m_bProcessing = false := by simpa [at_] using steady.processing
      exact steady.stops false s.m_hCompletionPort off (by simp) (by simp) (by simp) (by simp)
    · cases went
  | clear =>
    simp only [Center.next] at went
    split at went
    · rename_i at_
      cases went
      have off : s.m_bProcessing = false := by simpa [at_] using steady.processing
      exact steady.stops s.open_ .INVALID_HANDLE_VALUE off (by simp) (by simp)
        (fun _ => steady.closed (.inl at_)) (by simp)
    · cases went
  | post c =>
    simp only [Center.next] at went
    split at went
    · cases went
      exact ⟨steady.unborn, steady.starting, steady.processing, steady.opened, steady.waiting,
        steady.alive, steady.early, steady.late, steady.busy, steady.closed, steady.cleared⟩
    · cases went
  | thread t got => exact steady.thread went

/-- What the owner does moves no completion. -/
theorem Tracked.next (tracked : Tracked s) (steady : Steady s) {l : Label O}
    (went : next s l = some s') : Tracked s' := by
  -- Only fields that no place is read off change.
  have aside {s' : IOCompletionPortCenter O} (threads : s'.threads = s.threads)
      (queue : s'.queue = s.queue) (reports : s'.reports = s.reports)
      (posted : s'.posted = s.posted) : Tracked s' := by
    obtain ⟨ledger, queued, reported⟩ := tracked
    refine ⟨?_, queue ▸ queued, reports ▸ reported⟩
    rw [posted]
    refine ledger.congr ?_
    rintro (_ | u | _) i
    · simp [At, queue]
    · simp [At, threads]
    · simp [At, reports]
  cases l with
  | initObj nthreadnumber processors created =>
    simp only [Center.next] at went
    split at went
    · cases went
      exact aside rfl rfl rfl rfl
    · cases went
  | beginThread ok =>
    simp only [Center.next] at went
    split at went
    · rename_i i at_
      split at went
      · cases ok with
        | true =>
          cases went
          have none_ := steady.starting i at_ i (Nat.le_refl i)
          have moved := tracked.goto (t := i) (p := .test) (by simp [none_]) (by simp)
          refine ⟨moved.ledger.congr ?_, moved.queued, moved.reported⟩
          rintro (_ | u | _) j <;> exact Iff.rfl
        | false =>
          cases went
          exact aside rfl rfl rfl rfl
      · cases went
        exact aside rfl rfl rfl rfl
    all_goals cases went
  | uninitObject =>
    simp only [Center.next] at went
    split at went
    · cases went
      exact aside rfl rfl rfl rfl
    all_goals cases went
  | closeHandle =>
    simp only [Center.next] at went
    split at went
    · cases went
      exact aside rfl rfl rfl rfl
    · cases went
  | clear =>
    simp only [Center.next] at went
    split at went
    · cases went
      exact aside rfl rfl rfl rfl
    · cases went
  | post c =>
    simp only [Center.next] at went
    split at went
    · cases went
      exact tracked.post c
    · cases went
  | thread t got => exact tracked.thread went

/-- What is reported is what was posted. -/
def Own (s : IOCompletionPortCenter O) : Prop :=
  ∀ r ∈ s.reports, ∃ c, s.posted[r.1]? = some c ∧ r.2 = processed c

theorem Own.next (own : Own s) {l : Label O} (went : next s l = some s') : Own s' := by
  have aside {s' : IOCompletionPortCenter O} (reports : s'.reports = s.reports)
      (posted : s'.posted = s.posted) : Own s' := by
    intro r inside
    rw [posted]
    exact own r (reports ▸ inside)
  cases l with
  | thread t got =>
    rcases processThread_cases went with ⟨-, rfl⟩ | ⟨-, rfl⟩ | ⟨_, _, -, -, -, rfl⟩ |
      ⟨_, _, -, -, rfl⟩ | ⟨i, c, -, found, rfl⟩
    · exact aside rfl rfl
    · exact aside rfl rfl
    · exact aside rfl rfl
    · exact aside rfl rfl
    · intro r inside
      rcases List.mem_append.mp inside with before | now
      · exact own r before
      · rw [List.mem_singleton] at now
        subst now
        exact ⟨c, found, rfl⟩
  | post c =>
    simp only [Center.next] at went
    split at went
    · cases went
      intro r inside
      obtain ⟨c', found, same⟩ := own r inside
      exact ⟨c', by rw [List.getElem?_append_left (List.getElem?_eq_some_iff.mp found).1, found],
        same⟩
    · cases went
  | initObj nthreadnumber processors created =>
    simp only [Center.next] at went
    split at went
    · cases went
      exact aside rfl rfl
    · cases went
  | beginThread ok =>
    simp only [Center.next] at went
    split at went
    · split at went
      · cases ok with
        | true =>
          cases went
          exact aside rfl rfl
        | false =>
          cases went
          exact aside rfl rfl
      · cases went
        exact aside rfl rfl
    all_goals cases went
  | uninitObject =>
    simp only [Center.next] at went
    split at went
    · cases went
      exact aside rfl rfl
    all_goals cases went
  | closeHandle | clear =>
    simp only [Center.next] at went
    split at went
    · cases went
      exact aside rfl rfl
    · cases went

theorem Tracked.constructed : Tracked (constructed : IOCompletionPortCenter O) := by
  refine ⟨.empty (by simp [Center.constructed]) ?_, .nil, .nil⟩
  rintro (_ | u | _) i <;> simp [At, Center.constructed]

/-- Each completion is in one place, and is reported once, with its own count, key and
error, to the observer of its request; while m_bProcessing is set no thread ends if there
is a port; and after it was cleared a thread reports at most one completion. -/
structure Dispatched (s : IOCompletionPortCenter O) : Prop where
  ledger : Accounted (At s) (· < s.posted.length)
  once : (s.reports.map Prod.fst).Nodup
  own : Own s
  alive : s.m_bProcessing = true → s.m_hCompletionPort = .port → ∀ t, s.threads t ≠ .ended
  late : ∀ t, s.late t ≤ 1

theorem invariants (run : (system O).Reachable s) : Tracked s ∧ Steady s ∧ Own s := by
  refine run.invariant (P := fun s => Tracked s ∧ Steady s ∧ Own s) ?_ ?_
  · rintro s rfl
    exact ⟨.constructed, .constructed, by simp [Own, Center.constructed]⟩
  · rintro s l s' ⟨tracked, steady, own⟩ - went
    exact ⟨tracked.next steady went, steady.next went, own.next went⟩

theorem dispatched (run : (system O).Reachable s) : Dispatched s := by
  obtain ⟨tracked, steady, own⟩ := invariants run
  exact ⟨tracked.ledger, tracked.reported, own, steady.alive, steady.late⟩

/-- An operation that succeeded, and one that failed. -/
def ended : List (Completion Bool) :=
  [⟨7, false, 10, 11, 0⟩, ⟨8, true, 0, 12, 64⟩]

/-- One of two threads has a completion when m_bProcessing is cleared. -/
def stopping : List (Label Bool) :=
  [.initObj 1 4 true, .beginThread true, .beginThread true, .beginThread true] ++
    ended.map .post ++
    [.thread 1 .completion, .thread 1 .completion, .thread 1 .completion, .thread 1 .completion,
      .thread 0 .completion, .thread 0 .completion, .thread 0 .completion, .uninitObject,
      .thread 0 .completion]

theorem stopping_runs : ((system Bool).run constructed stopping).map
    (fun s => (s.reports, s.owner, s.late 0, s.threads 0)) =
      some ([(0, ⟨false, 10, 11, 0, 7⟩), (1, ⟨true, 0, 12, 64, 8⟩)], .stopping, 1, .test) := by
  decide +kernel

theorem dispatched_stopping : ∃ s : IOCompletionPortCenter Bool,
    s.reports = [(0, ⟨false, 10, 11, 0, 7⟩), (1, ⟨true, 0, 12, 64, 8⟩)] ∧ s.late 0 = 1 ∧
      Dispatched s := by
  obtain ⟨s, ran, after⟩ := Option.map_eq_some_iff.mp stopping_runs
  simp only [Prod.mk.injEq] at after
  exact ⟨s, after.1, after.2.2.1, dispatched (System.run_reachable (.initial rfl) ran)⟩

/-! ### After UninitObject -/

/-- The steps that a thread can still take when the port is closed. -/
def left : Point → Nat
  | .none | .ended => 0
  | .test | .wait _ => 1
  | .call | .report _ => 2

def ofThread (t : Nat) : Label O → Bool
  | .thread u _ => u = t
  | .initObj _ _ _ | .beginThread _ | .uninitObject | .closeHandle | .clear | .post _ => false

/-- Only threads take steps, and each of them comes nearer to its end. -/
theorem next_stopped (steady : Steady s) (stopped : s.owner = .stopped) {l : Label O}
    (went : next s l = some s') : s'.owner = .stopped ∧
      (if ofThread t l then 1 else 0) + left (s'.threads t) ≤ left (s.threads t) := by
  have closed := steady.closed (.inr stopped)
  have off : s.m_bProcessing = false := by simpa [stopped] using steady.processing
  have goes (u : Nat) {got : Got} (p : Point) (nearer : 1 + left p ≤ left (s.threads u)) :
      (if ofThread t (.thread u got : Label O) then 1 else 0) + left ((s.goto u p).threads t) ≤
        left (s.threads t) := by
    by_cases this : u = t
    · subst this
      simpa [ofThread, IOCompletionPortCenter.goto] using nearer
    · simp [ofThread, IOCompletionPortCenter.goto, this, Ne.symm this]
  cases l with
  | thread u got =>
    rcases processThread_cases went with ⟨at_, rfl⟩ | ⟨at_, rfl⟩ | ⟨_, _, -, open_, -, -⟩ |
      ⟨handle, dwerror, at_, meant, rfl⟩ | ⟨i, c, at_, -, rfl⟩
    · exact ⟨stopped, goes u _ (by simp [at_, off, left])⟩
    · exact ⟨stopped, goes u _ (by simp [at_, left])⟩
    · simp [closed] at open_
    · have ended : afterError dwerror = .ended := by
        refine (afterError_cases dwerror).resolve_right fun test => ?_
        simpa [closed] using (meant.mpr test).2
      exact ⟨stopped, goes u _ (by simp [at_, ended, left])⟩
    · exact ⟨stopped, goes u _ (by simp [at_, left])⟩
  | initObj nthreadnumber processors created => simp [Center.next, stopped] at went
  | beginThread ok => simp [Center.next, stopped] at went
  | uninitObject => simp [Center.next, stopped] at went
  | closeHandle => simp [Center.next, stopped] at went
  | clear => simp [Center.next, stopped] at went
  | post c => simp [Center.next, closed] at went

/-- A thread that has not ended is never stuck. -/
theorem thread_enabled (tracked : Tracked s) (closed : s.open_ = false)
    (born : s.threads t ≠ .none) (running : s.threads t ≠ .ended) :
    ∃ got, (next s (.thread t got)).isSome := by
  simp only [Center.next, processThread]
  cases at_ : s.threads t with
  | none => exact absurd at_ born
  | ended => exact absurd at_ running
  | test => exact ⟨.completion, rfl⟩
  | call => exact ⟨.completion, rfl⟩
  | wait handle =>
    refine ⟨.failed ERROR_ABANDONED_WAIT_0, ?_⟩
    simp [getQueuedCompletionStatus, closed, afterError]
  | report i =>
    have below : i < s.posted.length := tracked.ledger.known (.hand t) i at_
    exact ⟨.completion, by simp [List.getElem?_eq_getElem below]⟩

/-- After UninitObject has returned, each thread takes at most two more steps, and can take
one until it has ended. -/
theorem threads_end (run : (system O).Reachable s) (stopped : s.owner = .stopped)
    {labels : List (Label O)} (ran : (system O).run s labels = some s') (t : Nat) :
    labels.countP (ofThread t) + left (s'.threads t) ≤ 2 ∧
      (s'.threads t = .none ∨ s'.threads t = .ended ∨ ∃ got, (next s' (.thread t got)).isSome) := by
  suffices nearer : s'.owner = .stopped ∧
      labels.countP (ofThread t) + left (s'.threads t) ≤ left (s.threads t) by
    obtain ⟨tracked, steady, -⟩ := invariants (System.run_reachable run ran)
    refine ⟨nearer.2.trans ?_, ?_⟩
    · cases s.threads t <;> simp [left]
    · by_cases born : s'.threads t = .none
      · exact .inl born
      · by_cases ended : s'.threads t = .ended
        · exact .inr (.inl ended)
        · exact .inr (.inr (thread_enabled tracked (steady.closed (.inr nearer.1)) born ended))
  induction labels generalizing s with
  | nil =>
    cases ran
    exact ⟨stopped, by simp⟩
  | cons l labels ih =>
    simp only [System.run] at ran
    split at ran
    · cases ran
    · rename_i s₁ went
      have step := next_stopped (t := t) (invariants run).2.1 stopped went
      obtain ⟨after, rest⟩ := ih (run.step trivial went) step.1 ran
      refine ⟨after, ?_⟩
      rw [List.countP_cons]
      omega

/-- The owner has returned from UninitObject when one thread has just read m_bProcessing. -/
def stoppedEarly : List (Label Bool) :=
  [.initObj 1 4 true, .beginThread true, .beginThread true, .beginThread true,
    .thread 0 .completion, .uninitObject, .closeHandle, .clear]

def lastSteps : List (Label Bool) :=
  [.thread 1 .completion, .thread 0 .completion, .thread 0 (.failed ERROR_INVALID_HANDLE)]

theorem stoppedEarly_runs : ((system Bool).run constructed stoppedEarly).map
    (fun s => (s.owner, ((system Bool).run s lastSteps).map
      fun s' => (s'.threads 0, s'.threads 1))) =
        some (.stopped, some (.ended, .ended)) := by
  decide +kernel

theorem threads_end_early : ∃ s' : IOCompletionPortCenter Bool,
    (s'.threads 0 = .ended ∧ s'.threads 1 = .ended) ∧ ∀ t,
      lastSteps.countP (ofThread t) + left (s'.threads t) ≤ 2 ∧
        (s'.threads t = .none ∨ s'.threads t = .ended ∨
          ∃ got, (next s' (.thread t got)).isSome) := by
  obtain ⟨s, ran, after⟩ := Option.map_eq_some_iff.mp stoppedEarly_runs
  obtain ⟨stopped, more⟩ := Prod.mk.inj after
  obtain ⟨s', ran', points⟩ := Option.map_eq_some_iff.mp more
  exact ⟨s', Prod.mk.inj points, threads_end (System.run_reachable (.initial rfl) ran) stopped ran'⟩

end TestIOCP.Center
