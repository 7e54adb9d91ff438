import TestIOCP.Engine.Account
import Mathlib.Data.Fintype.Basic

/-! When CTcpListener recycles its workers safely. The five counters of a worker tell
how many operations are outstanding as long as every post and every completion is
counted before the next release test and m_nErrorNum starts at zero. -/
namespace TestIOCP.Engine
open Transition Program

variable {T : Type} {s s' : Shared Worker} {own : T → Task} {t : T} {w : Obj} [Fintype T]

/-- Nobody works on a worker outside its connections. -/
def Calm (s : Shared Worker) (own : T → Task) (code : T → WorkerCall Unit) : Prop :=
  ∀ w ∉ s.serving, ∀ t, (own t).held ≠ some w → Quiet w (code t)

structure Inv (s : Config T (Shared Worker) Task (Op Worker) Res) : Prop where
  placed : Placed s.shared s.own
  balanced : Balanced s.shared s.own
  logged : Logged s.shared
  calm : Calm s.shared s.own s.code

variable [DecidableEq T]

omit [Fintype T] in
/-- A call that takes no worker stays quiet about those that it was quiet about. -/
theorem Calm.step {code : T → WorkerCall Unit} (calm : Calm s own code) {op : Op Worker}
    {rest : Res op → WorkerCall Unit} (code_ : code t = .call op rest) {l : Task} {r : Res op}
    (follows : (rest r).Follows discipline l (fun _ => Task.Done))
    (mine : ∀ w b b', l = .working w b b' → w ∉ s'.serving →
      w ∉ s.serving ∧ (own t).held ≠ some w ∧ ¬ Takes op)
    (others : ∀ w ∉ s'.serving, ∀ u, u ≠ t → (own u).held ≠ some w → Quiet w (code u)) :
    Calm s' (Function.update own t l) (Function.update code t (rest r)) := by
  intro w unserved u outside
  by_cases h : u = t
  · subst h
    simp only [Function.update_self] at outside ⊢
    by_cases on : l.on = some w
    · cases l with
      | idle => cases on
      | holding v zeroed => exact absurd on outside
      | ending v => exact absurd on outside
      | working v b b' =>
        cases on
        obtain ⟨before, free, stays⟩ := mine w b b' rfl unserved
        have quiet := calm w before u free
        rw [code_] at quiet
        exact (quiet.resolve_left stays).2 r
    · exact quiet_of_on follows on
  · simp only [Function.update_of_ne h] at outside ⊢
    exact others w unserved u h outside

omit [Fintype T] in
theorem Calm.enter {code : T → WorkerCall Unit} (calm : Calm s own code) {l : Task}
    {p : WorkerCall Unit} (follows : p.Follows discipline l (fun _ => Task.Done))
    (served : ∀ w ∉ s.serving, l.on ≠ some w) :
    Calm s (Function.update own t l) (Function.update code t p) := by
  intro w unserved u outside
  by_cases h : u = t
  · subst h
    simpa using quiet_of_on follows (served w unserved)
  · simp only [Function.update_of_ne h] at outside ⊢
    exact calm w unserved u outside

/-- What an operation must find: Start finds m_nErrorNum zero, IsOver is true only when
no other call still posts, counts or tests for the worker, and no counter overflows. -/
def Finds (s : Config T (Shared Worker) Task (Op Worker) Res) (t : T) : Op Worker → Prop
  | .zero w _ => s.shared.counters w .m_nErrorNum = 0
  | .count w c => s.shared.counters w c + 1 < 2 ^ 31
  | .isOver w =>
    s.shared.counters w .m_nWriteNum + s.shared.counters w .m_nRecvNum < 2 ^ 31 ∧
    s.shared.counters w .m_nRecvedNum + s.shared.counters w .m_nWritedNum +
      s.shared.counters w .m_nErrorNum < 2 ^ 31 ∧
    (Over (s.shared.counters w) → ∀ u, u ≠ t → Quiet w (s.code u))
  | _ => True

def Settled (s : Config T (Shared Worker) Task (Op Worker) Res) : Label T Choice Entry → Prop
  | .enter _ _ => True
  | .step t _ =>
    match s.code t with
    | .ret _ => True
    | .call op _ => Finds s t op

namespace Inv
variable {c : Config T (Shared Worker) Task (Op Worker) Res} {op : Op Worker}
  {rest : Res op → WorkerCall Unit} {r : Res op}

omit [DecidableEq T] in
theorem of {code : T → WorkerCall Unit} (placed : Placed s own) (balanced : Balanced s own)
    (logged : Logged s) (calm : Calm s own code) : Inv ⟨s, own, code⟩ :=
  ⟨placed, balanced, logged, calm⟩

/-- A step that changes nothing that the invariant is about. -/
theorem neutral (inv : Inv c) (code_ : c.code t = .call op rest) (stays : ¬ Takes op)
    (follows : (rest r).Follows discipline (c.own t) (fun _ => Task.Done))
    (list : s'.m_WorkerList = c.shared.m_WorkerList) (allocated : s'.allocated = c.shared.allocated)
    (pending : s'.pending = c.shared.pending) (connection : s'.connection = c.shared.connection)
    (serving : s'.serving = c.shared.serving) (released : s'.released = c.shared.released)
    (counters : s'.counters = c.shared.counters) :
    Inv ⟨s', Function.update c.own t (c.own t), Function.update c.code t (rest r)⟩ := by
  refine ⟨inv.placed.congr list allocated serving rfl, ?_, ?_, ?_⟩
  · refine inv.balanced.congr pending counters (by simp [serving]) ?_ (fun _ => rfl) (fun _ => rfl)
      fun w zeroed => .inr
    simpa only [serving] using inv.balanced.still
  · exact inv.logged.congr (by simp [pending]) connection released (by simp [list])
  · refine inv.calm.step code_ follows (fun w b b' own unserved => ?_) fun w unserved u _ => ?_
    · rw [serving] at unserved
      exact ⟨unserved, by simp [own, Task.held], stays⟩
    · rw [serving] at unserved
      exact inv.calm w unserved u

omit [DecidableEq T] in
/-- Only workers with a connection are posted for, counted and tested. -/
theorem serving_of_active (inv : Inv c) (code_ : c.code t = .call op rest) (active : Active w op)
    (free : (c.own t).held ≠ some w) : w ∈ c.shared.serving := by
  by_contra unserved
  have quiet := inv.calm w unserved t free
  rw [code_] at quiet
  rcases quiet with takes | ⟨calm, -⟩
  · cases op <;> simp [Takes, Active] at takes active
  · exact calm active

omit [Fintype T] [DecidableEq T] in
/-- A quiet call owes nothing to a worker. -/
theorem nothing_owed (follows : ∀ u, (c.code u).Follows discipline (c.own u) (fun _ => Task.Done))
    {u : T} (quiet : (c.own u).held ≠ some w → Quiet w (c.code u)) :
    (c.own u).unhandled w = 0 ∧ (c.own u).uncounted w = 0 := by
  cases own : c.own u with
  | idle => exact ⟨rfl, rfl⟩
  | holding v zeroed => exact ⟨rfl, rfl⟩
  | ending v => exact ⟨rfl, rfl⟩
  | working v b b' =>
    by_cases same : v = w
    · subst same
      obtain ⟨rfl, rfl⟩ := settled_of_quiet (own ▸ follows u) (quiet (by simp [own, Task.held]))
      exact ⟨rfl, rfl⟩
    · simp [Task.unhandled, Task.uncounted, same]

omit [DecidableEq T] in
/-- The call that a held worker is in the hands of. -/
theorem holder (inv : Inv c) (holds : (c.own t).held = some w) {u : T}
    (holds' : (c.own u).held = some w) : u = t := by
  have here : At c.shared c.own (.call t) w := holds
  have there : At c.shared c.own (.call u) w := holds'
  simpa using inv.placed.place.once _ _ _ there here

/-- A worker leaves the list. -/
theorem taken (inv : Inv c) (code_ : c.code t = .call op rest)
    (follows : (rest r).Follows discipline (.holding w []) (fun _ => Task.Done))
    (idle : c.own t = .idle) {list : List Obj} {allocated : Nat}
    (placed : Placed ({ c.shared with m_WorkerList := list, allocated }.take w)
      (Function.update c.own t (.holding w [])))
    (away : w ∉ c.shared.serving) (others : ∀ v ∈ c.shared.m_WorkerList, v ≠ w → v ∈ list)
    (shared : s' = { c.shared with m_WorkerList := list, allocated }.take w) :
    Inv ⟨s', Function.update c.own t (.holding w []), Function.update c.code t (rest r)⟩ := by
  subst shared
  refine .of placed ?_ (inv.logged.take (fun posted inside same => ?_) list others allocated) ?_
  · exact inv.balanced.congr rfl rfl (fun _ => id) inv.balanced.still (fun v => by rw [idle]; rfl)
      (fun v => by rw [idle]; rfl) fun v zeroed same => by cases same; exact .inl rfl
  · exact away (same ▸ inv.balanced.still posted inside)
  · exact inv.calm.step code_ follows (fun v b b' own => by cases own) fun v unserved u _ =>
      inv.calm v unserved u

theorem step (inv : Inv c)
    (follows : ∀ u, (c.code u).Follows discipline (c.own u) (fun _ => Task.Done))
    (code_ : c.code t = .call op rest) {choice : Choice} (settled : Settled c (.step t choice))
    (performed : c.shared.perform (c.own t) choice op = (s', r)) (needs : Needs (c.own t) op) :
    Inv ⟨s', Function.update c.own t ((c.own t).after op r),
      Function.update c.code t (rest r)⟩ := by
  have after : (rest r).Follows discipline ((c.own t).after op r) (fun _ => Task.Done) := by
    have now := follows t
    rw [code_] at now
    exact now.2 r _ rfl
  simp only [Settled, code_, Finds] at settled
  cases op with
  | get v =>
    cases performed
    exact inv.neutral code_ (by simp [Takes]) after rfl rfl rfl rfl rfl rfl rfl
  | set v f =>
    cases performed
    exact inv.neutral code_ (by simp [Takes]) after rfl rfl rfl rfl rfl rfl rfl
  | closesocket socket =>
    cases performed
    exact inv.neutral code_ (by simp [Takes]) after rfl rfl rfl rfl rfl rfl rfl
  | replies v =>
    cases performed
    exact inv.neutral code_ (by simp [Takes]) after rfl rfl rfl rfl rfl rfl rfl
  | acceptNum change =>
    cases performed
    exact inv.neutral code_ (by simp [Takes]) after rfl rfl rfl rfl rfl rfl rfl
  | associateDevice socket =>
    simp only [Shared.perform] at performed
    split at performed
    · cases performed
      exact inv.neutral code_ (by simp [Takes]) after rfl rfl rfl rfl rfl rfl rfl
    · split at performed
      all_goals
        cases performed
        exact inv.neutral code_ (by simp [Takes]) after rfl rfl rfl rfl rfl rfl rfl
  | zero v counter =>
    cases performed
    obtain ⟨zeroed, holds⟩ := needs
    have held : (c.own t).held = some v := by rw [holds]; rfl
    simp only [Task.after, holds] at after ⊢
    have placed : Placed (c.shared.write v counter 0)
        (Function.update c.own t (.holding v (counter :: zeroed))) :=
      by refine inv.placed.congr ?_ ?_ ?_ (by rw [holds]; rfl) <;> rfl
    refine .of placed ?_ ?_ ?_
    · exact inv.balanced.zero holds (fun u => inv.holder held)
        (inv.placed.apart held) settled counter
    · exact inv.logged.congr (fun _ => id) rfl rfl (fun _ => id)
    · exact inv.calm.step code_ after (fun w b b' own => by cases own) fun w unserved u _ =>
        inv.calm w unserved u
  | count v counter =>
    cases performed
    obtain ⟨unhandled, uncounted, own, due⟩ := needs
    have serving := inv.serving_of_active code_ rfl (by simp [own, Task.held])
    simp only [Task.after, own] at after ⊢
    have placed : Placed (c.shared.write v counter (wrap (c.shared.counters v counter + 1)))
        (Function.update c.own t
          (if counter.posts then .working v unhandled false else .working v false uncounted)) :=
      by refine inv.placed.congr ?_ ?_ ?_ (by rw [own]; split <;> rfl) <;> rfl
    refine .of placed ?_ ?_ ?_
    · refine inv.balanced.count own serving due settled fun u zeroed holds => ?_
      exact inv.placed.apart (t := u) (by rw [holds]; rfl) serving
    · exact inv.logged.congr (fun _ => id) rfl rfl (fun _ => id)
    · refine inv.calm.step code_ after (fun w b b' own' unserved => ?_) fun w unserved u _ =>
        inv.calm w unserved u
      exact ⟨unserved, by simp [own, Task.held], by simp [Takes]⟩
  | isOver v =>
    have own : c.own t = .working v false false := needs
    have serving := inv.serving_of_active code_ rfl (by simp [own, Task.held])
    simp only [Shared.perform] at performed
    split at performed
    · rename_i over_
      cases performed
      obtain ⟨room, room', quiet⟩ := settled
      have counted (u : T) : (c.own u).uncounted v = 0 := by
        by_cases h : u = t
        · simp [h, own, Task.uncounted]
        · exact (nothing_owed follows fun _ => quiet over_ u h).2
      have silent := inv.balanced.none_outstanding serving counted over_ ⟨room, room'⟩
      have erased (w : Obj) : w ∈ c.shared.serving.filter (· ≠ v) ↔
          w ∈ c.shared.serving ∧ w ≠ v := by
        simp
      simp only [Task.after, if_true] at after ⊢
      refine .of (inv.placed.over_ serving own) ?_ ?_ ?_
      · refine inv.balanced.congr rfl rfl (fun w => List.mem_of_mem_filter)
          (fun posted inside => ?_)
          (fun w => by rw [own]; simp [Task.unhandled])
            (fun w => by rw [own]; simp [Task.uncounted])
          (by simp)
        have other := List.countP_eq_zero.mp silent posted inside
        exact (erased _).mpr ⟨inv.balanced.still posted inside, by simpa using other⟩
      · exact inv.logged.congr (fun _ => id) rfl rfl (fun _ => id)
      · refine inv.calm.step code_ after (fun w b b' own' => by cases own') fun w
          unserved u h free => ?_
        by_cases same : w = v
        · exact same ▸ quiet over_ u h
        · exact inv.calm w (fun before => unserved ((erased w).mpr ⟨before, same⟩)) u free
    · cases performed
      exact inv.neutral code_ (by simp [Takes]) after rfl rfl rfl rfl rfl rfl rfl
  | post socket req =>
    simp only [Shared.perform] at performed
    split at performed
    · rename_i accepted
      cases performed
      rw [Task.after_post _ _ _ accepted.2] at after ⊢
      rcases needs with own | ⟨zeroed, holds, all⟩
      · have serving := inv.serving_of_active code_ rfl (by simp [own, Task.held])
        simp only [own, Shared.begin] at after ⊢
        have placed : Placed
            { c.shared with
              pending := ⟨req, c.shared.connection req.m_pObserver⟩ :: c.shared.pending }
            (Function.update c.own t (.working req.m_pObserver false true)) :=
          by refine inv.placed.congr ?_ ?_ ?_ (by rw [own]; rfl) <;> rfl
        refine .of placed (inv.balanced.post own serving rfl) (inv.logged.post req _ _) ?_
        refine inv.calm.step code_ after (fun w b b' same unserved => ?_) fun w unserved u _ =>
          inv.calm w unserved u
        cases same
        exact absurd serving unserved
      · have held : (c.own t).held = some req.m_pObserver := by rw [holds]; rfl
        have unserved := inv.placed.apart held
        have settled (u : T) := nothing_owed follows (u := u) (w := req.m_pObserver)
          (inv.calm _ unserved u)
        simp only [holds, Shared.begin] at after ⊢
        refine .of (inv.placed.begin holds _ _)
          (inv.balanced.begin holds all unserved settled _ rfl)
          (inv.logged.post req _ _) ?_
        refine inv.calm.step code_ after (fun w b b' same idle => ?_) fun w idle u _ =>
          inv.calm w (fun before => idle (List.mem_cons_of_mem _ before)) u
        cases same
        exact absurd List.mem_cons_self idle
    · cases performed
      exact inv.neutral code_ (by simp [Takes]) after rfl rfl rfl rfl rfl rfl rfl
  | release v =>
    cases performed
    have held : (c.own t).held = some v := by rw [needs]; rfl
    have here : At c.shared c.own (.call t) v := held
    have listed : ¬ At c.shared c.own .list v := inv.placed.place.elsewhere here (by simp)
    have away : v ∉ c.shared.m_WorkerList := listed
    simp only [Task.after] at after ⊢
    refine .of (inv.placed.push held _) ?_ (inv.logged.release away) ?_
    · exact inv.balanced.congr rfl rfl (fun _ => id) inv.balanced.still
        (fun w => by rw [needs]; rfl)
        (fun w => by rw [needs]; rfl) (by simp)
    · exact inv.calm.step code_ after (fun w b b' own => by cases own) fun w unserved u _ =>
        inv.calm w unserved u
  | workerPop =>
    have idle : c.own t = .idle := needs
    simp only [Shared.perform] at performed
    split at performed
    · cases performed
      simp only [Task.after] at after ⊢
      refine .of (inv.placed.congr rfl rfl rfl rfl) ?_ inv.logged ?_
      · exact inv.balanced.congr rfl rfl (fun _ => id) inv.balanced.still
          (fun _ => rfl) (fun _ => rfl)
          fun _ _ => .inr
      · exact inv.calm.step code_ after (fun w b b' own => by rw [idle] at own; cases own)
          fun w unserved u _ => inv.calm w unserved u
    · rename_i v others list
      cases performed
      have away : v ∉ c.shared.serving := by
        have here : At c.shared c.own .list v := by simp [At, list]
        exact inv.placed.place.elsewhere (q := .serving) here (by simp)
      exact inv.taken code_ after idle (inv.placed.workerPop list idle) away
        (fun w inside other => by simpa [list, other] using inside) rfl
  | workerNew =>
    have idle : c.own t = .idle := needs
    cases performed
    have away : c.shared.allocated ∉ c.shared.serving := fun inside =>
      absurd (inv.placed.place.known .serving _ inside) (lt_irrefl _)
    exact inv.taken code_ after idle (inv.placed.workerNew idle) away (fun w inside _ => inside) rfl
  | workerPush v =>
    cases performed
    obtain ⟨zeroed, holds⟩ := needs
    have held : (c.own t).held = some v := by rw [holds]; rfl
    simp only [Task.after] at after ⊢
    refine .of (inv.placed.push held _) ?_ ?_ ?_
    · exact inv.balanced.congr rfl rfl (fun _ => id) inv.balanced.still
        (fun w => by rw [holds]; rfl)
        (fun w => by rw [holds]; rfl) (by simp)
    · exact inv.logged.congr (fun _ => id) rfl rfl (fun w => List.mem_append_left _)
    · exact inv.calm.step code_ after (fun w b b' own => by cases own) fun w unserved u _ =>
        inv.calm w unserved u

theorem enter (inv : Inv c) (done : (c.own t).Done) {type : WorkerType} {e : Entry} {l : Task}
    {p : WorkerCall Unit} (entered : enter type c.shared e = some (s', l, p)) :
    Inv ⟨s', Function.update c.own t l, Function.update c.code t p⟩ ∧
      p.Follows discipline l (fun _ => Task.Done) := by
  have free : (c.own t).held = none := by rcases done with own | ⟨w, own⟩ <;> rw [own] <;> rfl
  have idle (w : Obj) : (c.own t).unhandled w = 0 ∧ (c.own t).uncounted w = 0 := by
    rcases done with own | ⟨w, own⟩ <;> simp [own, Task.unhandled, Task.uncounted]
  cases e with
  | accept socket error =>
    simp only [Engine.enter] at entered
    split at entered
    · cases entered
    cases entered
    have follows := discard_follows (accepted_follows error socket)
    refine ⟨.of ?_ ?_ ?_ ?_, follows⟩
    · refine inv.placed.congr ?_ ?_ ?_ free.symm <;> rfl
    · exact inv.balanced.congr rfl rfl (fun _ => id) inv.balanced.still (fun w => (idle w).1.symm)
        (fun w => (idle w).2.symm) (by simp)
    · exact inv.logged.congr (fun _ => id) rfl rfl (fun _ => id)
    · exact inv.calm.enter follows (by simp [Task.on])
  | complete posted bytenumber error =>
    simp only [Engine.enter] at entered
    split at entered
    · rename_i member
      cases entered
      have follows := discard_follows (consumeReq_follows type bytenumber error posted.req)
      refine ⟨.of ?_ (inv.balanced.complete member done) ?_ ?_, follows⟩
      · refine inv.placed.congr ?_ ?_ ?_ free.symm <;> rfl
      · exact inv.logged.congr (fun _ => List.mem_of_mem_erase) rfl rfl (fun _ => id)
      · refine inv.calm.enter follows fun w unserved => ?_
        simpa [Task.on] using fun same : posted.req.m_pObserver = w =>
          unserved (same ▸ inv.balanced.still posted member)
    · cases entered

end Inv

omit [DecidableEq T] in
theorem Initial.inv (first : Initial s) {code : T → WorkerCall Unit}
    (rest : ∀ t, code t = .ret ()) :
    Inv (T := T) ⟨s, fun _ => .idle, code⟩ := by
  obtain ⟨serving, -, released⟩ := first.history
  refine .of ⟨⟨?_, ?_, ?_⟩, ?_, ?_⟩ ⟨?_, ?_, ?_, ?_⟩ ⟨?_, ?_, ?_⟩ ?_
  · intro p w here
    cases p <;> simp_all [At, first.m_WorkerList, Task.held]
  · intro p q w here there
    cases p <;> cases q <;> simp_all [At, Task.held]
  · exact fun w known => ⟨.list, by simpa [At, first.m_WorkerList] using known⟩
  · exact first.m_WorkerList ▸ List.nodup_range
  · simp [serving]
  · simp [first.pending]
  · simp [serving]
  · simp [serving]
  · simp
  · simp [first.pending]
  · simp [released]
  · simp [released]
  · intro w _ t _
    rw [Quiet, rest t]
    trivial

/-- ReleaseObject is called at most once for a connection and after the last of its
completions, and a worker in the list is there once and has nothing outstanding. -/
structure Sound (s : Config T (Shared Worker) Task (Op Worker) Res) : Prop where
  releasedOnce : s.shared.released.Nodup
  completed : ∀ x ∈ s.shared.released, ∀ posted ∈ s.shared.pending,
    (posted.req.m_pObserver, posted.connection) ≠ x
  listOnce : s.shared.m_WorkerList.Nodup
  consumed : ∀ w ∈ s.shared.m_WorkerList,
    outstanding s.shared w = 0 ∧ ∀ t, (s.own t).unhandled w = 0

omit [DecidableEq T] in
theorem Inv.sound {s : Config T (Shared Worker) Task (Op Worker) Res} (inv : Inv s)
    (follows : ∀ t, (s.code t).Follows discipline (s.own t) (fun _ => Task.Done)) : Sound s := by
  have unserved (w : Obj) (listed : w ∈ s.shared.m_WorkerList) : w ∉ s.shared.serving := by
    have here : At s.shared s.own .list w := listed
    exact inv.placed.place.elsewhere (q := .serving) here (by simp)
  refine ⟨inv.logged.releasedOnce, ?_, inv.placed.listOnce, fun w listed => ⟨?_, fun t => ?_⟩⟩
  · rintro x released posted inside rfl
    have back := (inv.logged.past _ released).2 (inv.logged.current posted inside)
    exact unserved _ back (inv.balanced.still posted inside)
  · refine List.countP_eq_zero.mpr fun posted inside => ?_
    simpa using fun same : posted.req.m_pObserver = w =>
      unserved w listed (same ▸ inv.balanced.still posted inside)
  · exact (nothing_owed follows (inv.calm w (unserved w listed) t)).1

theorem recycled_soundly {type : WorkerType} {s : Config T (Shared Worker) Task (Op Worker) Res}
    (run : (system T type).ReachableUnder Settled s) : Sound s := by
  have resting : Task.Done .idle := .inl rfl
  have held := Semantics.invariant_of_run (I := Inv) discipline resting ?_ ?_ ?_ run
  · exact held.1.sound held.2
  · rintro ⟨shared, own, code⟩ ⟨first, rest⟩
    obtain rfl : own = fun _ => .idle := funext fun t => (rest t).1
    exact first.inv fun t => (rest t).2
  · exact fun s t e s' l p inv done entered => inv.enter done entered
  · intro s t op rest choice s' l r inv follows code_ settled performed needs
    simp only [semantics, Engine.step, Option.some.injEq, Prod.mk.injEq] at performed
    obtain ⟨rfl, rfl, rfl⟩ := performed
    exact ⟨inv.step follows code_ settled rfl needs, rfl⟩

section
variable [Subsingleton T]

instance (s : Config T (Shared Worker) Task (Op Worker) Res) (t : T) (op : Op Worker) :
    Decidable (Finds s t op) :=
  match op with
  | .zero w _ => inferInstanceAs (Decidable (s.shared.counters w .m_nErrorNum = 0))
  | .count w c => inferInstanceAs (Decidable (s.shared.counters w c + 1 < 2 ^ 31))
  | .isOver w =>
    decidable_of_iff
      (s.shared.counters w .m_nWriteNum + s.shared.counters w .m_nRecvNum < 2 ^ 31 ∧
        s.shared.counters w .m_nRecvedNum + s.shared.counters w .m_nWritedNum +
          s.shared.counters w .m_nErrorNum < 2 ^ 31)
      ⟨fun room => ⟨room.1, room.2, fun _ u other => absurd (Subsingleton.elim u t) other⟩,
        fun found => ⟨found.1, found.2.1⟩⟩
  | .get _ | .set _ _ | .associateDevice _ | .closesocket _ | .post _ _ | .replies _
  | .release _ | .workerPop | .workerNew | .workerPush _ | .acceptNum _ => .isTrue trivial

instance (s : Config T (Shared Worker) Task (Op Worker) Res) :
    (l : Label T Choice Entry) → Decidable (Settled s l)
  | .enter _ _ => .isTrue trivial
  | .step t c => match at_ : s.code t with
    | .ret _ => .isTrue (by simp [Settled, at_])
    | .call op _ => decidable_of_iff (Finds s t op) (by simp [Settled, at_])

end

def unused : Config Unit (Shared Worker) Task (Op Worker) Res where
  shared := ⟨fun _ => ⟨none, .stop, 0⟩, fun _ _ => 0, [], 0, 0, [], [], [], fun _ => 0, [], [], []⟩
  own _ := .idle
  code _ := .ret ()

theorem unused_initial (type : WorkerType) : (system Unit type).initial unused :=
  ⟨⟨rfl, fun _ => ⟨rfl, fun _ _ => rfl⟩, rfl, ⟨rfl, rfl⟩, ⟨rfl, rfl, rfl⟩⟩, fun _ => ⟨rfl, rfl⟩⟩

/-- A call and all its operations. -/
def calling {E : Type} (e : E) (steps : Nat) : List (Label Unit Choice E) :=
  .enter () e :: List.replicate steps (.step () {})

def reading (connection : Nat) : Posted := ⟨⟨0, .SOCKET_READ⟩, connection⟩

def writing (connection : Nat) : Posted := ⟨⟨0, .SOCKET_WRITE⟩, connection⟩

/-- Two connections of one worker that both end with a read of zero bytes. -/
def orderly : List (Label Unit Choice Entry) :=
  List.flatten [calling (.accept 0 false) 16, calling (.complete (reading 1) 5 false) 11,
    calling (.complete (writing 1) 5 false) 1, calling (.complete (reading 1) 0 false) 8,
    calling (.accept 1 false) 15, calling (.complete (reading 2) 0 false) 8]

theorem orderly_runs :
    ((system Unit .CTcpWorker).runUnder Settled unused orderly).map
      (fun s => (s.shared.m_WorkerList, s.shared.released)) = some ([0], [(0, 2), (0, 1)]) := by
  decide +kernel

theorem recycled_after_orderly :
    ∃ s, (system Unit .CTcpWorker).runUnder Settled unused orderly = some s ∧
      s.shared.m_WorkerList = [0] ∧ Sound s := by
  obtain ⟨s, ran, ended⟩ := Option.map_eq_some_iff.mp orderly_runs
  exact ⟨s, ran, congrArg Prod.fst ended,
    recycled_soundly (System.runUnder_reachable (.initial (unused_initial .CTcpWorker)) ran)⟩

/-- The first connection ends with an error, and m_nErrorNum stays one: the second one
is over when its peer closes while a write of it is pending. -/
def failing : List (Label Unit Choice Entry) :=
  List.flatten [calling (.accept 0 false) 16, calling (.complete (reading 1) 0 true) 9,
    calling (.accept 1 false) 15, calling (.complete (reading 2) 5 false) 11,
    calling (.complete (reading 2) 0 false) 8]

theorem failing_runs :
    ((system Unit .CTcpWorker).run unused failing).map
      (fun s => (s.shared.m_WorkerList, s.shared.pending)) = some ([0], [writing 2]) := by
  decide +kernel

theorem recycled_early_after_error :
    ¬ ∀ s, (system Unit .CTcpWorker).Reachable s → Sound s := by
  intro sound
  obtain ⟨s, ran, ended⟩ := Option.map_eq_some_iff.mp failing_runs
  obtain ⟨listed, pending⟩ := Prod.mk.injEq .. ▸ ended
  have reached := System.run_reachable (.initial (unused_initial .CTcpWorker)) ran
  have consumed := ((sound s reached).consumed 0 (by simp [listed])).1
  simp [outstanding, pending, writing] at consumed

end TestIOCP.Engine
