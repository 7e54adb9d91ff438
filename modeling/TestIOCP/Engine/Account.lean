import TestIOCP.Engine.Discipline
import TestIOCP.Ledger
import Mathlib.Algebra.BigOperators.Group.Finset.Piecewise

/-! What a worker has to do with the counters, the list and the port: where it is,
how many of its operations are outstanding, which connections it has served. -/
namespace TestIOCP.Engine
open Transition Program

/-- Where a worker is; a call has it between the list and its connection. -/
inductive Place (T : Type) where
  | list
  | serving
  | call (t : T)

variable {T : Type}

def Task.held : Task → Option Obj
  | .holding w _ | .ending w => some w
  | .idle | .working _ _ _ => none

def At (s : Shared Worker) (own : T → Task) : Place T → Obj → Prop
  | .list, w => w ∈ s.m_WorkerList
  | .serving, w => w ∈ s.serving
  | .call t, w => (own t).held = some w

def outstanding (s : Shared Worker) (w : Obj) : Nat :=
  s.pending.countP (fun posted => posted.req.m_pObserver = w)

/-- Completions of w that a call has taken and not counted. -/
def Task.unhandled (w : Obj) : Task → Nat
  | .working v unhandled _ => if unhandled ∧ v = w then 1 else 0
  | _ => 0

/-- Operations of w that a call has posted and not counted. -/
def Task.uncounted (w : Obj) : Task → Nat
  | .working v _ uncounted => if uncounted ∧ v = w then 1 else 0
  | _ => 0

theorem Task.after_post {F : Type} (l : Task) (socket : Option Sock) (req : IOReq)
    {outcome : Outcome}
    (accepted : outcome ≠ .failed) :
    l.after (.post socket req : Op F) outcome = .working req.m_pObserver false true := by
  cases outcome with
  | failed => exact absurd rfl accepted
  | _ => rfl

/-- Every worker is in one place. -/
structure Placed (s : Shared Worker) (own : T → Task) : Prop where
  place : Accounted (At s own) (· < s.allocated)
  listOnce : s.m_WorkerList.Nodup
  servingOnce : s.serving.Nodup

/-- Operations belong to the current connection of their worker, and no connection was
released before its worker came back to the list. -/
structure Logged (s : Shared Worker) : Prop where
  current : ∀ posted ∈ s.pending, posted.connection = s.connection posted.req.m_pObserver
  past : ∀ x ∈ s.released, x.2 ≤ s.connection x.1 ∧
    (x.2 = s.connection x.1 → x.1 ∈ s.m_WorkerList)
  releasedOnce : s.released.Nodup

variable {s s' : Shared Worker} {own : T → Task} {t : T} {w : Obj}

namespace Placed

theorem apart (inv : Placed s own) (here : (own t).held = some w) : w ∉ s.serving := by
  have at_ : At s own (.call t) w := here
  exact inv.place.elsewhere (q := .serving) at_ (by simp)

variable [DecidableEq T]

theorem congr (inv : Placed s own) (list : s'.m_WorkerList = s.m_WorkerList)
    (allocated : s'.allocated = s.allocated) (serving : s'.serving = s.serving) {l : Task}
    (held : l.held = (own t).held) : Placed s' (Function.update own t l) := by
  constructor
  · simp only [allocated]
    refine inv.place.congr ?_
    intro q w
    cases q <;> simp only [At, list, serving, Function.update_apply]
    grind
  · simpa only [list] using inv.listOnce
  · simpa only [serving] using inv.servingOnce

theorem workerPop (inv : Placed s own) (list : s.m_WorkerList = w :: rest) (idle : own t = .idle) :
    Placed ({ s with m_WorkerList := rest }.take w) (Function.update own t (.holding w [])) := by
  have here : At s own .list w := by simp [At, list]
  have free : (own t).held = none := by rw [idle]; rfl
  have once := inv.listOnce
  rw [list] at once
  constructor
  · refine inv.place.move (r := w) (p := .call t) (inv.place.known _ w here) ?_
    intro q x
    have other := fun at_ => inv.place.apart (q := q) (x := x) here at_
    cases q <;> simp only [At, Shared.take, Function.update_apply, Task.held] at * <;>
      grind [Task.held]
  · exact (List.nodup_cons.mp once).2
  · exact inv.servingOnce

theorem workerNew (inv : Placed s own) (idle : own t = .idle) :
    Placed ({ s with allocated := s.allocated + 1 }.take s.allocated)
      (Function.update own t (.holding s.allocated [])) := by
  have free : (own t).held = none := by rw [idle]; rfl
  constructor
  · refine inv.place.create (r := s.allocated) (p := .call t) (by simp)
      (by simp only [Shared.take]; grind) ?_
    intro q x
    have known := inv.place.known q x
    cases q <;> simp only [At, Shared.take, Function.update_apply] at * <;> grind [Task.held]
  · exact inv.listOnce
  · exact inv.servingOnce

/-- A worker comes back to the list. -/
theorem push (inv : Placed s own) (holds : (own t).held = some w) (released : List (Obj × Nat)) :
    Placed { s with m_WorkerList := s.m_WorkerList ++ [w], released }
      (Function.update own t .idle) := by
  have here : At s own (.call t) w := holds
  have fresh : ¬ At s own .list w := inv.place.elsewhere here (by simp)
  constructor
  · refine inv.place.move (r := w) (p := .list) (inv.place.known _ w here) ?_
    intro q x
    have other := fun at_ => inv.place.apart (q := q) (x := x) here at_
    cases q <;> simp only [At, Function.update_apply] at * <;> grind [Task.held]
  · exact List.concat_eq_append ▸ inv.listOnce.concat fresh
  · exact inv.servingOnce

/-- A connection begins with its first operation. -/
theorem begin (inv : Placed s own) {zeroed : List Counter} (holds : own t = .holding w zeroed)
    (begun : List (Obj × Nat)) (pending : List Posted) :
    Placed { s with serving := w :: s.serving, begun, pending }
      (Function.update own t (.working w false true)) := by
  have held : (own t).held = some w := by rw [holds]; rfl
  have here : At s own (.call t) w := held
  constructor
  · refine inv.place.move (r := w) (p := .serving) (inv.place.known _ w here) ?_
    intro q x
    have other := fun at_ => inv.place.apart (q := q) (x := x) here at_
    cases q <;> simp only [At, Function.update_apply] at * <;> grind [Task.held]
  · exact inv.listOnce
  · exact List.nodup_cons.mpr ⟨inv.apart held, inv.servingOnce⟩

/-- A connection is over. -/
theorem over_ (inv : Placed s own) (serving : w ∈ s.serving)
    (own_ : own t = .working w false false) :
    Placed { s with serving := s.serving.filter (· ≠ w) } (Function.update own t (.ending w)) := by
  have free : (own t).held = none := by rw [own_]; rfl
  have here : At s own .serving w := serving
  constructor
  · refine inv.place.move (r := w) (p := .call t) (inv.place.known _ w here) ?_
    intro q x
    have other := fun at_ => inv.place.apart (q := q) (x := x) here at_
    cases q <;> simp only [At, Function.update_apply] at * <;> grind [Task.held]
  · exact inv.listOnce
  · exact inv.servingOnce.filter _

end Placed

variable [Fintype T]

/-- What the calls have together. -/
def total (own : T → Task) (f : Task → Nat) : Nat := ∑ t, f (own t)

theorem total_update [DecidableEq T] (own : T → Task) (t : T) (l : Task) (f : Task → Nat) :
    total (Function.update own t l) f + f (own t) = total own f + f l := by
  simp only [total, ← Finset.sum_erase_add _ _ (Finset.mem_univ t), Function.update_self]
  have others : ∑ u ∈ Finset.univ.erase t, f (Function.update own t l u) =
      ∑ u ∈ Finset.univ.erase t, f (own u) :=
    Finset.sum_congr rfl fun u other => by
      rw [Function.update_of_ne (Finset.ne_of_mem_erase other)]
  omega

/-- Only workers with a connection have operations, and their counters agree with what
is outstanding, up to what calls have not counted yet. -/
structure Balanced (s : Shared Worker) (own : T → Task) : Prop where
  still : ∀ posted ∈ s.pending, posted.req.m_pObserver ∈ s.serving
  positive : ∀ w ∈ s.serving, ∀ c, 0 ≤ s.counters w c
  balance : ∀ w ∈ s.serving,
    outstanding s w + total own (Task.unhandled w) +
        (s.counters w .m_nRecvedNum + s.counters w .m_nWritedNum + s.counters w .m_nErrorNum) =
      total own (Task.uncounted w) + (s.counters w .m_nWriteNum + s.counters w .m_nRecvNum)
  zeroed : ∀ t w zeroed, own t = .holding w zeroed → ∀ c ∈ zeroed,
    s.counters w c = 0 ∧ s.counters w .m_nErrorNum = 0

omit [Fintype T] in
theorem outstanding_cons (s : Shared Worker) (posted : Posted) (w : Obj) :
    outstanding { s with pending := posted :: s.pending } w =
      outstanding s w + if posted.req.m_pObserver = w then 1 else 0 := by
  simp [outstanding, List.countP_cons]

omit [Fintype T] in
theorem outstanding_erase {s : Shared Worker} {posted : Posted}
    (member : posted ∈ s.pending) (w : Obj) :
    outstanding { s with pending := s.pending.erase posted } w +
      (if posted.req.m_pObserver = w then 1 else 0) = outstanding s w := by
  have perm := (List.perm_cons_erase member).countP_eq (fun posted => posted.req.m_pObserver = w)
  rw [List.countP_cons] at perm
  simpa [outstanding] using perm.symm

namespace Balanced
variable [DecidableEq T] {l : Task}

/-- A step that neither posts nor counts. -/
theorem congr (inv : Balanced s own) (pending : s'.pending = s.pending)
    (counters : s'.counters = s.counters) (serving : ∀ w ∈ s'.serving, w ∈ s.serving)
    (still : ∀ posted ∈ s.pending, posted.req.m_pObserver ∈ s'.serving)
    (unhandled : ∀ w, l.unhandled w = (own t).unhandled w)
    (uncounted : ∀ w, l.uncounted w = (own t).uncounted w)
    (holding : ∀ w zeroed, l = .holding w zeroed → zeroed = [] ∨ own t = .holding w zeroed) :
    Balanced s' (Function.update own t l) := by
  constructor
  · simpa only [pending] using still
  · simpa only [counters] using fun w here => inv.positive w (serving w here)
  · intro w here
    have balance := inv.balance w (serving w here)
    have first := total_update own t l (Task.unhandled w)
    have second := total_update own t l (Task.uncounted w)
    rw [unhandled] at first
    rw [uncounted] at second
    simp only [outstanding, pending, counters] at balance ⊢
    omega
  · intro u w zeroed own_ c inside
    simp only [Function.update_apply, counters] at own_ ⊢
    split at own_
    · rcases holding w zeroed own_ with rfl | before
      · cases inside
      · exact inv.zeroed t w zeroed before c inside
    · exact inv.zeroed u w zeroed own_ c inside

theorem zero (inv : Balanced s own) {zeroed : List Counter} (holds : own t = .holding w zeroed)
    (once : ∀ u, (own u).held = some w → u = t) (unserved : w ∉ s.serving)
    (clean : s.counters w .m_nErrorNum = 0) (c : Counter) :
    Balanced (s.write w c 0) (Function.update own t (.holding w (c :: zeroed))) := by
  have other : ∀ v ∈ s.serving, v ≠ w := fun v serving same => unserved (same ▸ serving)
  constructor
  · exact inv.still
  · intro v serving d
    simpa [Shared.write, other v serving] using inv.positive v serving d
  · intro v serving
    have balance := inv.balance v serving
    have first := total_update own t (.holding w (c :: zeroed)) (Task.unhandled v)
    have second := total_update own t (.holding w (c :: zeroed)) (Task.uncounted v)
    simp only [holds, Task.unhandled, Task.uncounted] at first second
    simp only [outstanding, Shared.write, Function.update_of_ne (other v serving)] at balance ⊢
    omega
  · intro u v z own_ d inside
    by_cases h : u = t
    · subst h
      simp only [Function.update_self, Task.holding.injEq] at own_
      obtain ⟨rfl, rfl⟩ := own_
      have before := inv.zeroed u w zeroed holds
      simp only [Shared.write, Function.update_self, Function.update_apply]
      grind
    · simp only [Function.update_of_ne h] at own_
      have apart : v ≠ w := by
        rintro rfl
        exact h (once u (by rw [own_]; rfl))
      simpa [Shared.write, apart] using inv.zeroed u v z own_ d inside

theorem count (inv : Balanced s own) {unhandled uncounted : Bool}
    (own_ : own t = .working w unhandled uncounted) (serving : w ∈ s.serving) {c : Counter}
    (due : (if c.posts then uncounted else unhandled) = true) (room : s.counters w c + 1 < 2 ^ 31)
    (apart : ∀ u zeroed, own u ≠ .holding w zeroed) :
    Balanced (s.write w c (wrap (s.counters w c + 1))) (Function.update own t
      (if c.posts then .working w unhandled false else .working w false uncounted)) := by
  have positive := inv.positive w serving c
  have counted : wrap (s.counters w c + 1) = s.counters w c + 1 := by
    rw [wrap, Int.bmod_eq_of_le] <;> omega
  rw [counted]
  constructor
  · exact inv.still
  · intro v served d
    have := inv.positive v served d
    simp only [Shared.write, Function.update_apply]
    grind
  · intro v served
    have balance := inv.balance v served
    have first := total_update own t
      (if c.posts then .working w unhandled false else .working w false uncounted)
        (Task.unhandled v)
    have second := total_update own t
      (if c.posts then .working w unhandled false else .working w false uncounted)
        (Task.uncounted v)
    rw [own_] at first second
    simp only [outstanding, Shared.write, Function.update_apply] at balance ⊢
    by_cases same : v = w
    · subst same
      cases c <;>
        simp only [Counter.posts, Bool.false_eq_true, if_false, if_true,
          Task.unhandled, Task.uncounted,
          and_true, Function.update_apply, reduceCtorEq] at due first second ⊢
      all_goals
        simp only [due, if_true] at first second
        omega
    · have apart : w ≠ v := Ne.symm same
      cases h : c.posts <;>
        simp only [h, Bool.false_eq_true, if_false, if_true, Task.unhandled, Task.uncounted, apart,
          and_false, same] at first second ⊢
      all_goals omega
  · intro u v zeroed holds d inside
    by_cases h : u = t
    · subst h
      simp only [Function.update_self] at holds
      split at holds <;> cases holds
    · simp only [Function.update_of_ne h] at holds
      have other : v ≠ w := by
        rintro rfl
        exact apart u zeroed holds
      simpa [Shared.write, other] using inv.zeroed u v zeroed holds d inside

theorem post (inv : Balanced s own) (own_ : own t = .working w false false)
    (serving : w ∈ s.serving)
    {posted : Posted} (observer : posted.req.m_pObserver = w) :
    Balanced { s with pending := posted :: s.pending }
      (Function.update own t (.working w false true)) := by
  constructor
  · intro other inside
    rcases List.mem_cons.mp inside with rfl | before
    · exact observer ▸ serving
    · exact inv.still other before
  · exact inv.positive
  · intro v served
    have balance := inv.balance v served
    have first := total_update own t (.working w false true) (Task.unhandled v)
    have second := total_update own t (.working w false true) (Task.uncounted v)
    rw [own_] at first second
    rw [outstanding_cons, observer]
    simp only [Task.unhandled, Task.uncounted, Bool.false_eq_true, false_and, if_false, true_and]
      at first second
    split at second <;> split <;> grind
  · intro u v zeroed holds
    refine inv.zeroed u v zeroed ?_
    simp only [Function.update_apply] at holds
    grind

theorem begin (inv : Balanced s own) {zeroed : List Counter} (holds : own t = .holding w zeroed)
    (all : ∀ c, c ≠ .m_nErrorNum → c ∈ zeroed) (unserved : w ∉ s.serving)
    (settled : ∀ u, (own u).unhandled w = 0 ∧ (own u).uncounted w = 0)
    (begun : List (Obj × Nat)) {posted : Posted} (observer : posted.req.m_pObserver = w) :
    Balanced { s with serving := w :: s.serving, begun, pending := posted :: s.pending }
      (Function.update own t (.working w false true)) := by
  have zero (c : Counter) : s.counters w c = 0 := by
    by_cases error : c = .m_nErrorNum
    · exact error ▸ (inv.zeroed t w zeroed holds _ (all .m_nRecvNum (by decide))).2
    · exact (inv.zeroed t w zeroed holds c (all c error)).1
  have quiet : outstanding s w = 0 := by
    refine List.countP_eq_zero.mpr fun other inside => ?_
    simpa using fun same : other.req.m_pObserver = w => unserved (same ▸ inv.still other inside)
  have unhandled : total own (Task.unhandled w) = 0 :=
    Finset.sum_eq_zero fun u _ => (settled u).1
  have uncounted : total own (Task.uncounted w) = 0 :=
    Finset.sum_eq_zero fun u _ => (settled u).2
  constructor
  · intro other inside
    rcases List.mem_cons.mp inside with rfl | before
    · exact observer ▸ List.mem_cons_self
    · exact List.mem_cons_of_mem _ (inv.still other before)
  · intro v served c
    rcases List.mem_cons.mp served with rfl | before
    · exact (zero c).ge
    · exact inv.positive v before c
  · intro v served
    have first := total_update own t (.working w false true) (Task.unhandled v)
    have second := total_update own t (.working w false true) (Task.uncounted v)
    rw [holds] at first second
    have more := outstanding_cons s posted v
    rw [observer] at more
    simp only [outstanding] at more quiet ⊢
    simp only [Task.unhandled, Task.uncounted, Bool.false_eq_true, false_and, if_false, true_and]
      at first second
    rcases List.mem_cons.mp served with rfl | before
    · simp only [zero, if_true] at first second more ⊢
      omega
    · have balance := inv.balance v before
      have other : w ≠ v := fun same => unserved (same ▸ before)
      simp only [other, if_false, outstanding] at first second more balance
      omega
  · intro u v zeroed holds
    refine inv.zeroed u v zeroed ?_
    simp only [Function.update_apply] at holds
    grind

theorem complete (inv : Balanced s own) {posted : Posted} (member : posted ∈ s.pending)
    (done : (own t).Done) :
    Balanced { s with pending := s.pending.erase posted }
      (Function.update own t (.working posted.req.m_pObserver true false)) := by
  have idle (v : Obj) : (own t).unhandled v = 0 ∧ (own t).uncounted v = 0 := by
    rcases done with rest | ⟨w, rest⟩ <;> simp [rest, Task.unhandled, Task.uncounted]
  constructor
  · exact fun other inside => inv.still other (List.mem_of_mem_erase inside)
  · exact inv.positive
  · intro v served
    have balance := inv.balance v served
    have first := total_update own t (.working posted.req.m_pObserver true false) (Task.unhandled v)
    have second := total_update own t (.working posted.req.m_pObserver true false)
      (Task.uncounted v)
    have less := outstanding_erase member v
    rw [(idle v).1] at first
    rw [(idle v).2] at second
    simp only [Task.unhandled, Task.uncounted, Bool.false_eq_true, false_and, if_false, true_and]
      at first second
    split at first <;> grind
  · intro u v zeroed holds
    refine inv.zeroed u v zeroed ?_
    simp only [Function.update_apply] at holds
    grind

omit [DecidableEq T] in
/-- With everything counted, IsOver is true only when nothing is outstanding. -/
theorem none_outstanding (inv : Balanced s own) (serving : w ∈ s.serving)
    (counted : ∀ u, (own u).uncounted w = 0) (over_ : Over (s.counters w))
    (room : s.counters w .m_nWriteNum + s.counters w .m_nRecvNum < 2 ^ 31 ∧
      s.counters w .m_nRecvedNum + s.counters w .m_nWritedNum +
        s.counters w .m_nErrorNum < 2 ^ 31) :
    outstanding s w = 0 := by
  have balance := inv.balance w serving
  have positive := inv.positive w serving
  have none_ : total own (Task.uncounted w) = 0 := Finset.sum_eq_zero fun u _ => counted u
  have unwrapped {i : Int} (low : 0 ≤ i) (high : i < 2 ^ 31) : wrap i = i := by
    rw [wrap, Int.bmod_eq_of_le] <;> omega
  have := positive .m_nWriteNum
  have := positive .m_nRecvNum
  have := positive .m_nRecvedNum
  have := positive .m_nWritedNum
  have := positive .m_nErrorNum
  rw [Over, unwrapped (by omega) room.1, unwrapped (by omega) room.2] at over_
  omega

end Balanced

namespace Logged

theorem congr (inv : Logged s) (pending : ∀ posted ∈ s'.pending, posted ∈ s.pending)
    (connection : s'.connection = s.connection) (released : s'.released = s.released)
    (list : ∀ w ∈ s.m_WorkerList, w ∈ s'.m_WorkerList) : Logged s' := by
  constructor
  · simpa only [connection] using fun posted inside => inv.current posted (pending posted inside)
  · simp only [released, connection]
    exact fun x inside => ⟨(inv.past x inside).1, fun same => list _ ((inv.past x inside).2 same)⟩
  · simpa only [released] using inv.releasedOnce

theorem take (inv : Logged s) (idle : ∀ posted ∈ s.pending, posted.req.m_pObserver ≠ w)
    (list : List Obj) (others : ∀ v ∈ s.m_WorkerList, v ≠ w → v ∈ list) (allocated : Nat) :
    Logged ({ s with m_WorkerList := list, allocated }.take w) := by
  constructor
  · intro posted inside
    simpa [Shared.take, idle posted inside] using inv.current posted inside
  · intro x inside
    obtain ⟨bound, back⟩ := inv.past x inside
    simp only [Shared.take, Function.update_apply]
    grind
  · exact inv.releasedOnce

theorem release (inv : Logged s) (away : w ∉ s.m_WorkerList) :
    Logged { s with
      m_WorkerList := s.m_WorkerList ++ [w]
      released := (w, s.connection w) :: s.released } := by
  constructor
  · exact inv.current
  · intro x inside
    rcases List.mem_cons.mp inside with rfl | before
    · simp
    · exact ⟨(inv.past x before).1, fun same => List.mem_append_left _ ((inv.past x before).2 same)⟩
  · refine List.nodup_cons.mpr ⟨fun inside => ?_, inv.releasedOnce⟩
    exact away ((inv.past _ inside).2 rfl)

theorem post (inv : Logged s) (req : IOReq) (serving : List Obj) (begun : List (Obj × Nat)) :
    Logged { s with
      serving
      begun
      pending := ⟨req, s.connection req.m_pObserver⟩ :: s.pending } := by
  refine ⟨fun posted inside => ?_, inv.past, inv.releasedOnce⟩
  rcases List.mem_cons.mp inside with rfl | before
  · rfl
  · exact inv.current posted before

end Logged

end TestIOCP.Engine
