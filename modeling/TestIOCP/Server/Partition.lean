import TestIOCP.Server.Clients
import TestIOCP.Server.Records

/-! Every stub is in one place, in every interleaving of the calls, and CloseAllClient
brings all of them back. -/
namespace TestIOCP.Server
open Transition Program

/-- Where a stub is. -/
inductive StubPlace (T : Type) where
  | free
  | real
  | handed (t : T)
  | closing (t : T)

variable {T : Type}

def ClientAt (s : Shared) (own : T → Task) : StubPlace T → Client → Prop
  | .free, c => c ∈ s.m_FreeClientList.free
  | .real, c => c ∈ s.m_RealClientList
  | .handed t, c => (own t).handed = some c
  | .closing t, c => (own t).closing = some c

structure Partition (s : Shared) (own : T → Task) : Prop where
  place : Accounted (ClientAt s own) (· < s.m_FreeClientList.allocated)
  freeOnce : s.m_FreeClientList.free.Nodup
  realOnce : s.m_RealClientList.Nodup

variable {s s' : Shared} {own : T → Task} {t : T} {l : Task} {c : Client}

/-- Operations that leave both lists of stubs. -/
def Op.Still : Op → Prop
  | .getFreeClient | .addRealClient _ | .eraseRealClient _ | .pushFreeClient _ |
    .clearRealClients => False
  | _ => True

theorem perform_still {op : Op} (choice : Choice) (still : op.Still) :
    (s.perform choice op).1.m_FreeClientList = s.m_FreeClientList ∧
      (s.perform choice op).1.m_RealClientList = s.m_RealClientList := by
  cases op <;> simp only [Op.Still] at still
  case post c d r =>
    simp only [Shared.perform]
    split
    · exact ⟨rfl, rfl⟩
    · split
      · exact ⟨rfl, rfl⟩
      · split <;> exact ⟨rfl, rfl⟩
  case findErase c d r =>
    simp only [Shared.perform]
    split <;> exact ⟨rfl, rfl⟩
  case closeSocket c =>
    simp only [Shared.perform]
    split <;> exact ⟨rfl, rfl⟩
  case createIoCompletionPort sock c =>
    simp only [Shared.perform]
    split
    · exact ⟨rfl, rfl⟩
    · split <;> exact ⟨rfl, rfl⟩
  all_goals exact ⟨rfl, rfl⟩

theorem after_still {op : Op} (still : op.Still) (res : Res op) :
    (l.after op res).handed = l.handed ∧ (l.after op res).closing = l.closing := by
  cases op <;> simp only [Op.Still] at still <;> simp only [Task.after, and_self]
  case store => split <;> simp
  case post => split <;> simp
  case switch => split <;> simp
  case findErase => split <;> simp

variable [DecidableEq T]

namespace Partition

theorem congr (inv : Partition s own) (free : s'.m_FreeClientList = s.m_FreeClientList)
    (real : s'.m_RealClientList = s.m_RealClientList) (handed : l.handed = (own t).handed)
    (closing : l.closing = (own t).closing) : Partition s' (Function.update own t l) := by
  refine ⟨?_, free ▸ inv.freeOnce, real ▸ inv.realOnce⟩
  rw [free]
  refine inv.place.congr fun q c => ?_
  cases q with
  | free => simp [ClientAt, free]
  | real => simp [ClientAt, real]
  | handed u =>
    by_cases same : u = t
    · subst same
      simp [ClientAt, handed]
    · simp [ClientAt, same]
  | closing u =>
    by_cases same : u = t
    · subst same
      simp [ClientAt, closing]
    · simp [ClientAt, same]

/-- A thread whose stub is elsewhere now. -/
theorem moved (inv : Partition s own) {q : StubPlace T} {c : Client} (here : ClientAt s own q c)
    {p : StubPlace T} (free : s'.m_FreeClientList.allocated = s.m_FreeClientList.allocated)
    (moved : Moved (ClientAt s own) (ClientAt s' (Function.update own t l)) c p)
    (freeOnce : s'.m_FreeClientList.free.Nodup) (realOnce : s'.m_RealClientList.Nodup) :
    Partition s' (Function.update own t l) :=
  ⟨free ▸ inv.place.move (inv.place.known _ c here) moved, freeOnce, realOnce⟩

theorem getFreeClient (inv : Partition s own) (none : (own t).handed = none)
    (pool : s.m_FreeClientList.Taken c s'.m_FreeClientList)
    (real : s'.m_RealClientList = s.m_RealClientList) (handed : l.handed = some c)
    (closing : l.closing = (own t).closing) : Partition s' (Function.update own t l) := by
  refine ⟨?_, pool.once, real ▸ inv.realOnce⟩
  refine inv.place.take (f := .free) (q := .handed t) pool (fun _ => Iff.rfl) (fun _ => id) ?_
    (fun _ => Iff.rfl) ?_ ?_ (by simp)
  · intro x
    have grown := pool.grown
    change x < s'.m_FreeClientList.allocated ↔ x < s.m_FreeClientList.allocated ∨ _
    omega
  · intro x
    simp [ClientAt, handed, none, eq_comm]
  · intro o x atFree atHanded
    cases o with
    | free => exact absurd rfl atFree
    | real => simp [ClientAt, real]
    | handed u =>
      have other : u ≠ t := fun same => atHanded (same ▸ rfl)
      simp [ClientAt, other]
    | closing u =>
      by_cases same : u = t
      · subst same
        simp [ClientAt, closing]
      · simp [ClientAt, same]

theorem addRealClient (inv : Partition s own) (holds : (own t).handed = some c)
    (handed : l.handed = none) (closing : l.closing = (own t).closing) :
    Partition { s with m_RealClientList := insertKey c s.m_RealClientList }
      (Function.update own t l) := by
  have here : ClientAt s own (.handed t) c := holds
  refine inv.moved here (p := .real) rfl ?_ inv.freeOnce (insertKey_once inv.realOnce)
  intro q x
  have other := fun at_ => inv.place.apart (q := q) (x := x) here at_
  cases q with
  | free => simpa [ClientAt] using fun at_ => other at_ (by simp)
  | real => by_cases same : x = c <;> simp [ClientAt, mem_insertKey, same]
  | handed u =>
    by_cases same : u = t
    · subst same
      simp [ClientAt, handed, holds, eq_comm]
    · simpa [ClientAt, same] using fun at_ => other at_ (by simpa using same)
  | closing u =>
    by_cases same : u = t
    · subst same
      simpa [ClientAt, closing] using fun at_ => other at_ (by simp)
    · simpa [ClientAt, same] using fun at_ => other at_ (by simp)

theorem eraseRealClient (inv : Partition s own) (real : c ∈ s.m_RealClientList)
    (none : (own t).closing = none) (handed : l.handed = (own t).handed)
    (closing : l.closing = some c) :
    Partition { s with m_RealClientList := s.m_RealClientList.erase c }
      (Function.update own t l) := by
  have here : ClientAt s own .real c := real
  refine inv.moved here (p := .closing t) rfl ?_ inv.freeOnce (inv.realOnce.erase c)
  intro q x
  have other := fun at_ => inv.place.apart (q := q) (x := x) here at_
  cases q with
  | free => simpa [ClientAt] using fun at_ => other at_ (by simp)
  | real => simp [ClientAt, inv.realOnce.mem_erase_iff]
  | handed u =>
    by_cases same : u = t
    · subst same
      simpa [ClientAt, handed] using fun at_ => other at_ (by simp)
    · simpa [ClientAt, same] using fun at_ => other at_ (by simp)
  | closing u =>
    by_cases same : u = t
    · subst same
      simp [ClientAt, closing, none, eq_comm]
    · simpa [ClientAt, same] using fun at_ => other at_ (by simp)

theorem pushFreeClient (inv : Partition s own) (holds : (own t).closing = some c)
    (handed : l.handed = (own t).handed) (closing : l.closing = none) :
    Partition { s with m_FreeClientList := s.m_FreeClientList.give [c] }
      (Function.update own t l) := by
  have here : ClientAt s own (.closing t) c := holds
  have away : ¬ ClientAt s own .free c := inv.place.elsewhere here (by simp)
  refine inv.moved here (p := .free) rfl ?_
    (Pool.give_once inv.freeOnce (by simp) (by simpa [ClientAt] using away)) inv.realOnce
  intro q x
  have other := fun at_ => inv.place.apart (q := q) (x := x) here at_
  cases q with
  | free => by_cases same : x = c <;> simp [ClientAt, Pool.give, same]
  | real => simpa [ClientAt] using fun at_ => other at_ (by simp)
  | handed u =>
    by_cases same : u = t
    · subst same
      simpa [ClientAt, handed] using fun at_ => other at_ (by simp)
    · simpa [ClientAt, same] using fun at_ => other at_ (by simp)
  | closing u =>
    by_cases same : u = t
    · subst same
      simp [ClientAt, closing, holds, eq_comm]
    · simpa [ClientAt, same] using fun at_ => other at_ (by simpa using same)

theorem step (inv : Partition s own) {op : Op} {choice : Choice} (tends : Tends (own t) op) :
    Partition (s.perform choice op).1
      (Function.update own t ((own t).after op (s.perform choice op).2)) := by
  by_cases still : op.Still
  · obtain ⟨free, real⟩ := perform_still (s := s) choice still
    obtain ⟨handed, closing⟩ := after_still (l := own t) still (s.perform choice op).2
    exact inv.congr free real handed closing
  · cases op <;> simp only [Op.Still, not_true_eq_false] at still
    case getFreeClient =>
      have pool := Pool.take_taken 1000 (by omega) inv.freeOnce
        (fun c free => inv.place.known .free c free)
      exact inv.getFreeClient tends.2 pool rfl rfl rfl
    case addRealClient c => exact inv.addRealClient tends.2 rfl rfl
    case eraseRealClient c =>
      by_cases real : c ∈ s.m_RealClientList
      · refine inv.eraseRealClient real tends.2 ?_ ?_
        · simp [Shared.perform, Task.after_eraseRealClient, real]
        · simp [Shared.perform, Task.after_eraseRealClient, real]
      · refine inv.congr rfl (List.erase_of_not_mem real) ?_ ?_
        · simp [Shared.perform, Task.after_eraseRealClient, real]
        · simp [Shared.perform, Task.after_eraseRealClient, real]
    case pushFreeClient c => exact inv.pushFreeClient tends.2 rfl rfl
    case clearRealClients => exact tends.elim

theorem enter (inv : Partition s own) {e : Event ⊕ Request} {p : Call Unit} (empty : (own t).Empty)
    (entered : enterAny s e = some (s', l, p)) : Partition s' (Function.update own t l) := by
  have quiet {s' : Shared} {l : Task} (free : s'.m_FreeClientList = s.m_FreeClientList)
      (real : s'.m_RealClientList = s.m_RealClientList) (none : l.Empty) :
      Partition s' (Function.update own t l) :=
    inv.congr free real (none.1.trans empty.1.symm) (none.2.trans empty.2.symm)
  rcases enterAny_cases entered with entered | ⟨d, buffer, length, -⟩
  · cases entered with
    | invalid | accepted | dequeued | closed => exact quiet rfl rfl ⟨rfl, rfl⟩
  · exact quiet rfl rfl ⟨rfl, rfl⟩

end Partition

omit [DecidableEq T] in
theorem Initial.partition (initial : Initial s) : Partition s (fun _ : T => {}) := by
  refine ⟨⟨?_, ?_, ?_⟩, ?_, ?_⟩
  · intro p c here
    cases p <;> simp_all [ClientAt, initial.m_FreeClientList, initial.m_RealClientList]
  · intro p q c here there
    cases p <;> cases q <;> simp_all [ClientAt, initial.m_RealClientList]
  · exact fun c known => ⟨.free, by simpa [ClientAt, initial.m_FreeClientList] using known⟩
  · simpa [initial.m_FreeClientList] using List.nodup_range
  · simp [initial.m_RealClientList]

theorem partition_of_run {s : Config T Shared Task Op Res}
    (run : (systemAny T).Reachable s) : Partition s.shared s.own ∧
      ∀ t, (s.code t).Follows clientDiscipline (s.own t) (fun _ => Task.Empty) := by
  have resting : Task.Empty {} := ⟨rfl, rfl⟩
  refine Semantics.invariant_of_run (I := fun s => Partition s.shared s.own) clientDiscipline
    resting ?_ ?_ ?_ run
  · rintro s ⟨first, idle⟩
    have own : s.own = fun _ => {} := funext fun t => (idle t).1
    exact own ▸ first.partition
  · exact fun s t e s' l p inv empty entered => ⟨inv.enter empty entered, enterAny_works entered⟩
  · intro s t op rest choice s' l r inv _ _ _ performed tends
    simp only [semanticsAny, Server.step, Option.some.injEq, Prod.mk.injEq] at performed
    obtain ⟨rfl, rfl, rfl⟩ := performed
    exact ⟨inv.step tends, rfl⟩

/-- What CloseAllClient does to the lists of stubs. -/
def Closed (s s' : Shared) (cs : List Client) : Prop :=
  s'.m_FreeClientList = s.m_FreeClientList.give cs ∧ s'.m_RealClientList = s.m_RealClientList

theorem ensures_still {op : Op} {rest : Res op → Call α} {Q : α → Shared → Task → Prop}
    (still : op.Still) (after : ∀ res s' l', s'.m_FreeClientList = s.m_FreeClientList →
      s'.m_RealClientList = s.m_RealClientList →
      (rest res).Ensures step (fun _ _ => True) s' l' Q) :
    (call op rest).Ensures step (fun _ _ => True) s l Q := by
  intro _ choice s' l' res performed
  simp only [Server.step, Option.some.injEq, Prod.mk.injEq] at performed
  obtain ⟨rfl, -, rfl⟩ := performed
  obtain ⟨free, real⟩ := perform_still (s := s) choice still
  exact after _ _ _ free real

theorem closeEach_ensures (cs : List Client) :
    (cs.forM fun c => do
      let _ ← closeStub c
      perform (.pushFreeClient c) : Call PUnit).Ensures step (fun _ _ => True) s l
        (fun _ s' _ => Closed s s' cs) := by
  induction cs generalizing s l with
  | nil => exact ⟨by simp [Pool.give], rfl⟩
  | cons c cs ih =>
    simp only [closeStub, perform, perform_bind]
    refine ensures_still trivial fun _ s₁ l₁ free₁ real₁ => ?_
    refine ensures_still trivial fun _ s₂ l₂ free₂ real₂ => ?_
    refine ensures_still trivial fun _ s₃ l₃ free₃ real₃ => ?_
    intro _ choice s₄ l₄ _ performed
    simp only [Server.step, Shared.perform, Option.some.injEq, Prod.mk.injEq] at performed
    obtain ⟨rfl, -, -⟩ := performed
    refine ih.mono ?_
    rintro _ s' _ ⟨free, real⟩
    refine ⟨?_, ?_⟩
    · rw [free]
      simp [Pool.give, free₃, free₂, free₁]
    · rw [real]
      exact real₃.trans (real₂.trans real₁)

omit [DecidableEq T] in
/-- When no call is running, CloseAllClient brings all stubs back. -/
theorem closeAllClient_ensures (inv : Partition s own) (idle : ∀ t, (own t).Empty) :
    closeAllClient.Ensures step (fun _ _ => True) s l (fun _ s' _ =>
      s'.m_FreeClientList.free.Nodup ∧
      s'.m_RealClientList = [] ∧
      ∀ c, c ∈ s'.m_FreeClientList.free ↔ c < s'.m_FreeClientList.allocated) := by
  simp only [closeAllClient, perform, perform_bind]
  intro _ choice s₀ l₀ clients performed
  simp only [Server.step, Shared.perform, Option.some.injEq, Prod.mk.injEq] at performed
  obtain ⟨rfl, -, rfl⟩ := performed
  refine Ensures.seq (closeEach_ensures s.m_RealClientList) ?_
  rintro _ s₁ l₁ ⟨free, -⟩
  intro _ choice' s₂ l₂ _ performed
  simp only [Server.step, Shared.perform, Option.some.injEq, Prod.mk.injEq] at performed
  obtain ⟨rfl, -, -⟩ := performed
  refine ⟨?_, rfl, fun c => ?_⟩
  · rw [free]
    refine Pool.give_once inv.freeOnce inv.realOnce fun c real => ?_
    have here : ClientAt s own .real c := real
    have away : ¬ ClientAt s own .free c := inv.place.elsewhere here (by simp)
    exact away
  · simp only [free, Pool.give, List.mem_append]
    constructor
    · rintro (inFree | real)
      · exact inv.place.known .free c inFree
      · exact inv.place.known .real c real
    · intro known
      obtain ⟨place, here⟩ := inv.place.total c known
      cases place with
      | free => exact .inl here
      | real => exact .inr here
      | handed t =>
        have none := (idle t).1.symm.trans here
        contradiction
      | closing t =>
        have none := (idle t).2.symm.trans here
        contradiction

/-- Every stub is in one place, and once the threads have ended CloseAllClient puts all
of them in the free list. -/
theorem clients_partitioned {s : Config T Shared Task Op Res} (run : (systemAny T).Reachable s) :
    (∀ c < s.shared.m_FreeClientList.allocated, ∃! place, ClientAt s.shared s.own place c) ∧
      s.shared.m_FreeClientList.free.Nodup ∧ s.shared.m_RealClientList.Nodup ∧
      ((∀ t, s.code t = .ret ()) → ∀ l, closeAllClient.Ensures step (fun _ _ => True) s.shared l
        (fun _ s' _ => s'.m_FreeClientList.free.Nodup ∧ s'.m_RealClientList = [] ∧
          ∀ c, c ∈ s'.m_FreeClientList.free ↔ c < s'.m_FreeClientList.allocated)) := by
  obtain ⟨inv, follows⟩ := partition_of_run run
  refine ⟨fun c known => inv.place.existsUnique known, inv.freeOnce, inv.realOnce, ?_⟩
  intro idle l
  refine closeAllClient_ensures inv fun t => ?_
  have done := follows t
  rw [idle t] at done
  exact done

theorem abandoned_closes :
    ((systemAny Bool).run started (abandoned .inl)).map (fun s => decide
      ((∀ t, s.code t = .ret ()) ∧ s.shared.m_FreeClientList.free.drop 999 = [0])) = some true := by
  decide +kernel

theorem clients_partitioned_after_close :
    ∃ s, (systemAny Bool).run started (abandoned .inl) = some s ∧
      s.shared.m_FreeClientList.free.drop 999 = [0] ∧
      (∀ c < s.shared.m_FreeClientList.allocated, ∃! place, ClientAt s.shared s.own place c) ∧
      closeAllClient.Ensures step (fun _ _ => True) s.shared {}
        (fun _ s' _ => s'.m_FreeClientList.free.Nodup ∧ s'.m_RealClientList = [] ∧
          ∀ c, c ∈ s'.m_FreeClientList.free ↔ c < s'.m_FreeClientList.allocated) := by
  obtain ⟨s, ran, ended⟩ := Option.map_eq_some_iff.mp abandoned_closes
  obtain ⟨idle, last⟩ := of_decide_eq_true ended
  obtain ⟨place, -, -, closed⟩ :=
    clients_partitioned (System.run_reachable (.initial started_initial) ran)
  exact ⟨s, ran, last, place, closed idle {}⟩

end TestIOCP.Server
