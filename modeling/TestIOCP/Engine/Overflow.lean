import TestIOCP.Engine.Accounting

/-! A connection that has posted 2^31 operations: the first sum that IsOver compares
overflows, and the connecter is released while operations are outstanding. -/
namespace TestIOCP.Engine.Connecter
open Transition Program Semantics

variable {s : Shared Connecter}

/-- A connecter that has written n times, each write completed. -/
structure Written (s : Config Unit (Shared Connecter) Task (Op Connecter) Res)
    (n : Nat) : Prop where
  reached : (system Unit).ReachableUnder (Serial Anytime Always) s
  idle : ∀ t, s.code t = .ret ()
  known : s.shared.allocated = 1
  object : s.shared.objects 0 = ⟨some 5, .run, true, some 0⟩
  sockets : s.shared.sockets = [5]
  pending : s.shared.pending = [reading 0]
  connection : s.shared.connection 0 = 0
  released : s.shared.released = []
  posted : s.shared.counters 0 .m_nRecvNum = 2 ∧ s.shared.counters 0 .m_nWriteNum = wrap n
  counted : s.shared.counters 0 .m_nRecvedNum = 1 ∧ s.shared.counters 0 .m_nWritedNum = wrap n ∧
    s.shared.counters 0 .m_nErrorNum = 0

/-- Connect. -/
def connecting : List (Label Unit Choice Entry) :=
  List.flatten [calling (.create (some 0) (some 5)) 3, calling (.start 0) 13,
    calling (.complete ⟨⟨0, .SOCKET_CONNECT⟩, 0⟩ 0 false) 5]

theorem connecting_runs :
    ((system Unit).runUnder (Serial Anytime Always) unused connecting).map (fun s => decide
      ((∀ t, s.code t = .ret ()) ∧ s.shared.allocated = 1 ∧
        s.shared.objects 0 = ⟨some 5, .run, true, some 0⟩ ∧ s.shared.sockets = [5] ∧
        s.shared.pending = [reading 0] ∧ s.shared.connection 0 = 0 ∧ s.shared.released = [] ∧
        s.shared.counters 0 .m_nRecvNum = 2 ∧ s.shared.counters 0 .m_nWriteNum = 0 ∧
        s.shared.counters 0 .m_nRecvedNum = 1 ∧ s.shared.counters 0 .m_nWritedNum = 0 ∧
        s.shared.counters 0 .m_nErrorNum = 0)) = some true := by
  decide +kernel

theorem exists_written : ∃ s, Written s 0 := by
  obtain ⟨s, ran, ended⟩ := Option.map_eq_some_iff.mp connecting_runs
  obtain ⟨idle, known, object, sockets, pending, connection, released, recv, write, recved, writed,
    error⟩ := of_decide_eq_true ended
  exact ⟨s, System.runUnder_reachable (.initial unused_initial) ran, idle, known, object, sockets,
    pending, connection, released, ⟨recv, write⟩, recved, writed, error⟩

theorem serial_free (s : Config Unit (Shared Connecter) Task (Op Connecter) Res) :
    Serial (E := Entry) Anytime Always s (.step () ({} : Choice)) := by
  simp only [Serial]
  split <;> trivial

theorem wrap_succ (n : Nat) : wrap (wrap n + 1) = wrap (n + 1 : Nat) := by
  have before := wrap_range n
  have one := wrap_range (wrap n + 1)
  have after := wrap_range (n + 1 : Nat)
  push_cast at after
  push_cast
  omega

/-- Write posts an operation and counts it. -/
theorem write_exec (object : s.objects 0 = ⟨some 5, .run, true, some 0⟩) (sockets : s.sockets = [5])
    (connection : s.connection 0 = 0) :
    ∃ l' : Task, (discard (write 0)).exec step {} s (.working 0 false false) = some
      ({ s with pending := writing 0 :: s.pending }.write 0 .m_nWriteNum
        (wrap (s.counters 0 .m_nWriteNum + 1)), l', ()) := by
  simp [discard, write, postCounted, Engine.get, count, perform, exec, step, Shared.perform, object,
    sockets, connection, Task.after, Shared.begin, Endpoint.m_TcpSocket, writing]

/-- The completion of a write is only counted. -/
theorem written_exec :
    ∃ l' : Task, (discard (consumeReq 4 false (writing 0).req)).exec step {} s
      (.working 0 true false) = some
      (s.write 0 .m_nWritedNum (wrap (s.counters 0 .m_nWritedNum + 1)), l', ()) := by
  simp [discard, consumeReq, writing, count, perform, exec, step, Shared.perform]

theorem Written.write {s : Config Unit (Shared Connecter) Task (Op Connecter) Res} {n : Nat}
    (written : Written s n) : ∃ s', Written s' (n + 1) := by
  obtain ⟨reached, idle, known, object, sockets, pending, connection, released, ⟨recv, write⟩,
    recved, writed, error⟩ := written
  obtain ⟨l₁, ran₁⟩ := write_exec object sockets connection
  have one := reachable_call serial_free (e := .write 0) reached ⟨idle, trivial⟩ (idle ())
    (by simp [semantics, enter, known]) ran₁
  obtain ⟨l₂, ran₂⟩ := written_exec (s := s.shared.write 0 .m_nWriteNum
    (wrap (s.shared.counters 0 .m_nWriteNum + 1)))
  have two := reachable_call serial_free (e := .complete (writing 0) 4 false) one
    ⟨by simp, trivial⟩ (by simp) (by simp [semantics, enter, Shared.write]; rfl) ran₂
  refine ⟨_, two, by simp, known, object, sockets, pending, connection, released,
    ⟨?_, ?_⟩, ?_, ?_, ?_⟩
  all_goals simp [Shared.write, recv, write, recved, writed, error, wrap_succ]

theorem exists_written_many (n : Nat) : ∃ s, Written s n := by
  induction n with
  | zero => exact exists_written
  | succ n ih =>
    obtain ⟨s, written⟩ := ih
    exact written.write

/-- The peer closes while a write is pending: the disconnect is posted, and the release
test compares the sums on different sides of the overflow. -/
theorem close_exec (object : s.objects 0 = ⟨some 5, .run, true, some 0⟩) (sockets : s.sockets = [5])
    (recv : s.counters 0 .m_nRecvNum = 2) (write : s.counters 0 .m_nWriteNum = 2 ^ 31 - 2)
    (recved : s.counters 0 .m_nRecvedNum = 1) (writed : s.counters 0 .m_nWritedNum = 2 ^ 31 - 3)
    (error : s.counters 0 .m_nErrorNum = 0) :
    ∃ s' l', (discard (consumeReq 0 false (reading 0).req)).exec step {} s
      (.working 0 true false) = some (s', l', ()) ∧ s'.allocated = s.allocated ∧
      s'.released = (0, s.connection 0) :: s.released ∧ ∀ p ∈ s.pending, p ∈ s'.pending := by
  have two : wrap 2 = 2 := by decide
  have three : wrap 3 = 3 := by decide
  have separated : wrap 2147483649 ≤ wrap 2147483647 := by decide
  simp [discard, consumeReq, uninitObject, stop, postCounted, releaseIfOver, isOver, reading,
    Engine.get, Engine.set, count, perform, exec, step, Shared.perform, object, sockets, Task.after,
    Counter.posts, Shared.begin, Endpoint.m_TcpSocket, Shared.write, Over, recv, write, recved,
    writed, error, two, three, separated]
  exact fun p inside => .inr inside

theorem released_early_after_overflow :
    ¬ ∀ s, (system Unit).ReachableUnder (Serial Anytime Always) s → Accountable s := by
  intro accountable
  obtain ⟨s, reached, idle, known, object, sockets, pending, connection, released, ⟨recv, write⟩,
    recved, writed, error⟩ := exists_written_many (2 ^ 31 - 3)
  obtain ⟨l₁, ran₁⟩ := write_exec object sockets connection
  have one := reachable_call serial_free (e := .write 0) reached ⟨idle, trivial⟩ (idle ())
    (by simp [semantics, enter, known]) ran₁
  have before : wrap (wrap ((2 ^ 31 - 3 : Nat) : Int) + 1) = 2 ^ 31 - 2 := by decide
  have counted : wrap ((2 ^ 31 - 3 : Nat) : Int) = 2 ^ 31 - 3 := by decide
  obtain ⟨s', l₂, ran₂, allocated, back, kept⟩ := close_exec
    (s := { s.shared with pending := [writing 0] }.write 0 .m_nWriteNum
      (wrap (s.shared.counters 0 .m_nWriteNum + 1))) object sockets (by simp [Shared.write, recv])
    (by simpa [Shared.write, write] using before) (by simp [Shared.write, recved])
    (by simpa [Shared.write, writed] using counted) (by simp [Shared.write, error])
  have two := reachable_call serial_free (e := .complete (reading 0) 0 false) one
    ⟨by simp, trivial⟩ (by simp)
    (by simp [semantics, enter, Shared.write, pending, reading, writing]) ran₂
  have accounts := accountable _ two (by simp) 0 (by simp [allocated, Shared.write, known])
  have outstanding_ : writing 0 ∈ operations s' 0 := by
    simpa [operations, writing] using kept (writing 0) (by simp [Shared.write, writing])
  have silent := (accounts.late (by simp [releases, back])).1
  exact absurd silent (Nat.ne_of_gt (List.length_pos_of_mem outstanding_))

end TestIOCP.Engine.Connecter
