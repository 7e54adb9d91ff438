import TestIOCP.Engine.WorkerCalls
import TestIOCP.Engine.ConnecterCalls
import TestIOCP.Engine.Recycling

/-! No session object is lost as long as a successful write is not the last operation
of a closed session. -/
namespace TestIOCP.Engine
open Transition Semantics

variable {T F : Type} [Endpoint F]

/-- While no handler is running, a started session whose socket is closed and of which
nothing is outstanding was released. A session that is not the current one of its
object lost its socket to a later one. -/
def NoneLost (owned : F → Prop) (s : Config T (Shared F) Task (Op F) Res) : Prop :=
  (∀ t, s.code t = .ret ()) → ∀ x ∈ s.shared.begun, owned (s.shared.objects x.1) →
    (x.2 = s.shared.connection x.1 → Endpoint.m_TcpSocket (s.shared.objects x.1) = none) →
    (∀ posted ∈ s.shared.pending, (posted.req.m_pObserver, posted.connection) ≠ x) →
    x ∈ s.shared.released

theorem Resting.none_lost {owned : F → Prop} {s : Config T (Shared F) Task (Op F) Res}
    (resting : (∀ t, s.code t = .ret ()) → Resting owned s.shared) : NoneLost owned s := by
  intro rest x begun owns _ silent
  refine ((resting rest).history.begun x begun owns).resolve_right ?_
  rintro ⟨serving, now⟩
  obtain ⟨type, posted, inside, req, connection⟩ :=
    current_pos.mp ((resting rest).kept x.1 serving).outstanding
  exact silent posted inside (Prod.ext (by rw [req]) (by rw [connection, now]))

theorem released_when_tested [DecidableEq T] (type : WorkerType) :
    (∀ s, (system T type).ReachableUnder (Serial Allowed Counts) s → NoneLost Listed s) ∧
    (∀ s, (Connecter.system T).ReachableUnder (Serial Connecter.Allowed Counts) s →
      NoneLost Connecter.Owned s) := by
  constructor
  · refine fun s run => Resting.none_lost (holds_at_rest (I := Resting Listed) ?_ ?_ run)
    · exact fun s first => first.resting
    · exact fun s e s' l p resting allowed entered => enter_ensures resting allowed entered
  · refine fun s run => Resting.none_lost (holds_at_rest (I := Resting Connecter.Owned) ?_ ?_ run)
    · exact fun s first => first.resting
    · exact fun s e s' l p resting allowed entered =>
        Connecter.enter_ensures resting allowed entered

namespace Connecter

def unused : Config Unit (Shared Connecter) Task (Op Connecter) Res where
  shared := ⟨fun _ => constructed, fun _ _ => 0, [], 0, 0, [], [], [], fun _ => 0, [], [], []⟩
  own _ := .idle
  code _ := .ret ()

theorem unused_initial : (system Unit).initial unused :=
  ⟨⟨rfl, rfl, ⟨rfl, rfl⟩, rfl, ⟨rfl, rfl, rfl⟩⟩, fun _ => ⟨rfl, rfl⟩⟩

/-- Connect, Write and Stop, and then the completions of the write, of the read and of
the disconnect. -/
def stopping : List (Label Unit Choice Entry) :=
  List.flatten [calling (.create (some 0) (some 5)) 3, calling (.start 0) 13,
    calling (.complete ⟨⟨0, .SOCKET_CONNECT⟩, 0⟩ 0 false) 5, calling (.write 0) 4,
    calling (.stop 0) 7, calling (.complete (writing 0) 4 false) 1,
    calling (.complete (reading 0) 0 true) 5,
    calling (.complete ⟨⟨0, .SOCKET_DISCONNECT⟩, 0⟩ 0 false) 5]

theorem stopping_runs : ((system Unit).runUnder (Serial Allowed Counts) unused stopping).map
    (fun s => s.shared.released) = some [(0, 0)] := by
  decide +kernel

end Connecter

theorem orderly_runs_serially :
    ((system Unit .CTcpWorker).runUnder (Serial Allowed Counts) unused orderly).map
      (fun s => s.shared.released) = some [(0, 2), (0, 1)] := by
  decide +kernel

theorem released_after_testing :
    (∃ s, (system Unit .CTcpWorker).runUnder (Serial Allowed Counts) unused orderly = some s ∧
      s.shared.released = [(0, 2), (0, 1)] ∧ NoneLost Listed s) ∧
    (∃ s, (Connecter.system Unit).runUnder (Serial Connecter.Allowed Counts) Connecter.unused
        Connecter.stopping = some s ∧
      s.shared.released = [(0, 0)] ∧ NoneLost Connecter.Owned s) := by
  obtain ⟨s, ran, released⟩ := Option.map_eq_some_iff.mp orderly_runs_serially
  obtain ⟨s', ran', released'⟩ := Option.map_eq_some_iff.mp Connecter.stopping_runs
  refine ⟨⟨s, ran, released, ?_⟩, s', ran', released', ?_⟩
  · exact (released_when_tested .CTcpWorker).1 s
      (System.runUnder_reachable (.initial (unused_initial .CTcpWorker)) ran)
  · exact (released_when_tested .CTcpWorker).2 s'
      (System.runUnder_reachable (.initial Connecter.unused_initial) ran')

/-- The peer closes while the echo is pending, and the echo succeeds. -/
def echoing : List (Label Unit Choice Entry) :=
  List.flatten [calling (.accept 0 false) 16, calling (.complete (reading 1) 5 false) 11,
    calling (.complete (reading 1) 0 false) 6, calling (.complete (writing 1) 5 false) 1]

def Always {S A : Type} (_ : S) (_ : A) : Prop := True

instance {S A : Type} (s : S) (a : A) : Decidable (Always s a) := .isTrue trivial

theorem echoing_runs :
    ((system Unit .CTcpWorker).runUnder (Serial Always Always) unused echoing).map
      (fun s => decide (s.shared.begun = [(0, 1)] ∧ s.shared.pending = [] ∧ s.shared.released = [] ∧
        (s.shared.objects 0).m_TcpSocket = none ∧ s.code () = .ret ())) = some true := by
  decide +kernel

theorem lost_after_echo :
    ¬ ((∀ s, (system Unit .CTcpWorker).ReachableUnder (Serial Always Always) s →
      NoneLost Listed s) ∧
      (∀ s, (Connecter.system Unit).ReachableUnder (Serial Always Always) s →
        NoneLost Connecter.Owned s)) := by
  rintro ⟨none_lost, -⟩
  obtain ⟨s, ran, ended⟩ := Option.map_eq_some_iff.mp echoing_runs
  obtain ⟨begun, pending, released, closed, rest⟩ := of_decide_eq_true ended
  have reached := System.runUnder_reachable (.initial (unused_initial .CTcpWorker)) ran
  have back := none_lost s reached (fun _ => rest) (0, 1) (by simp [begun]) trivial
    (fun _ => closed) (by simp [pending])
  simp [released] at back

end TestIOCP.Engine
