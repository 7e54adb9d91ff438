import TestIOCP.Engine.Coverage
import TestIOCP.Engine.Connecter

/-! What the calls of connecters keep of their sessions. Stop may post a disconnect, and
the owner may call Start, Stop and Write between the completions. -/
namespace TestIOCP.Engine.Connecter
open Transition Program

variable {s s' : Shared Connecter} {l : Task} {w : Obj} {due : Int}

/-- An allocater waits for the connecter. -/
abbrev Owned (s : Connecter) : Prop := s.m_pAllocater ≠ none

theorem stop_ensures (working : Working Owned s l w due) :
    (stop w).Ensures step Counts s l (fun _ s' l' => (s'.objects w).m_TcpSocket = none ∧
      s'.serving = s.serving ∧ (∀ type, Posts s w type → Posts s' w type) ∧
        Working Owned s' l' w due) := by
  refine (working.set_ensures (f := fun s => { s with m_nStatus := .stop }) id).seq ?_
  rintro _ s₁ l ⟨rfl, working⟩
  have closing {s₂ : Shared Connecter} {l : Task} (working : Working Owned s₂ l w due)
      (serving : s₂.serving = s.serving) (posts : ∀ type, Posts s w type → Posts s₂ w type)
      (socket : Sock) :
      (do
        perform (.closesocket socket)
        set w fun s => { s with m_TcpSocket := none }
        return 0 : ConnecterCall Int).Ensures step Counts s₂ l (fun _ s' l' =>
          (s'.objects w).m_TcpSocket = none ∧ s'.serving = s.serving ∧
            (∀ type, Posts s w type → Posts s' w type) ∧ Working Owned s' l' w due) := by
    refine (ensures_op _ _).mpr fun _ _ =>
      ((working.close _ _).set_ensures (f := fun s => { s with m_TcpSocket := none }) id).seq ?_
    rintro _ s l ⟨rfl, working⟩
    exact ⟨by simp, serving, posts, working⟩
  simp only [ensures_get]
  split
  · rename_i socket _
    split
    · refine (working.postCounted_ensures (fun _ _ => id) .SOCKET_DISCONNECT rfl).seq ?_
      rintro _ s l ⟨adds, serving, working, _⟩
      exact closing working serving (fun type posts => adds.posts type posts) socket
    · exact closing working rfl (fun _ => id) socket
  · rename_i closed
    exact ⟨closed, rfl, fun _ => id, working⟩

theorem uninitObject_ensures (working : Working Owned s l w due) :
    (uninitObject w).Ensures step Counts s l (fun _ s' l' =>
      (s'.objects w).m_TcpSocket = none ∧ Working Owned s' l' w due) :=
  (stop_ensures working).seq fun _ _ _ ⟨closed, _, _, working⟩ => ⟨closed, working⟩

theorem releaseIfOver_ensures (working : Working Owned s l w 0)
    (awaits : w ∈ s.serving → (s.objects w).m_TcpSocket ≠ none → Awaits s w) :
    (releaseIfOver w).Ensures step Counts s l (fun _ s' _ => Resting Owned s') := by
  refine (isOver_ensures working awaits).seq fun over_ s l ended => ?_
  cases over_ with
  | false => exact ended
  | true =>
    have ending : Ending Owned s w := ended
    simp only [if_true, ensures_get]
    split
    · exact (ensures_op _ _).mpr fun _ _ => ending.release
    · rename_i alone
      exact ending.unowned alone

theorem close_ensures (working : Working Owned s l w 0) (ret : Int) :
    (do let _ ← uninitObject w; releaseIfOver w; return ret : ConnecterCall Int).Ensures step Counts
      s l (fun _ s' _ => Resting Owned s') := by
  refine (uninitObject_ensures working).seq ?_
  rintro _ s l ⟨closed, working⟩
  exact (releaseIfOver_ensures working fun _ => absurd closed).seq fun _ s l resting => resting

theorem readOrClose_ensures (working : Working Owned s l w 0) :
    (readOrClose w).Ensures step Counts s l (fun _ s' _ => Resting Owned s') := by
  refine (working.postCounted_ensures (fun _ _ => id) _ rfl).seq ?_
  rintro res s l ⟨_, _, working, posted⟩
  split
  · refine (uninitObject_ensures working).seq ?_
    rintro _ s l ⟨closed, working⟩
    refine (working.set_ensures (f := fun s => { s with m_nStatus := .error }) id).seq ?_
    rintro _ s₁ l ⟨rfl, working⟩
    exact (releaseIfOver_ensures working fun _ => absurd (by simpa using closed)).seq
      fun _ s l resting => resting
  · rename_i suc
    rcases posted with ⟨rfl, posts⟩ | rfl
    · exact working.resting_of_awaits (.inl posts)
    · exact absurd (by decide) suc

theorem consumeReq_ensures {posted : Posted} {bytenumber : Nat} {error : Bool}
    (resting : Resting Owned s) (member : posted ∈ s.pending)
    (tested : error = false → Tested s posted) :
    (consumeReq bytenumber error posted.req).Ensures step Counts
      { s with pending := s.pending.erase posted } (.working posted.req.m_pObserver true false)
      (fun _ s' _ => Resting Owned s') := by
  have working := resting.complete member
  simp only [consumeReq]
  cases error with
  | true =>
    refine (uninitObject_ensures working).seq ?_
    rintro _ s l ⟨closed, working⟩
    refine (working.set_ensures (f := fun s => { s with m_nStatus := .error }) id).seq ?_
    rintro _ s₁ l ⟨rfl, working⟩
    refine (working.count_ensures .m_nErrorNum).seq ?_
    rintro _ s' l ⟨objects, _, _, _, working⟩
    exact (releaseIfOver_ensures working fun _ => absurd (by simpa [objects] using closed)).seq
      fun _ s l resting => resting
  | false =>
    cases operate : posted.req.m_nOperateType
    case SOCKET_CONNECT =>
      refine (working.count_ensures .m_nRecvedNum).seq ?_
      rintro _ s l ⟨_, _, _, _, working⟩
      refine (working.set_ensures (f := fun s => { s with m_bConnected := true }) id).seq ?_
      rintro _ s l ⟨_, working⟩
      exact readOrClose_ensures working
    case SOCKET_DISCONNECT =>
      refine (working.set_ensures (f := fun s => { s with m_bConnected := false }) id).seq ?_
      rintro _ s₁ l ⟨rfl, working⟩
      refine (working.count_ensures .m_nRecvedNum).seq ?_
      rintro _ s' l ⟨objects, pending, connection, serving, working⟩
      have other : posted.req.m_nOperateType ≠ .SOCKET_READ ∧
          posted.req.m_nOperateType ≠ .SOCKET_CONNECT := by
        simp [operate]
      have awaits (live : posted.req.m_pObserver ∈ s'.serving)
          (is_open : (s'.objects posted.req.m_pObserver).m_TcpSocket ≠ none) :
          Awaits s' posted.req.m_pObserver := by
        simp only [objects, Function.update_self] at is_open
        rw [serving] at live
        exact (resting.awaits_erase live is_open other).congr (congrFun connection _)
          (by simp only [operations, pending])
      exact (releaseIfOver_ensures working awaits).seq fun _ s l resting => resting
    case SOCKET_READ =>
      refine (working.count_ensures .m_nRecvedNum).seq ?_
      rintro _ s l ⟨_, _, _, _, working⟩
      split
      · exact close_ensures working (-1)
      · exact readOrClose_ensures working
    case SOCKET_WRITE =>
      exact (resting.write_ensures member operate (tested rfl)).seq fun _ s l resting => resting
    all_goals
      refine (working.count_ensures .m_nErrorNum).seq ?_
      rintro _ s l ⟨_, _, _, _, working⟩
      exact close_ensures working (-2)

theorem working (resting : Resting Owned s) (known : w < s.allocated) :
    Working Owned s (.working w false false) w 0 :=
  ⟨resting.history, fun v serving _ => resting.kept v serving,
    fun serving => (resting.kept w serving).covered, known, _, _, rfl⟩

theorem stop_rests (resting : Resting Owned s) (known : w < s.allocated) :
    (stop w).Ensures step Counts s (.working w false false) (fun _ s' _ => Resting Owned s') := by
  refine (stop_ensures (working resting known)).mono ?_
  rintro _ _ _ ⟨closed, serving, posts, working⟩
  exact resting.after working serving posts (.inl closed)

theorem write_rests (resting : Resting Owned s) (known : w < s.allocated) :
    (write w).Ensures step Counts s (.working w false false) (fun _ s' _ => Resting Owned s') := by
  simp only [write, ensures_get]
  split
  · exact resting
  · refine ((working resting known).postCounted_ensures (fun _ _ => id) .SOCKET_WRITE rfl).mono ?_
    rintro _ _ _ ⟨adds, serving, working, _⟩
    exact resting.after working serving adds.posts (.inr adds.socket)

theorem start_rests (resting : Resting Owned s) (known : w < s.allocated) :
    (start w).Ensures step Counts s (.holding w []) (fun _ s' _ => Resting Owned s') := by
  have held : Held Owned s (.holding w []) w [] :=
    ⟨resting.history, fun v serving _ => resting.kept v serving, known, rfl,
      fun _ inside => by cases inside⟩
  have waits (serving : w ∈ s.serving) : 0 < current s w ∧
      ((s.objects w).m_TcpSocket ≠ none → Awaits s w) :=
    ⟨(resting.kept w serving).outstanding, (resting.kept w serving).awaits⟩
  simp only [start, ensures_get]
  split
  · exact resting
  simp only [ensures_get, perform, perform_bind, ensures_op]
  intro _ choice
  obtain ⟨associated, same⟩ :=
    associateDevice_frame s (.holding w []) choice (s.objects w).m_TcpSocket
  rw [same]
  split
  · exact resting.idle _ _ _
  refine ((held.associate associated).zero_ensures _).seq ?_
  rintro _ _ _ ⟨rfl, held⟩
  refine (held.zero_ensures _).seq ?_
  rintro _ _ _ ⟨rfl, held⟩
  refine (held.zero_ensures _).seq ?_
  rintro _ _ _ ⟨rfl, held⟩
  refine (held.zero_ensures _).seq ?_
  rintro _ _ _ ⟨rfl, held⟩
  refine (held.zero_ensures _).seq ?_
  rintro _ _ _ ⟨rfl, held⟩
  replace held := held.set (f := fun s => { s with m_bConnected := false }) id
  refine (ensures_op _ _).mpr fun _ _ => ?_
  have all (c : Counter) (_ : c ≠ .m_nErrorNum) :
      c ∈ [Counter.m_nWritedNum, .m_nWriteNum, .m_nErrorNum, .m_nRecvedNum, .m_nRecvNum] := by
    cases c <;> simp
  refine (postCounted_ensures .SOCKET_CONNECT rfl (held.posted all _)).seq ?_
  rintro _ s' l ⟨_, ⟨rfl, _, working, posts⟩ | ⟨rfl, rfl, rfl⟩⟩
  · refine (working.set_ensures (f := fun s => { s with m_nStatus := .run }) id).seq ?_
    rintro _ s l ⟨rfl, working⟩
    exact working.resting_of_awaits (.inr (posts.congr rfl rfl))
  · refine (held.set (f := fun x => Endpoint.withStatus x .error) id).resting_of_zeroed all
      fun serving => ?_
    refine ⟨(waits serving).1, fun is_open => (waits serving).2 ?_⟩
    simpa [Endpoint.m_TcpSocket, Endpoint.withStatus, Shared.write] using is_open

theorem create_rests (resting : Resting Owned s) (pallocater : Option Obj)
    (hTcpSocket : Option Sock) :
    (initObject s.allocated pallocater hTcpSocket).Ensures step Counts
      { s with
        allocated := s.allocated + 1
        objects := Function.update s.objects s.allocated constructed
        counters := Function.update s.counters s.allocated fun _ => 0
        sockets := hTcpSocket.toList ++ s.sockets } .idle (fun _ s' _ => Resting Owned s') := by
  have fresh (object : Connecter) : Resting Owned { s with
      allocated := s.allocated + 1
      objects := Function.update s.objects s.allocated object
      counters := Function.update s.counters s.allocated fun _ => 0
      sockets := hTcpSocket.toList ++ s.sockets } := by
    refine ⟨⟨fun x inside owns => ?_, fun x inside => ?_, fun v inside => ?_, fun v inside => ?_,
      fun posted inside => ?_⟩, fun v serving => ?_⟩
    · have other : x.1 ≠ s.allocated := (resting.history.begunKnown x inside).ne
      exact resting.history.begun x inside (by simpa [other] using owns)
    · exact (resting.history.begunKnown x inside).trans (Nat.lt_succ_self _)
    · exact (resting.history.listKnown v inside).trans (Nat.lt_succ_self _)
    · exact (resting.history.servingKnown v inside).trans (Nat.lt_succ_self _)
    · exact (resting.history.pendingKnown posted inside).trans (Nat.lt_succ_self _)
    · have other : v ≠ s.allocated := (resting.history.servingKnown v serving).ne
      exact (resting.kept v serving).congr (by simp [other]) rfl rfl (by simp [other])
  simp only [initObject, Engine.set, perform, perform_bind, ensures_op, ensures_get]
  intro _ _ _ _
  simp only [Shared.perform, Function.update_idem, Function.update_self]
  split <;> exact fresh _

/-- Only a successful write is not tested. -/
def Allowed (s : Shared Connecter) : Entry → Prop
  | .complete posted _ false => Tested s posted
  | _ => True

instance (s : Shared Connecter) : (e : Entry) → Decidable (Allowed s e)
  | .complete posted _ false => inferInstanceAs (Decidable (Tested s posted))
  | .create _ _ | .start _ | .stop _ | .write _ | .complete _ _ true => .isTrue trivial

theorem enter_ensures (resting : Resting Owned s) {e : Entry} (allowed : Allowed s e)
    {p : ConnecterCall Unit} (entered : enter s e = some (s', l, p)) :
    p.Ensures step Counts s' l (fun _ s _ => Resting Owned s) := by
  cases e <;> simp only [enter] at entered <;> split at entered
  case create.isTrue => cases entered
  case create.isFalse pallocater hTcpSocket _ =>
    cases entered
    exact (create_rests resting _ _).seq fun _ _ _ resting => resting
  case start.isTrue w known =>
    cases entered
    exact (start_rests resting known).seq fun _ _ _ resting => resting
  case stop.isTrue w known =>
    cases entered
    exact (stop_rests resting known).seq fun _ _ _ resting => resting
  case write.isTrue w known =>
    cases entered
    exact (write_rests resting known).seq fun _ _ _ resting => resting
  case complete.isTrue posted bytenumber error member =>
    cases entered
    refine (consumeReq_ensures resting member fun suc => ?_).seq fun _ _ _ resting => resting
    subst suc
    exact allowed
  all_goals cases entered

theorem Initial.resting (first : Initial s) : Resting Owned s := by
  obtain ⟨serving, begun, -⟩ := first.history
  refine ⟨⟨?_, ?_, ?_, ?_, ?_⟩, ?_⟩ <;> simp [serving, begun, first.pending, first.m_WorkerList]

end TestIOCP.Engine.Connecter
