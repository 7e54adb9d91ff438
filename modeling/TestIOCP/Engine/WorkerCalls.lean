import TestIOCP.Engine.Coverage
import TestIOCP.Engine.Worker

/-! What the calls of a listener and its workers keep of the sessions: every completion
but a successful write ends with a release test or with the next read. -/
namespace TestIOCP.Engine
open Transition Program

variable {s s' : Shared Worker} {l : Task} {w : Obj} {due : Int}

/-- A worker belongs to its listener. -/
abbrev Listed : Worker → Prop := fun _ => True

theorem stop_ensures (working : Working Listed s l w due) :
    (stop w).Ensures step Counts s l (fun _ s' l' =>
      (s'.objects w).m_TcpSocket = none ∧ Working Listed s' l' w due) := by
  refine (working.set_ensures fun _ => trivial).seq ?_
  rintro _ s l ⟨_, working⟩
  simp only [ensures_get]
  split
  · simp only [perform, perform_bind, ensures_op]
    refine fun _ _ => ((working.close _ _).set_ensures fun _ => trivial).seq ?_
    rintro _ s l ⟨rfl, working⟩
    exact ⟨by simp, working⟩
  · rename_i closed
    exact ⟨closed, working⟩

theorem uninitObject_ensures (working : Working Listed s l w due) :
    (uninitObject w).Ensures step Counts s l (fun _ s' l' =>
      (s'.objects w).m_TcpSocket = none ∧ Working Listed s' l' w due) :=
  (stop_ensures working).seq fun _ _ _ stopped => stopped

theorem releaseIfOver_ensures (working : Working Listed s l w 0)
    (awaits : w ∈ s.serving → (s.objects w).m_TcpSocket ≠ none → Awaits s w) :
    (releaseIfOver w).Ensures step Counts s l (fun _ s' _ => Resting Listed s') := by
  refine (isOver_ensures working awaits).seq fun over_ s l ended => ?_
  cases over_ with
  | false => exact ended
  | true =>
    have ending : Ending Listed s w := ended
    simp only [if_true, releaseObject, perform, perform_bind, call_bind, ensures_op]
    intro _ _ _ _
    exact ending.release.idle _ _ _

/-- Closing a session and the release test, as ConsumeReq does in its branches. -/
theorem close_ensures (working : Working Listed s l w 0) (ret : Int) :
    (do let _ ← uninitObject w; releaseIfOver w; return ret : WorkerCall Int).Ensures step Counts s
      l
      (fun _ s' _ => Resting Listed s') := by
  refine (uninitObject_ensures working).seq ?_
  rintro _ s l ⟨closed, working⟩
  exact (releaseIfOver_ensures working fun _ => absurd closed).seq fun _ s l resting => resting

theorem fail_ensures (working : Working Listed s l w (-1)) (ret : Int) :
    (do let _ ← uninitObject w; count w .m_nErrorNum; releaseIfOver w; return ret :
      WorkerCall Int).Ensures step Counts s l (fun _ s' _ => Resting Listed s') := by
  refine (uninitObject_ensures working).seq ?_
  rintro _ s l ⟨closed, working⟩
  refine (working.count_ensures .m_nErrorNum).seq ?_
  rintro _ s l ⟨objects, _, _, _, working⟩
  rw [← objects] at closed
  exact (releaseIfOver_ensures working fun _ => absurd closed).seq fun _ s l resting => resting

theorem writes_ensures (working : Working Listed s l w 0) (n : Nat) :
    (writes w n).Ensures step Counts s l (fun _ s' l' => Working Listed s' l' w 0) := by
  induction n generalizing s l with
  | zero => exact working
  | succ n ih =>
    exact (working.postCounted_ensures (fun _ _ => id) _ rfl).seq fun _ s l posted =>
      ih posted.2.2.1

theorem readedDataProcess_ensures (working : Working Listed s l w 0) (type : WorkerType) :
    (readedDataProcess type w).Ensures step Counts s l (fun _ s' l' =>
      Working Listed s' l' w 0) := by
  cases type with
  | CTcpWorker =>
    exact (working.postCounted_ensures (fun _ _ => id) _ rfl).mono fun _ _ _ posted => posted.2.2.1
  | CRtspServer =>
    simp only [readedDataProcess, perform, perform_bind, ensures_op]
    exact fun _ choice => (writes_ensures working _).seq fun _ s l working => working

/-- The end of ConsumeReq: the next read. -/
theorem readAgain_ensures (working : Working Listed s l w 0) :
    (do
      let res ← Engine.read w
      set w fun s => { s with res }
      if (← get w).res < 0 then
        let _ ← uninitObject w
        releaseIfOver w
      return 0 : WorkerCall Int).Ensures step Counts s l (fun _ s' _ => Resting Listed s') := by
  refine (working.postCounted_ensures (fun _ _ => id) _ rfl).seq ?_
  rintro res s l ⟨_, _, working, posted⟩
  refine (working.set_ensures fun _ => trivial).seq ?_
  rintro _ s l ⟨rfl, working⟩
  simp only [ensures_get, Function.update_self]
  split
  · exact close_ensures working 0
  · rename_i suc
    rcases posted with ⟨rfl, posts⟩ | rfl
    · exact working.resting_of_awaits (.inl (posts.congr rfl rfl))
    · exact absurd (by decide) suc

/-- A completion of a worker; a successful write is counted and not tested. -/
theorem consumeReq_ensures {type : WorkerType} {posted : Posted} {bytenumber : Nat} {error : Bool}
    (resting : Resting Listed s) (member : posted ∈ s.pending)
    (tested : error = false → Tested s posted) :
    (consumeReq type bytenumber error posted.req).Ensures step Counts
      { s with pending := s.pending.erase posted } (.working posted.req.m_pObserver true false)
      (fun _ s' _ => Resting Listed s') := by
  have working := resting.complete member
  simp only [consumeReq]
  cases error with
  | true =>
    exact (working.set_ensures fun _ => trivial).seq fun _ s l ⟨_, working⟩ =>
      fail_ensures working (-4)
  | false =>
    cases operate : posted.req.m_nOperateType
    case SOCKET_READ =>
      refine (working.count_ensures .m_nRecvedNum).seq ?_
      rintro _ s l ⟨_, _, _, _, working⟩
      split
      · exact close_ensures working (-1)
      · refine (readedDataProcess_ensures working type).seq fun res s l working => ?_
        refine (working.set_ensures fun _ => trivial).seq ?_
        rintro _ s l ⟨_, working⟩
        simp only [ensures_get]
        split
        · exact close_ensures working (-2)
        · exact readAgain_ensures working
    case SOCKET_WRITE =>
      exact (resting.write_ensures member operate (tested rfl)).seq fun _ s l resting => resting
    all_goals exact fail_ensures working (-3)

theorem takeWorker_ensures (resting : Resting Listed s) :
    takeWorker.Ensures step Counts s .idle (fun w s' l' =>
      Held Listed s' l' w [] ∧ w ∉ s'.serving) := by
  have fresh : s.allocated ∉ s.serving := fun serving =>
    absurd (resting.history.servingKnown _ serving) (lt_irrefl _)
  have held {w : Obj} {list : List Obj} {allocated : Nat} (unserved : w ∉ s.serving)
      (known : w < allocated) (grown : s.allocated ≤ allocated)
      (fewer : ∀ v ∈ list, v ∈ s.m_WorkerList) :
      Held Listed ({ s with m_WorkerList := list, allocated }.take w) (.holding w []) w [] :=
    have taken := resting.take unserved grown fewer
    ⟨taken.history, fun v serving _ => taken.kept v serving, known, rfl,
      fun _ inside => by cases inside⟩
  simp only [takeWorker, perform, perform_bind, ensures_op, Shared.perform]
  intro over_ _
  cases list : s.m_WorkerList with
  | nil =>
    exact (ensures_op _ _).mpr fun _ _ =>
      ⟨held fresh (Nat.lt_succ_self _) (Nat.le_succ _) fun _ => id, fresh⟩
  | cons w rest =>
    have unserved : w ∉ s.serving := over_ w (by simp [list])
    have known := resting.history.listKnown w (by simp [list])
    exact ⟨held unserved known le_rfl fun v => by rw [list]; exact List.mem_cons_of_mem w, unserved⟩

theorem start_ensures (held : Held Listed s l w []) (unserved : w ∉ s.serving) :
    (start w).Ensures step Counts s l (fun _ s' _ => Resting Listed s' ∧ w < s'.allocated) := by
  simp only [start, ensures_get]
  split
  · exact ⟨held.resting unserved, held.known⟩
  simp only [ensures_get, perform, perform_bind, ensures_op]
  intro _ choice
  obtain ⟨associated, same⟩ := associateDevice_frame s l choice (s.objects w).m_TcpSocket
  rw [same]
  replace held := held.associate associated
  split
  · exact ⟨held.resting unserved, held.known⟩
  refine (held.zero_ensures _).seq ?_
  rintro _ _ _ ⟨rfl, held⟩
  refine (held.zero_ensures _).seq ?_
  rintro _ _ _ ⟨rfl, held⟩
  refine (held.zero_ensures _).seq ?_
  rintro _ _ _ ⟨rfl, held⟩
  refine (held.zero_ensures _).seq ?_
  rintro _ s l ⟨rfl, held⟩
  have posting := held.posted (fun c => by cases c <;> simp) .SOCKET_READ
  refine (postCounted_ensures _ rfl posting).seq ?_
  rintro _ s l ⟨_, ⟨rfl, _, working, posts⟩ | ⟨rfl, rfl, rfl⟩⟩
  · refine (working.set_ensures fun _ => trivial).seq ?_
    rintro _ s l ⟨rfl, working⟩
    exact ⟨working.resting_of_awaits (.inl (posts.congr rfl rfl)), working.known⟩
  · exact ⟨(held.set (f := fun x => Endpoint.withStatus x .error) fun _ =>
        trivial).resting unserved,
      held.known⟩

theorem initObject_ensures (held : Held Listed s l w []) (unserved : w ∉ s.serving)
    (insock : Option Sock) :
    (initObject w insock).Ensures step Counts s l (fun _ s' l' =>
      Held Listed s' l' w [] ∧ w ∉ s'.serving) := by
  simp only [initObject]
  split
  · exact ⟨held, unserved⟩
  · simp only [set, perform, perform_bind, ensures_op]
    exact fun _ _ _ _ =>
      ⟨(held.set (f := fun s => { s with m_TcpSocket := insock }) fun _ => trivial).set
        (f := fun s => { s with m_nStatus := .stop }) fun _ => trivial, unserved⟩

theorem accepted_ensures (resting : Resting Listed s) (error : Bool) (m_Socket : Sock) :
    (accepted error m_Socket).Ensures step Counts s .idle (fun _ s' _ => Resting Listed s') := by
  simp only [accepted]
  cases error with
  | true => exact (ensures_op _ _).mpr fun _ _ => resting.idle _ _ _
  | false =>
    refine (takeWorker_ensures resting).seq ?_
    rintro w s l ⟨held, unserved⟩
    refine (initObject_ensures held unserved _).seq ?_
    rintro _ s l ⟨held, unserved⟩
    refine (start_ensures held unserved).seq ?_
    rintro res s l ⟨resting, known⟩
    split
    · exact (ensures_op _ _).mpr fun _ _ => resting.idle _ _ _
    · exact (ensures_op _ _).mpr fun _ _ => resting.push known

/-- Only a successful write is not tested. -/
def Allowed (s : Shared Worker) : Entry → Prop
  | .complete posted _ false => Tested s posted
  | _ => True

instance (s : Shared Worker) : (e : Entry) → Decidable (Allowed s e)
  | .complete posted _ false => inferInstanceAs (Decidable (Tested s posted))
  | .accept _ _ | .complete _ _ true => .isTrue trivial

theorem enter_ensures {type : WorkerType} (resting : Resting Listed s) {e : Entry}
    (allowed : Allowed s e) {p : WorkerCall Unit} (entered : enter type s e = some (s', l, p)) :
    p.Ensures step Counts s' l (fun _ s _ => Resting Listed s) := by
  cases e <;> simp only [enter] at entered <;> split at entered
  case accept.isFalse socket error _ =>
    cases entered
    exact (accepted_ensures (resting.idle _ _ _) _ _).seq fun _ _ _ resting => resting
  case complete.isTrue posted bytenumber error member =>
    cases entered
    refine (consumeReq_ensures resting member fun suc => ?_).seq fun _ _ _ resting => resting
    subst suc
    exact allowed
  all_goals cases entered

theorem Initial.resting (first : Initial s) : Resting Listed s := by
  obtain ⟨serving, begun, -⟩ := first.history
  refine ⟨⟨?_, ?_, ?_, ?_, ?_⟩, ?_⟩ <;> simp [serving, begun, first.pending, first.m_WorkerList]

end TestIOCP.Engine
