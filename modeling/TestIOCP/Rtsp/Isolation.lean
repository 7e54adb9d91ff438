import TestIOCP.Engine.Worker
import TestIOCP.Rtsp.Answer

/-! What a connection learns of the earlier ones that its CRtspServer object has served.
InitObject and Start set the fields of CTcpWorker only, so a request that an earlier
connection has left unfinished goes on in the next one. -/
namespace TestIOCP.Rtsp
open CString

/-- A CRtspServer object of the pool of workers. -/
structure Pooled where
  worker : Engine.Worker
  counters : Engine.Counter → Int
  server : RtspServer

/-- What a connection brings to its object: a socket, the chunks received, and what its
end leaves in the fields of CTcpWorker. -/
structure Connection where
  insock : Sock
  chunks : List (Env × List Byte)
  worker : Engine.Worker
  counters : Engine.Counter → Int

namespace Pooled

def InitObject (o : Pooled) (insock : Sock) : Pooled :=
  { o with worker := { o.worker with m_TcpSocket := some insock, m_nStatus := .stop } }

/-- Start, with the read that it posts. -/
def Start (o : Pooled) : Pooled :=
  { o with
    worker := { o.worker with m_nStatus := .run }
    counters
      | .m_nRecvNum => 1
      | .m_nRecvedNum | .m_nWriteNum | .m_nWritedNum => 0
      | .m_nErrorNum => o.counters .m_nErrorNum }

def serve (o : Pooled) (c : Connection) : Pooled × List Reply :=
  let o := (o.InitObject c.insock).Start
  let (server, replies) := receive o.server c.chunks
  (⟨c.worker, c.counters, server⟩, replies)

def history (o : Pooled) (connections : List Connection) : Pooled :=
  connections.foldl (fun o c => (o.serve c).1) o

/-- The replies sent on a connection, and the state and the phase after it. -/
def observed (o : Pooled) (c : Connection) : List Reply × RTSPClientState × Nat :=
  ((o.serve c).2, (o.serve c).1.server.m_RtspState, (o.serve c).1.server.m_nAnaPhase)

end Pooled

/-- The same chunks have the same effect, whatever the local arrays hold. -/
def Isolated (o₁ o₂ : Pooled) : Prop :=
  ∀ c₁ c₂ : Connection, c₁.chunks.map (·.2) = c₂.chunks.map (·.2) → o₁.observed c₁ = o₂.observed c₂

/-- Sessions that behave alike: they wait for a request, or go on with the same one. -/
structure Alike (r₁ r₂ : Session) : Prop where
  left : Idle r₁
  right : Idle r₂
  phase : r₁.m_nAnaPhase = r₂.m_nAnaPhase
  request : r₁.m_nAnaPhase = 1 →
    r₁.methodcode = r₂.methodcode ∧ r₁.m_RtspReplyMessage.seq = r₂.m_RtspReplyMessage.seq

namespace Alike
variable {r₁ r₂ : Session}

theorem of_waiting (left : Idle r₁) (right : Idle r₂) (waiting : r₁.m_nAnaPhase = 0)
    (waiting' : r₂.m_nAnaPhase = 0) : Alike r₁ r₂ :=
  ⟨left, right, waiting.trans waiting'.symm, fun busy => by rw [waiting] at busy; cases busy⟩

/-- One line keeps the sessions alike and is answered alike. -/
theorem process_line (alike : Alike r₁ r₂) (env₁ env₂ : Env) (v₁ v₂ : Locals) (readpos : Nat)
    (line : List Byte) :
    let after₁ := process_line env₁ r₁ v₁ readpos line.length (cstring line)
    let after₂ := process_line env₂ r₂ v₂ readpos line.length (cstring line)
    Alike after₁.1 after₂.1 ∧ after₁.2.2 = after₂.2.2 := by
  have left := alike.left.process_line env₁ v₁ readpos line
  have right := alike.right.process_line env₂ v₂ readpos line
  have state : r₂.m_RtspState = r₁.m_RtspState := alike.right.state.trans alike.left.state.symm
  rcases alike.left.phase with waiting | busy
  · have waiting' : r₂.m_nAnaPhase = 0 := alike.phase ▸ waiting
    by_cases accepted : AcceptedLine r₁.m_RtspState line
    · obtain ⟨method, uri, tail, text, accepted⟩ := accepted
      obtain ⟨_, same₁⟩ := process_line_accepted env₁ v₁ readpos waiting text accepted
      obtain ⟨_, same₂⟩ := process_line_accepted env₂ v₂ readpos waiting' text
        (state ▸ accepted)
      rw [same₁] at left ⊢
      rw [same₂] at right ⊢
      exact ⟨⟨left, right, rfl, fun _ => ⟨rfl, rfl⟩⟩, rfl⟩
    · obtain ⟨_, _, same₁⟩ := process_line_refused env₁ v₁ readpos waiting accepted
      obtain ⟨_, _, same₂⟩ := process_line_refused env₂ v₂ readpos waiting'
        (state ▸ accepted)
      rw [same₁] at left ⊢
      rw [same₂] at right ⊢
      exact ⟨of_waiting left right waiting waiting', rfl⟩
  · have busy' : r₂.m_nAnaPhase = 1 := alike.phase ▸ busy
    obtain ⟨methodcode, seq⟩ := alike.request busy
    by_cases blank : line = []
    · subst blank
      simp only [List.length_nil] at left right ⊢
      rw [process_line_blank _ _ readpos busy] at left ⊢
      rw [process_line_blank _ _ readpos busy'] at right ⊢
      rcases alike.left.asked busy with code | code
      all_goals
        have code' := methodcode.symm.trans code
        simp only [dispatch, code, code'] at left right ⊢
        refine ⟨of_waiting left right rfl rfl, ?_⟩
      · trivial
      · simp only [seq16, seq]
    · rw [process_line_header _ _ readpos busy blank] at left ⊢
      rw [process_line_header _ _ readpos busy' blank] at right ⊢
      refine ⟨⟨left, right, alike.phase, fun _ => ⟨methodcode, ?_⟩⟩, rfl⟩
      simp only [parse_nocommand_line_seq, seq]

theorem process_each (alike : Alike r₁ r₂) (env₁ env₂ : Env) (size : Nat) (v₁ v₂ : Locals)
    (lines : List (List Byte × List Byte)) :
    Alike (process_each env₁ size r₁ v₁ lines).1 (process_each env₂ size r₂ v₂ lines).1 ∧
      (process_each env₁ size r₁ v₁ lines).2 = (process_each env₂ size r₂ v₂ lines).2 := by
  induction lines generalizing r₁ r₂ v₁ v₂ with
  | nil => exact ⟨alike, rfl⟩
  | cons line lines ih =>
    obtain ⟨here, replies⟩ := alike.process_line env₁ env₂ v₁ v₂ (size - line.2.length) line.1
    obtain ⟨after, others⟩ := ih here _ _
    exact ⟨after, congrArg₂ (· ++ ·) replies others⟩

theorem receive (alike : Alike r₁ r₂) {chunks₁ chunks₂ : List (Env × List Byte)}
    (same : chunks₁.map (·.2) = chunks₂.map (·.2)) :
    Alike (r₁.receive chunks₁).1 (r₂.receive chunks₂).1 ∧
      (r₁.receive chunks₁).2 = (r₂.receive chunks₂).2 := by
  induction chunks₁ generalizing r₁ r₂ chunks₂ with
  | nil =>
    obtain rfl : chunks₂ = [] := List.map_eq_nil_iff.mp same.symm
    exact ⟨alike, rfl⟩
  | cons chunk₁ chunks₁ ih =>
    cases chunks₂ with
    | nil => cases same
    | cons chunk₂ chunks₂ =>
      obtain ⟨env₁, data⟩ := chunk₁
      obtain ⟨env₂, data'⟩ := chunk₂
      obtain ⟨rfl, rest⟩ := List.cons.inj same
      obtain ⟨here, replies⟩ := alike.process_each env₁ env₂ data.length ⟨env₁.uri, env₁.method⟩
        ⟨env₂.uri, env₂.method⟩ (({} : Line).lines data)
      obtain ⟨after, others⟩ := ih here rest
      exact ⟨after, congrArg₂ (· ++ ·) replies others⟩

/-- Sessions that are alike cannot be told apart. -/
theorem isolated {o₁ o₂ : Pooled} (alike : Alike o₁.server.toSession o₂.server.toSession) :
    Isolated o₁ o₂ := by
  intro c₁ c₂ same
  obtain ⟨after, replies⟩ := alike.receive same
  have left := receive_spec o₁.server c₁.chunks
  have right := receive_spec o₂.server c₂.chunks
  rw [← left, ← right] at after replies
  exact Prod.ext replies (Prod.ext (after.left.state.trans after.right.state.symm) after.phase)

end Alike

namespace Pooled

theorem receive_idle {r : RtspServer} (idle : Idle r.toSession) (chunks : List (Env × List Byte)) :
    Idle (receive r chunks).1.toSession := by
  have same := congrArg Prod.fst (receive_spec r chunks)
  simp only at same
  exact same ▸ idle.receive chunks

theorem history_idle {o : Pooled} (idle : Idle o.server.toSession) (connections : List Connection) :
    Idle (o.history connections).server.toSession := by
  induction connections generalizing o with
  | nil => exact idle
  | cons c connections ih => exact ih (receive_idle idle c.chunks)

end Pooled

/-- Two histories of connections, and a new object, are indistinguishable exactly when
neither history ends within a request. -/
theorem isolated_iff {a b : Pooled} (fresh_a : Fresh a.server) (fresh_b : Fresh b.server)
    (connections₁ connections₂ : List Connection) :
    (Isolated (a.history connections₁) (b.history connections₂) ∧
      ∀ f : Pooled, Fresh f.server →
        Isolated (a.history connections₁) f ∧ Isolated (b.history connections₂) f) ↔
    (a.history connections₁).server.m_nAnaPhase = 0 ∧
      (b.history connections₂).server.m_nAnaPhase = 0 := by
  have left := Pooled.history_idle (.of_fresh fresh_a) connections₁
  have right := Pooled.history_idle (.of_fresh fresh_b) connections₂
  constructor
  · rintro ⟨-, isolated⟩
    -- A connection without a chunk shows the phase that it finds.
    let silent : Connection := ⟨0, [], a.worker, a.counters⟩
    have found (o : Pooled) (alike : Isolated o a) : o.server.m_nAnaPhase = 0 := by
      have same := congrArg (·.2.2) (alike silent silent rfl)
      exact same.trans fresh_a.anaPhase
    exact ⟨found _ (isolated a fresh_a).1, found _ (isolated a fresh_a).2⟩
  · rintro ⟨waiting, waiting'⟩
    refine ⟨(Alike.of_waiting left right waiting waiting').isolated, fun f fresh => ⟨?_, ?_⟩⟩
    · exact (Alike.of_waiting left (.of_fresh fresh) waiting fresh.anaPhase).isolated
    · exact (Alike.of_waiting right (.of_fresh fresh) waiting' fresh.anaPhase).isolated

/-- A new object, and the chunks of a connection to it. -/
def pooled : Pooled := ⟨⟨none, .stop, 0⟩, fun _ => 0, blank⟩

def connection (chunks : List String) : Connection :=
  ⟨7, chunks.map fun chunk => (.blank, bytes chunk), ⟨none, .stop, 0⟩, fun _ => 0⟩

theorem isolated_after_complete_request :
    Isolated (pooled.history [connection ["OPTIONS * RTSP/1.0\r\n\r\n"]])
        (pooled.history [connection ["OPTIONS * RT", "SP/1.0\r\n"], connection []]) ∧
      ∀ f : Pooled, Fresh f.server →
        Isolated (pooled.history [connection ["OPTIONS * RTSP/1.0\r\n\r\n"]]) f ∧
        Isolated (pooled.history [connection ["OPTIONS * RT", "SP/1.0\r\n"], connection []]) f :=
  (isolated_iff fresh_blank fresh_blank _ _).mpr (by decide +kernel)

/-- A blank line on a new connection is answered when an earlier one has sent a request line. -/
theorem not_isolated_after_request_line :
    ¬ ∀ (a b : Pooled), Fresh a.server → Fresh b.server → ∀ connections₁ connections₂,
      Isolated (a.history connections₁) (b.history connections₂) ∧
        ∀ f : Pooled, Fresh f.server →
          Isolated (a.history connections₁) f ∧ Isolated (b.history connections₂) f := by
  intro isolated
  have alike := (isolated pooled pooled fresh_blank fresh_blank
    [connection ["OPTIONS * RTSP/1.0\r\n"]] []).1 (connection ["\r\n"]) (connection ["\r\n"]) rfl
  have answered : ((pooled.history [connection ["OPTIONS * RTSP/1.0\r\n"]]).observed
      (connection ["\r\n"])).1.length = 1 := by
    decide +kernel
  have silent : ((pooled.history []).observed (connection ["\r\n"])).1.length = 0 := by
    decide +kernel
  rw [alike, silent] at answered
  cases answered

end TestIOCP.Rtsp
