import TestIOCP.CompletionPort
import TestIOCP.Rtsp.CommandLine
import TestIOCP.Rtsp.Pieces

/-! When the way in which a stream is cut into chunks matters to the server. -/
namespace TestIOCP.Rtsp
open CString

/-- The most bytes that one read delivers. -/
def readSize : Nat := RECVBUFSIZE - 4

/-- A way in which a stream arrives. -/
structure Cutting (stream : List Byte) (chunks : List (Env × List Byte)) : Prop where
  whole : (chunks.map (·.2)).flatten = stream
  chunk_size : ∀ c ∈ chunks, c.2 ≠ [] ∧ c.2.length ≤ readSize

/-- What the chunks lead to. -/
structure Outcome where
  replies : List (Nat × List Byte × BitVec 16)
  m_RtspState : RTSPClientState
  m_nAnaPhase : Nat
  m_RtspReplyMessage : RTSPMessageHeader
  deriving DecidableEq

def outcome (r : RtspServer) (chunks : List (Env × List Byte)) : Outcome :=
  let (r, replies) := receive r chunks
  { replies := replies.map fun reply => (reply.code, reply.extracontent, reply.seq)
    m_RtspState := r.m_RtspState
    m_nAnaPhase := r.m_nAnaPhase
    m_RtspReplyMessage := r.m_RtspReplyMessage }

/-- A piece of a stream that an idle server accepts as a request line when it arrives
in one chunk: it ends with the only line end in it and fits in the line buffer. -/
structure RequestPiece (piece : List Byte) : Prop where
  request : ∃ method uri tail a b, piece = requestLine method uri tail ++ [a, b] ∧ LineEnd a b ∧
    Unbroken (requestLine method uri tail ++ [a]) ∧ Accepted .IDLE method uri ∧ 0 ∉ uri
  fits : piece.length ≤ LINEBUFSIZE + 1

section
variable {r : Session} (env : Env) (size : Nat)

/-- Without an accepted line nothing happens but that the last method is noted. -/
theorem process_each_quiet (v : Locals) {lines : List (List Byte × List Byte)}
    (idle : r.m_nAnaPhase = 0) (refused : ∀ line ∈ lines, ¬ AcceptedLine r.m_RtspState line.1) :
    ∃ methodcode, process_each env size r v lines = ({ r with methodcode }, []) := by
  induction lines generalizing r v with
  | nil => exact ⟨r.methodcode, rfl⟩
  | cons line lines ih =>
    obtain ⟨text, rest⟩ := line
    obtain ⟨methodcode, v', one⟩ := process_line_refused env v (size - rest.length) idle
      (refused _ List.mem_cons_self)
    obtain ⟨methodcode', others⟩ := ih (r := { r with methodcode }) v' idle
      fun line inside => refused line (List.mem_cons_of_mem _ inside)
    exact ⟨methodcode', by simp only [process_each, one, others, List.append_nil]⟩

end

/-- Without an accepted line in any chunk there is no answer. -/
theorem receive_quiet {r : Session} {chunks : List (Env × List Byte)} (idle : r.m_nAnaPhase = 0)
    (refused : ∀ c ∈ chunks, ∀ line ∈ ({} : Line).lines c.2, ¬ AcceptedLine r.m_RtspState line.1) :
    ∃ methodcode, r.receive chunks = ({ r with methodcode }, []) := by
  induction chunks generalizing r with
  | nil => exact ⟨r.methodcode, rfl⟩
  | cons chunk chunks ih =>
    obtain ⟨env, data⟩ := chunk
    obtain ⟨methodcode, here⟩ := process_each_quiet env data.length
      ⟨env.uri, env.method⟩ idle (refused _ List.mem_cons_self)
    obtain ⟨methodcode', others⟩ := ih (r := { r with methodcode }) idle
      fun c inside => refused c (List.mem_cons_of_mem _ inside)
    exact ⟨methodcode', by simp [Session.receive, Session.process, here, others]⟩

theorem receive_append (r : Session) (a b : List (Env × List Byte)) :
    r.receive (a ++ b) = (((r.receive a).1.receive b).1,
      (r.receive a).2 ++ ((r.receive a).1.receive b).2) := by
  induction a generalizing r with
  | nil => rfl
  | cons chunk a ih =>
    obtain ⟨env, data⟩ := chunk
    simp only [List.cons_append, Session.receive, ih, List.append_assoc]

/-- A byte alone is no line. -/
theorem lines_singleton (c : Byte) : ({} : Line).lines [c] = [] := by
  simp only [Line.lines]
  split
  · rename_i ends
    obtain ⟨a, last, -⟩ := (Reading.empty.step_ends_iff c).mp (by rw [ends])
    cases last
  · rfl

/-- A stream that arrives byte by byte. -/
def singly (env : Env) (stream : List Byte) : List (Env × List Byte) :=
  stream.map fun c => (env, [c])

theorem receive_singly (r : Session) (env : Env) (stream : List Byte) :
    r.receive (singly env stream) = (r, []) := by
  induction stream generalizing r with
  | nil => rfl
  | cons c stream ih =>
    simp only [singly] at ih
    simp [singly, Session.receive, Session.process, lines_singleton, process_each, ih]

theorem singly_size {env : Env} {stream : List Byte} {c : Env × List Byte}
    (inside : c ∈ singly env stream) : c.2 ≠ [] ∧ c.2.length ≤ readSize := by
  obtain ⟨b, -, rfl⟩ := List.mem_map.mp inside
  simp [readSize, RECVBUFSIZE]

theorem singly_whole (env : Env) (stream : List Byte) :
    ((singly env stream).map (·.2)).flatten = stream := by
  induction stream with
  | nil => rfl
  | cons c stream ih => simpa [singly] using ih

theorem cutting_singly (env : Env) (stream : List Byte) : Cutting stream (singly env stream) :=
  ⟨singly_whole env stream, fun _ inside => singly_size inside⟩

/-- The bytes of a request line are stored as they are, but for line feeds in the URI
or after the version. -/
theorem stored_eq {c d : Byte} (same : stored c = d) (distinct : d ≠ CR) : c = d := by
  simp only [stored] at same
  split at same
  · exact absurd same.symm distinct
  · exact same

theorem map_stored_eq {p q : List Byte} (same : p.map stored = q) (free : CR ∉ q) : p = q := by
  induction p generalizing q with
  | nil => simpa using same
  | cons c p ih =>
    subst same
    simp only [List.map_cons, List.mem_cons, not_or] at free ⊢
    rw [← stored_eq rfl (Ne.symm free.1), ← ih rfl free.2]

theorem mem_map_stored {c : Byte} (distinct : c ≠ CR) (other : c ≠ LF) {p : List Byte} :
    c ∈ p.map stored ↔ c ∈ p := by
  rw [List.mem_map]
  constructor
  · rintro ⟨d, inside, same⟩
    exact stored_eq same distinct ▸ inside
  · exact fun inside => ⟨c, inside, by simp [stored, other]⟩

theorem cstring_requestLine {method uri tail : List Byte} (method_free : 0 ∉ method)
    (uri_free : 0 ∉ uri) :
    cstring (requestLine method uri tail) = requestLine method uri (cstring tail) := by
  have space : (0 : Byte) ≠ ch ' ' := by decide
  have version : 0 ∉ bytes "RTSP/1.0" := by decide
  rw [requestLine, cstring_append method_free, ← List.singleton_append, cstring_append (by simpa),
    cstring_append uri_free, ← List.singleton_append (l := bytes "RTSP/1.0" ++ tail),
    cstring_append (by simpa), cstring_append version]
  rfl

theorem accepted_stored {method uri : List Byte} :
    Accepted .IDLE method (uri.map stored) ↔ Accepted .IDLE method uri := by
  have space : ch ' ' ∈ uri.map stored ↔ ch ' ' ∈ uri := mem_map_stored (by decide) (by decide)
  constructor
  · intro h
    exact ⟨h.method_word, h.method_fits, fun inside => h.uri_word (space.mpr inside),
      by simpa using h.uri_fits, h.method_allowed⟩
  · intro h
    exact ⟨h.method_word, h.method_fits, fun inside => h.uri_word (space.mp inside),
      by simpa using h.uri_fits, h.method_allowed⟩

/-- The stored line is accepted exactly when the piece it came from is a request line. -/
theorem acceptedLine_stored (content : List Byte) :
    AcceptedLine .IDLE (content.map stored) ↔ ∃ method uri tail,
      content = requestLine method uri tail ∧ Accepted .IDLE method uri ∧ 0 ∉ uri := by
  have nul {p : List Byte} : 0 ∈ p.map stored ↔ 0 ∈ p := mem_map_stored (by decide) (by decide)
  constructor
  · rintro ⟨method, uri, tail, text, accepted⟩
    have method_free : CR ∉ method := by
      rcases methodOf_idle accepted.method_allowed with ⟨rfl, -⟩ | ⟨rfl, -⟩ <;> decide
    have uri_free : 0 ∉ uri := by
      have := notMem_cstring (content.map stored)
      rw [text] at this
      exact fun inside => this (by simp [requestLine, inside])
    obtain ⟨rest, whole⟩ : requestLine method uri tail <+: content.map stored := by
      rw [← text]
      exact List.takeWhile_prefix _
    simp only [requestLine, List.append_assoc, List.cons_append] at whole
    obtain ⟨method', after, rfl, method_kept, left⟩ := List.map_eq_append_iff.mp whole.symm
    obtain ⟨c, after, rfl, space, left⟩ := List.map_eq_cons_iff.mp left
    obtain ⟨uri', after, rfl, uri_kept, left⟩ := List.map_eq_append_iff.mp left
    obtain ⟨d, after, rfl, space', left⟩ := List.map_eq_cons_iff.mp left
    obtain ⟨version, tail', rfl, version_kept, -⟩ := List.map_eq_append_iff.mp left
    obtain rfl := map_stored_eq method_kept method_free
    obtain rfl := map_stored_eq version_kept (by decide)
    obtain rfl := stored_eq space (by decide)
    obtain rfl := stored_eq space' (by decide)
    subst uri_kept
    exact ⟨method', uri', tail', rfl, accepted_stored.mp accepted, nul.not.mp uri_free⟩
  · rintro ⟨method, uri, tail, rfl, accepted, uri_free⟩
    have method_kept : method.map stored = method ∧ 0 ∉ method := by
      rcases methodOf_idle accepted.method_allowed with ⟨rfl, -⟩ | ⟨rfl, -⟩ <;> decide
    refine ⟨method, uri.map stored, cstring (tail.map stored), ?_, accepted_stored.mpr accepted⟩
    rw [← cstring_requestLine method_kept.2 (nul.not.mpr uri_free)]
    have version : (bytes "RTSP/1.0").map stored = bytes "RTSP/1.0" := by decide
    have space : stored (ch ' ') = ch ' ' := by decide
    simp only [requestLine, List.map_append, List.map_cons, method_kept.1, version, space]

/-- A line that an idle server accepts comes from a request line in the chunk. -/
theorem requestPiece_of_accepted {chunk : List Byte} {line rest : List Byte}
    (found : (line, rest) ∈ ({} : Line).lines chunk) (accepted : AcceptedLine .IDLE line) :
    ∃ piece, piece <:+: chunk ∧ RequestPiece piece := by
  obtain ⟨content, a, b, inside, lineEnd, unbroken, fits, rfl⟩ := Reading.empty.lines_piece found
  obtain ⟨method, uri, tail, rfl, request, free⟩ := (acceptedLine_stored content).mp accepted
  refine ⟨_, inside, ⟨method, uri, tail, a, b, rfl, lineEnd, unbroken, request, free⟩, ?_⟩
  simp only [List.length_append, List.length_cons, List.length_nil]
  omega

/-- A request line that arrives in one chunk starts a request. -/
theorem process_requestPiece {r : Session} (idle : r.m_nAnaPhase = 0)
    (state : r.m_RtspState = .IDLE)
    (env : Env) {piece : List Byte} (request : RequestPiece piece) :
    ∃ methodcode, r.process env piece =
      ({ r with methodcode, m_RtspReplyMessage := .zero, m_nAnaPhase := 1 }, []) := by
  obtain ⟨⟨method, uri, tail, a, b, rfl, lineEnd, unbroken, accepted, free⟩, fits⟩ := request
  have ran : ({} : Line).run (requestLine method uri tail ++ [a, b]) =
      some ((requestLine method uri tail).map stored, []) := by
    simp only [List.length_append, List.length_cons, List.length_nil] at fits
    have read : ({} : Line).run ((requestLine method uri tail ++ [a]) ++ b :: []) =
        some ((requestLine method uri tail).map stored, []) :=
      Reading.empty.run_piece rfl unbroken (by omega) lineEnd
    simpa using read
  obtain ⟨method', uri', tail', text, accepted'⟩ :=
    (acceptedLine_stored _).mpr ⟨method, uri, tail, rfl, accepted, free⟩
  obtain ⟨v', one⟩ := process_line_accepted env ⟨env.uri, env.method⟩
    ((requestLine method uri tail ++ [a, b]).length - ([] : List Byte).length) idle text
      (state ▸ accepted')
  refine ⟨methodOf method', ?_⟩
  rw [Session.process, Line.lines_some ran]
  simp only [process_each, Line.lines, one, List.append_nil]

/-- The outcome of a cutting without an accepted line. -/
theorem outcome_quiet {r : RtspServer} {chunks : List (Env × List Byte)} (idle : r.m_nAnaPhase = 0)
    (refused : ∀ c ∈ chunks, ∀ line ∈ ({} : Line).lines c.2, ¬ AcceptedLine r.m_RtspState line.1) :
    outcome r chunks = ⟨[], r.m_RtspState, 0, r.m_RtspReplyMessage⟩ := by
  obtain ⟨methodcode, same⟩ := receive_quiet (r := r.toSession) idle refused
  rw [← receive_spec, Prod.mk.injEq] at same
  simp [outcome, same, idle]

/-- The outcome is the same for every way of cutting a stream exactly when no piece of
it is a request line that an idle server accepts. -/
theorem outcome_eq_iff {r : RtspServer} (fresh : Fresh r) (stream : List Byte) :
    (∀ a b, Cutting stream a → Cutting stream b → outcome r a = outcome r b) ↔
      ∀ piece, piece <:+: stream → ¬ RequestPiece piece := by
  constructor
  · rintro same piece ⟨before, after, rfl⟩ request
    -- The piece in one chunk starts a request; the same bytes one by one do not.
    let env := Env.blank
    let together := singly env before ++ (env, piece) :: singly env after
    have cut_together : Cutting (before ++ piece ++ after) together := by
      refine ⟨?_, ?_⟩
      · simp [together, singly_whole]
      · intro c inside
        simp only [together, List.mem_append, List.mem_cons] at inside
        rcases inside with inside | rfl | inside
        · exact singly_size inside
        · have fits := request.fits
          obtain ⟨method, uri, tail, a, b, rfl, -⟩ := request.request
          exact ⟨by simp, le_trans fits (by decide)⟩
        · exact singly_size inside
    have silent := receive_singly r.toSession env (before ++ piece ++ after)
    obtain ⟨methodcode, started⟩ := process_requestPiece fresh.anaPhase fresh.rtspState env request
    have asks : r.toSession.receive together =
        ({ r.toSession with methodcode, m_RtspReplyMessage := .zero, m_nAnaPhase := 1 }, []) := by
      rw [receive_append, receive_singly]
      simp only [Session.receive, started, receive_singly, List.append_nil]
    have phases := congrArg Outcome.m_nAnaPhase (same _ _ cut_together (cutting_singly env _))
    rw [← receive_spec, Prod.mk.injEq] at silent asks
    simp only [outcome, silent.1, asks.1, fresh.anaPhase] at phases
    cases phases
  · intro none_ a b cutA cutB
    have refused {chunks : List (Env × List Byte)} (cut : Cutting stream chunks) :
        ∀ c ∈ chunks, ∀ line ∈ ({} : Line).lines c.2, ¬ AcceptedLine r.m_RtspState line.1 := by
      rintro c inside ⟨line, rest⟩ found accepted
      rw [fresh.rtspState] at accepted
      obtain ⟨piece, part, request⟩ := requestPiece_of_accepted found accepted
      refine none_ piece (part.trans ?_) request
      rw [← cut.whole]
      exact List.infix_of_mem_flatten (List.mem_map_of_mem inside)
    rw [outcome_quiet fresh.anaPhase (refused cutA), outcome_quiet fresh.anaPhase (refused cutB)]

/-- Two blank lines are too short to hold a request line. -/
theorem outcome_of_blank_lines :
    outcome blank [(.blank, bytes "\r\n\r\n")] =
      outcome blank [(.blank, bytes "\r"), (.blank, bytes "\n\r\n")] := by
  refine (outcome_eq_iff fresh_blank (bytes "\r\n\r\n")).mpr (fun piece inside request => ?_) _ _
    ⟨by decide, by decide⟩ ⟨by decide, by decide⟩
  obtain ⟨method, uri, tail, _, _, rfl, -⟩ := request.request
  have short := inside.length_le
  have version : (bytes "RTSP/1.0").length = 8 := by decide
  have stream : (bytes "\r\n\r\n").length = 4 := by decide
  simp only [requestLine, List.length_append, List.length_cons, List.length_nil, version,
    stream] at short
  omega

/-- One OPTIONS request is answered when it arrives whole, and not when it is cut
after the method. -/
theorem outcome_depends_on_cutting : ¬ ∀ r, Fresh r → ∀ stream a b, Cutting stream a →
    Cutting stream b → outcome r a = outcome r b := by
  intro same
  have replies := congrArg Outcome.replies
    (same blank fresh_blank (bytes "OPTIONS * RTSP/1.0\r\n\r\n")
    [(.blank, bytes "OPTIONS * RTSP/1.0\r\n\r\n")]
    [(.blank, bytes "OPTIONS"), (.blank, bytes " * RTSP/1.0\r\n\r\n")]
    ⟨by decide, by decide⟩ ⟨by decide, by decide⟩)
  revert replies
  decide +kernel

end TestIOCP.Rtsp
