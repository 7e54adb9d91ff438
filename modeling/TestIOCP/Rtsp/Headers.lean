import TestIOCP.Commuting
import TestIOCP.Rtsp.Compositional
import TestIOCP.Rtsp.Sequence

/-! What the headers of a request say does not depend on their order, except for headers of
the same name. -/
namespace TestIOCP.Rtsp
open CString

/-- The headers that parse_nocommand_line makes something of. -/
inductive HeaderName where
  | Session
  | Content_Length
  | Transport
  | CSeq
  | Range
  | RealChallenge1
  | Server
  | Notice
  | Location
  | Content_Type
  deriving DecidableEq, Repr

/-- Their texts, in the order of the comparisons. -/
def headerNames : List (List Byte × HeaderName) :=
  [(bytes "Session:", .Session), (bytes "Content-Length:", .Content_Length),
    (bytes "Transport:", .Transport), (bytes "CSeq:", .CSeq), (bytes "Range:", .Range),
    (bytes "RealChallenge1:", .RealChallenge1), (bytes "Server:", .Server),
    (bytes "Notice:", .Notice), (bytes "X-Notice:", .Notice), (bytes "Location:", .Location),
    (bytes "Content-Type:", .Content_Type)]

/-- The first name that a line starts with, and what stands behind it. -/
def headerOf (buf : List Byte) : Option (HeaderName × List Byte) :=
  headerNames.findSome? fun (text, name) => (av_stristart buf text).map (name, ·)

/-- What a header changes in the record. -/
def act (env : Env) (lower_transport p : List Byte) (msg : RTSPMessageHeader) :
    HeaderName → RTSPMessageHeader
  | .Session =>
    let (word, p) := get_word_sep 512 (bytes ";") p
    { msg with
      session_id := msg.session_id.store word
      timeout := match av_stristart p (bytes ";timeout=") with
        | none => msg.timeout
        | some p => if (strtol p).value > 0 then (strtol p).value else msg.timeout }
  | .Content_Length => { msg with content_length := (strtol p).value }
  | .Transport =>
    let parsed := rtsp_parse_transport env { RTSPMessageHeader.zero with
      transports := msg.transports } lower_transport p
    { msg with transports := parsed.transports, nb_transports := parsed.nb_transports }
  | .CSeq => { msg with seq := (strtol p).value }
  | .Range =>
    let range := rtsp_parse_range_npt p (msg.range_start, msg.range_end)
    { msg with range_start := range.1, range_end := range.2 }
  | .RealChallenge1 =>
    { msg with real_challenge := av_strlcpy msg.real_challenge (skip SPACE_CHARS p) }
  | .Server => { msg with server := av_strlcpy msg.server (skip SPACE_CHARS p) }
  | .Notice => { msg with notice := (strtol p).value }
  | .Location => { msg with location := av_strlcpy msg.location (skip SPACE_CHARS p) }
  | .Content_Type => { msg with content_type := av_strlcpy msg.content_type (skip SPACE_CHARS p) }

/-- The transport parser only looks at the transports. -/
theorem parse_transports_only (env : Env) (room : Nat) {msg msg' : RTSPMessageHeader}
    (same : msg'.transports = msg.transports ∧ msg'.nb_transports = msg.nb_transports)
    (lower_transport p : List Byte) :
    parse_transports env room msg lower_transport p = { msg with
      transports := (parse_transports env room msg' lower_transport p).transports
      nb_transports := (parse_transports env room msg' lower_transport p).nb_transports } := by
  induction room generalizing msg msg' lower_transport p with
  | zero =>
    simp only [parse_transports, same.1, same.2]
  | succ room ih =>
    simp only [parse_transports]
    by_cases end_ : skip SPACE_CHARS p = []
    · simp only [if_pos end_, same.1, same.2]
    · simp only [if_neg end_, same.1, same.2]
      exact @ih { msg with transports := _, nb_transports := _ }
        { msg' with transports := _, nb_transports := _ } ⟨rfl, rfl⟩ _ _

theorem rtsp_parse_transport_act (env : Env) (msg : RTSPMessageHeader)
    (lower_transport p : List Byte) :
    rtsp_parse_transport env msg lower_transport p = act env lower_transport p msg .Transport := by
  simp only [rtsp_parse_transport, act]
  exact @parse_transports_only env RTSP_MAX_TRANSPORTS { msg with nb_transports := 0 }
    { RTSPMessageHeader.zero with transports := msg.transports, nb_transports := 0 }
    ⟨rfl, rfl⟩ lower_transport p

theorem parse_nocommand_line_act (env : Env) (msg : RTSPMessageHeader)
    (lower_transport buf : List Byte) :
    parse_nocommand_line env msg lower_transport buf = match headerOf buf with
      | none => msg
      | some (name, p) => act env lower_transport p msg name := by
  simp only [parse_nocommand_line, headerOf, headerNames, List.findSome?]
  cases av_stristart buf (bytes "Session:") with
  | some p =>
    simp only [Option.map_some, act]
    cases av_stristart (get_word_sep 512 (bytes ";") p).2 (bytes ";timeout=") with
    | none => rfl
    | some p =>
      simp only
      split <;> rfl
  | none =>
    simp only [Option.map_none]
    cases av_stristart buf (bytes "Content-Length:") with
    | some p => simp only [Option.map_some, act]
    | none =>
      simp only [Option.map_none]
      cases av_stristart buf (bytes "Transport:") with
      | some p => simp only [Option.map_some, rtsp_parse_transport_act]
      | none =>
        simp only [Option.map_none]
        cases av_stristart buf (bytes "CSeq:") with
        | some p => simp only [Option.map_some, act]
        | none =>
          simp only [Option.map_none]
          cases av_stristart buf (bytes "Range:") with
          | some p => simp only [Option.map_some, act]
          | none =>
            simp only [Option.map_none]
            cases av_stristart buf (bytes "RealChallenge1:") with
            | some p => simp only [Option.map_some, act]
            | none =>
              simp only [Option.map_none]
              cases av_stristart buf (bytes "Server:") with
              | some p => simp only [Option.map_some, act]
              | none =>
                simp only [Option.map_none]
                cases av_stristart buf (bytes "Notice:") with
                | some p => simp only [Option.map_some, act, Option.orElse_eq_orElse]; rfl
                | none =>
                  simp only [Option.map_none]
                  cases av_stristart buf (bytes "X-Notice:") with
                  | some p => simp only [Option.map_some, act]; rfl
                  | none =>
                    cases av_stristart buf (bytes "Location:") with
                    | some p => simp only [Option.map_some, act]; rfl
                    | none =>
                      cases av_stristart buf (bytes "Content-Type:") with
                      | some p => simp only [Option.map_some, act]; rfl
                      | none => rfl

/-- Headers of different names change different fields. -/
theorem act_comm (env : Env) {lower lower' p p' : List Byte} (msg : RTSPMessageHeader)
    {name name' : HeaderName} (differ : name ≠ name') :
    act env lower' p' (act env lower p msg name) name' =
      act env lower p (act env lower' p' msg name') name := by
  cases name <;> cases name' <;> first | rfl | exact absurd rfl differ

/-- The transport parser only looks at what the array for the lower transport held before if
the header begins with a protocol that it does not know. -/
def Spelled (p : List Byte) : Prop :=
  skip SPACE_CHARS p = [] ∨ (transportOf p).isSome = true

theorem transport_protocol_known (th : RTSPTransportField) {p : List Byte}
    (known : (transportOf p).isSome = true) (lower_transport lower_transport' : List Byte) :
    transport_protocol th lower_transport (skip SPACE_CHARS p) =
      transport_protocol th lower_transport' (skip SPACE_CHARS p) := by
  have word : (get_word_sep 16 (bytes "/") (skip SPACE_CHARS p)).1 = (protocolOf p).1 := rfl
  simp only [transport_protocol]
  refine ite_congr rfl (fun _ => rfl) fun rtp => ite_congr rfl (fun _ => rfl) fun rdt =>
    ite_congr rfl (fun _ => rfl) fun raw => ?_
  rw [word] at rtp rdt raw
  rw [transportOf, if_neg rtp, if_neg rdt, if_neg raw] at known
  cases known

theorem parse_transports_spelled (env : Env) (room : Nat) (msg : RTSPMessageHeader)
    {p : List Byte} (spelled : Spelled p) (lower_transport lower_transport' : List Byte) :
    parse_transports env room msg lower_transport p =
      parse_transports env room msg lower_transport' p := by
  cases room with
  | zero => rfl
  | succ room =>
    simp only [parse_transports]
    by_cases end_ : skip SPACE_CHARS p = []
    · simp only [if_pos end_]
    · have same := transport_protocol_known { msg.transports.getD msg.nb_transports .zero with
        mode_record := true } (spelled.resolve_left end_) lower_transport lower_transport'
      simp only [if_neg end_, same]

/-- The lines that do not depend on what was in the array. -/
def LineSpelled (buf : List Byte) : Prop :=
  ∀ p, headerOf buf = some (.Transport, p) → Spelled p

theorem parse_nocommand_line_spelled (env : Env) (msg : RTSPMessageHeader) {buf : List Byte}
    (spelled : LineSpelled buf) (lower_transport lower_transport' : List Byte) :
    parse_nocommand_line env msg lower_transport buf =
      parse_nocommand_line env msg lower_transport' buf := by
  rw [parse_nocommand_line_act, parse_nocommand_line_act]
  cases found : headerOf buf with
  | none => rfl
  | some header =>
    obtain ⟨name, p⟩ := header
    cases name with
    | Transport =>
      simp only [act, rtsp_parse_transport,
        parse_transports_spelled env _ _ (spelled p found) lower_transport lower_transport']
    | Session | Content_Length | CSeq | Range | RealChallenge1 | Server | Notice | Location
    | Content_Type => rfl

/-- The header record after some header lines. -/
def recorded (env : Env) (msg : RTSPMessageHeader) (headers : List (List Byte)) :
    RTSPMessageHeader :=
  headers.foldl (fun msg line => parse_nocommand_line env msg [] (cstring line)) msg

/-- The name of a line, if it is one that the server knows. -/
def nameOf (line : List Byte) : Option HeaderName :=
  (headerOf (cstring line)).map Prod.fst

/-- The same lines, in an order in which those of the same name are as they were. -/
structure Reordered (headers headers' : List (List Byte)) : Prop where
  lines : headers.Perm headers'
  named : ∀ name, headers.filter (nameOf · = some name) = headers'.filter (nameOf · = some name)

theorem recorded_reordered (env : Env) (msg : RTSPMessageHeader)
    {headers headers' : List (List Byte)} (reordered : Reordered headers headers') :
    recorded env msg headers = recorded env msg headers' := by
  refine Commuting.foldl_eq nameOf (fun msg line line' differ => ?_)
    (fun msg line nothing => ?_) reordered.named msg
  · simp only [parse_nocommand_line_act]
    rw [nameOf, nameOf] at differ
    cases found : headerOf (cstring line) with
    | none => rfl
    | some header =>
      cases found' : headerOf (cstring line') with
      | none => rfl
      | some header' =>
        rw [found, found'] at differ
        exact act_comm env msg fun same => differ (congrArg some same)
  · rw [parse_nocommand_line_act]
    rw [nameOf, Option.map_eq_none_iff] at nothing
    rw [nothing]

/-! ### In a chunk -/

/-- Lines of a chunk, from a position on, and where they end. -/
def readLines (env : Env) : Nat → Session → Locals → List (List Byte) →
    Session × Locals × List Reply
  | _, r, v, [] => (r, v, [])
  | readpos, r, v, line :: lines =>
    let readpos := readpos + (line.length + 2)
    let (r, v, replies) := process_line env r v readpos line.length (cstring line)
    let (r, v, others) := readLines env readpos r v lines
    (r, v, replies ++ others)

theorem linesText_cons_length (line : List Byte) (lines : List (List Byte)) :
    (linesText (line :: lines)).length = line.length + 2 + (linesText lines).length := by
  rw [linesText, List.map_cons, List.flatten_cons, List.length_append, List.length_append]
  rfl

theorem linesText_perm {lines lines' : List (List Byte)} (perm : lines.Perm lines') :
    (linesText lines).length = (linesText lines').length :=
  (perm.map _).flatten.length_eq

variable {env : Env} {r : Session} {v : Locals} {lines headers headers' : List (List Byte)}

theorem process_each_lines {size readpos : Nat} {more : List Byte}
    (place : size = readpos + (linesText lines ++ more).length)
    (tail : List (List Byte × List Byte)) :
    process_each env size r v (followed lines more ++ tail) =
      ((process_each env size (readLines env readpos r v lines).1
          (readLines env readpos r v lines).2.1 tail).1,
        (readLines env readpos r v lines).2.2 ++
          (process_each env size (readLines env readpos r v lines).1
            (readLines env readpos r v lines).2.1 tail).2) := by
  induction lines generalizing r v readpos with
  | nil => simp [followed, readLines]
  | cons line lines ih =>
    have step : size = readpos + (line.length + 2) + (linesText lines ++ more).length := by
      rw [place]
      rw [List.length_append, List.length_append, linesText_cons_length]
      omega
    have at_ : size - (linesText lines ++ more).length = readpos + (line.length + 2) := by omega
    rw [followed, List.cons_append, process_each, at_]
    simp only [ih step, readLines, List.append_assoc]

theorem readLines_append (readpos : Nat) (more : List (List Byte)) :
    readLines env readpos r v (lines ++ more) =
      let first := readLines env readpos r v lines
      let rest := readLines env (readpos + (linesText lines).length) first.1 first.2.1 more
      (rest.1, rest.2.1, first.2.2 ++ rest.2.2) := by
  induction lines generalizing r v readpos with
  | nil => simp [readLines, linesText]
  | cons line lines ih =>
    have place : readpos + (linesText (line :: lines)).length =
        readpos + (line.length + 2) + (linesText lines).length := by
      rw [linesText_cons_length]
      omega
    simp only [List.cons_append, readLines, ih, place, List.append_assoc]

variable (env) in
/-- In a request, header lines only go into the record. -/
theorem readLines_headers (busy : r.m_nAnaPhase = 1) (started : ∀ line ∈ headers, line ≠ [])
    (spelled : ∀ line ∈ headers, LineSpelled (cstring line)) (readpos : Nat) :
    readLines env readpos r v headers =
      ({ r with m_RtspReplyMessage := recorded env r.m_RtspReplyMessage headers }, v, []) := by
  induction headers generalizing r readpos with
  | nil => rfl
  | cons line headers ih =>
    obtain ⟨here, others⟩ := List.forall_mem_cons.mp started
    obtain ⟨here', others'⟩ := List.forall_mem_cons.mp spelled
    have same := parse_nocommand_line_spelled env r.m_RtspReplyMessage here'
      (env.lower_transport (readpos + (line.length + 2))) []
    have rest := @ih { r with
      m_RtspReplyMessage := parse_nocommand_line env r.m_RtspReplyMessage [] (cstring line) }
      busy others others' (readpos + (line.length + 2))
    simp only [readLines, process_line_header env v _ busy here, same, rest, List.append_nil,
      recorded, List.foldl_cons]

variable (env r) in
/-- A chunk of lines and something more, processed. -/
theorem process_linesText (plain : ∀ line ∈ lines, Plain line) (more : List Byte) :
    r.process env (linesText lines ++ more) =
      let read := readLines env 0 r ⟨env.uri, env.method⟩ lines
      let rest := process_each env (linesText lines ++ more).length read.1 read.2.1
        (({} : Line).lines more)
      (rest.1, read.2.2 ++ rest.2) := by
  rw [Session.process, lines_linesText plain more]
  exact process_each_lines (Nat.zero_add _).symm _

theorem Reordered.process (reordered : Reordered headers headers')
    (started : ∀ line ∈ headers, line ≠ [])
    (spelled : ∀ line ∈ headers, LineSpelled (cstring line))
    (plain : ∀ line ∈ lines ++ headers, Plain line)
    (busy : (r.process env (linesText lines)).1.m_nAnaPhase = 1) (more : List Byte) :
    r.process env (linesText (lines ++ headers) ++ more) =
      r.process env (linesText (lines ++ headers') ++ more) := by
  have perm := reordered.lines
  have plain' : ∀ line ∈ lines ++ headers', Plain line := fun line inside =>
    plain line ((perm.append_left lines).mem_iff.mpr inside)
  have size : (linesText (lines ++ headers) ++ more).length =
      (linesText (lines ++ headers') ++ more).length := by
    rw [List.length_append, List.length_append, linesText_perm (perm.append_left lines)]
  have busy' : (readLines env 0 r ⟨env.uri, env.method⟩ lines).1.m_nAnaPhase = 1 := by
    have read := process_linesText env r
      (fun line inside => plain line (List.mem_append_left headers inside)) []
    rw [List.append_nil] at read
    rw [read] at busy
    simpa [Line.lines, process_each] using busy
  have headed := readLines_headers env (v := (readLines env 0 r ⟨env.uri, env.method⟩
    lines).2.1) busy' started spelled (0 + (linesText lines).length)
  have headed' := readLines_headers env (v := (readLines env 0 r ⟨env.uri, env.method⟩
    lines).2.1) busy' (fun line inside => started line (perm.mem_iff.mpr inside))
      (fun line inside => spelled line (perm.mem_iff.mpr inside)) (0 + (linesText lines).length)
  rw [← recorded_reordered env _ reordered] at headed'
  rw [process_linesText env r plain, process_linesText env r plain']
  simp only [size, readLines_append, headed, headed']

/-- Inside of a request, header lines of different names may stand in any order: the
connection goes on in the same way, whatever comes before and after them. -/
theorem headers_reordered {r : RtspServer} {env : Env} {lines headers headers' : List (List Byte)}
    (reordered : Reordered headers headers') (started : ∀ line ∈ headers, line ≠ [])
    (spelled : ∀ line ∈ headers, LineSpelled (cstring line))
    (plain : ∀ line ∈ lines ++ headers, Plain line)
    (busy : (ReadedDataProcess env r (linesText lines)).1.m_nAnaPhase = 1) (more : List Byte)
    (chunks : List (Env × List Byte)) :
    let before := receive r ((env, linesText (lines ++ headers) ++ more) :: chunks)
    let after := receive r ((env, linesText (lines ++ headers') ++ more) :: chunks)
    before.2 = after.2 ∧ before.1.toSession = after.1.toSession := by
  have same : r.toSession.receive ((env, linesText (lines ++ headers) ++ more) :: chunks) =
      r.toSession.receive ((env, linesText (lines ++ headers') ++ more) :: chunks) := by
    have busy' : (r.toSession.process env (linesText lines)).1.m_nAnaPhase = 1 := by
      rw [← readedDataProcess_spec]
      exact busy
    simp only [Session.receive, reordered.process started spelled plain busy' more]
  rw [← receive_spec, ← receive_spec] at same
  exact ⟨(Prod.mk.inj same).2, (Prod.mk.inj same).1⟩

/-- Two numbers and a transport. -/
def numbered : List (List Byte) :=
  [bytes "CSeq: 7", bytes "Transport: RTP/AVP", bytes "CSeq: 8"]

def moved : List (List Byte) :=
  [bytes "Transport: RTP/AVP", bytes "CSeq: 7", bytes "CSeq: 8"]

def askOptions : List (List Byte) :=
  [bytes "OPTIONS * RTSP/1.0"]

theorem reordered_moved : Reordered numbered moved := by
  refine ⟨List.Perm.swap _ _ _, fun name => ?_⟩
  cases name <;> decide +kernel

theorem spelled_numbered : ∀ line ∈ numbered, LineSpelled (cstring line) := by
  have transport : ∀ line ∈ numbered, ∀ found ∈ headerOf (cstring line),
      found.1 = .Transport → (transportOf found.2).isSome = true := by decide +kernel
  exact fun line inside p found => .inr (transport line inside (.Transport, p) found rfl)

theorem plain_numbered : ∀ line ∈ askOptions ++ numbered, Plain line := by
  have plain : ∀ line ∈ askOptions ++ numbered,
      (CR ∉ line ∧ LF ∉ line) ∧ line.length ≤ LINEBUFSIZE - 1 := by decide +kernel
  exact fun line inside => ⟨(plain line inside).1, (plain line inside).2⟩

theorem headers_reordered_options :
    let before := receive blank [(.blank, linesText (askOptions ++ numbered) ++ CRLF)]
    let after := receive blank [(.blank, linesText (askOptions ++ moved) ++ CRLF)]
    before.2.map Reply.seq = [8] ∧ before.2 = after.2 ∧
      before.1.toSession = after.1.toSession :=
  ⟨by decide +kernel, headers_reordered reordered_moved (by decide +kernel) spelled_numbered
    plain_numbered (by decide +kernel) CRLF []⟩

end TestIOCP.Rtsp
