import TestIOCP.Rtsp.Carried

/-! Several OPTIONS requests in one chunk, and the rtsp_send_reply calls that they lead to. -/
namespace TestIOCP.Rtsp
open CString

/-- The arguments of an rtsp_send_reply call, before seq is converted to 16 bits. -/
structure ReplyCall where
  code : Nat
  extracontent : List Byte
  seq : Int
  deriving DecidableEq, Repr

def ReplyCall.send (call : ReplyCall) : List Reply :=
  (rtsp_send_reply call.code call.extracontent (BitVec.ofInt 16 call.seq)).toList

/-- The call of rtsp_setup_reply. -/
def setupCalls (r : Session) (host : List Byte) : List ReplyCall :=
  let msg := r.m_RtspReplyMessage
  if msg.nb_transports = 0 then []
  else if (msg.transports.take msg.nb_transports).any fun th =>
      !th.mode_record || (th.lower_transport ≠ .UDP && th.lower_transport ≠ .TCP) then []
  else
    let session_id := if r.session_id.string.length < 8 then
        r.session_id.store (av_strlcat r.session_id.string
          (unsignedText 123456789) SESSIONID_LENGTH)
      else r.session_id
    [⟨RTSP_STATUS_OK, av_strlcat (transport_line host (msg.transports.getD 0 .zero))
      (session_line session_id.string) 1024, msg.seq⟩]

/-- The call of the other two handlers. -/
def sessionCall (r : Session) : ReplyCall :=
  ⟨RTSP_STATUS_OK, av_strlcat [] (session_line r.session_id.string) 1024, r.m_RtspReplyMessage.seq⟩

/-- The calls of the switch on the method. -/
def dispatchCalls (r : Session) (uri : List Byte) : List ReplyCall :=
  match r.methodcode with
  | .OPTIONS => [⟨RTSP_STATUS_OK, public_line, r.m_RtspReplyMessage.seq⟩]
  | .SETUP => setupCalls r uri
  | .PLAY | .TEARDOWN => [sessionCall r]
  | .DESCRIBE | .ANNOUNCE | .PAUSE | .GET_PARAMETER | .SET_PARAMETER | .REDIRECT | .RECORD
  | .UNKNOWN => []

theorem dispatch_calls (r : Session) (uri : List Byte) :
    (dispatch r uri).2 = (dispatchCalls r uri).flatMap ReplyCall.send := by
  cases code : r.methodcode with
  | SETUP =>
    simp only [dispatch, dispatchCalls, code, rtsp_setup_reply, setupCalls]
    split
    · rfl
    · split
      · rfl
      · simp [ReplyCall.send, seq16]
  | OPTIONS => simp [dispatch, dispatchCalls, code, ReplyCall.send, seq16]
  | PLAY =>
    simp [dispatch, dispatchCalls, code, rtsp_play_reply, sessionCall, ReplyCall.send, seq16]
  | TEARDOWN =>
    simp [dispatch, dispatchCalls, code, rtsp_teardown_reply, sessionCall, ReplyCall.send, seq16]
  | DESCRIBE | ANNOUNCE | PAUSE | GET_PARAMETER | SET_PARAMETER | REDIRECT | RECORD | UNKNOWN =>
    simp [dispatch, dispatchCalls, code]

/-- The calls for a line of linesize bytes. -/
def lineCalls (r : Session) (v : Locals) (linesize : Nat) : List ReplyCall :=
  if linesize > 0 then []
  else if r.m_nAnaPhase = 1 then dispatchCalls { r with m_nAnaPhase := 0 } v.uri.string
  else []

theorem process_line_calls (env : Env) (r : Session) (v : Locals) (readpos linesize : Nat)
    (m_LineBuf : List Byte) :
    (process_line env r v readpos linesize m_LineBuf).2.2 =
      (lineCalls r v linesize).flatMap ReplyCall.send := by
  simp only [process_line, lineCalls]
  split
  · split
    · split <;> rfl
    · rfl
  · split
    · exact dispatch_calls _ _
    · rfl

/-- The calls that the loop of ReadedDataProcess makes. -/
def process_lines_calls (env : Env) (pdatabuf : List Byte) : Nat → RtspServer → Locals → Nat →
    List ReplyCall
  | 0, _, _, _ => []
  | fuel + 1, r, v, readpos =>
    let line := read_line r pdatabuf readpos
    let r := line.server
    if line.ret < 0 then []
    else
      let calls := lineCalls r.toSession v line.linelen
      let (session, v, _) :=
        process_line env r.toSession v line.readpos line.linelen r.m_LineBuf.string
      let r := { r with toSession := session }
      if line.readpos = pdatabuf.length then calls
      else calls ++ process_lines_calls env pdatabuf fuel r v line.readpos

/-- The rtsp_send_reply calls of ReadedDataProcess. -/
def ReadedDataProcessCalls (env : Env) (r : RtspServer) (chunk : List Byte) : List ReplyCall :=
  process_lines_calls env chunk (chunk.length + 1) r ⟨env.uri, env.method⟩ 0

/-- What the loop sends are the replies of its calls. -/
theorem process_lines_send (env : Env) (data : List Byte) (fuel : Nat) (r : RtspServer)
    (v : Locals) (readpos : Nat) : (process_lines env data fuel r v readpos).2 =
      (process_lines_calls env data fuel r v readpos).flatMap ReplyCall.send := by
  induction fuel generalizing r v readpos with
  | zero => rfl
  | succ fuel ih =>
    simp only [process_lines, process_lines_calls]
    split
    · rfl
    · split
      · exact process_line_calls _ _ _ _ _ _
      · rw [List.flatMap_append, ← process_line_calls, ← ih]

/-- They send what ReadedDataProcess writes. -/
theorem readedDataProcess_calls (env : Env) (r : RtspServer) (chunk : List Byte) :
    (ReadedDataProcess env r chunk).2 =
      (ReadedDataProcessCalls env r chunk).flatMap ReplyCall.send :=
  process_lines_send env chunk _ r _ 0

/-- The calls for the complete lines of a chunk, with the session after them. -/
def eachCalls (env : Env) (size : Nat) (r : Session) (v : Locals) :
    List (List Byte × List Byte) → Session × List ReplyCall
  | [] => (r, [])
  | (line, rest) :: more =>
    let calls := lineCalls r v line.length
    let (r, v, _) := process_line env r v (size - rest.length) line.length (cstring line)
    let (r, others) := eachCalls env size r v more
    (r, calls ++ others)

theorem process_lines_calls_spec (env : Env) (data : List Byte) (fuel : Nat) (r : RtspServer)
    (v : Locals) (readpos : Nat) (enough : data.length < readpos + fuel) :
    ((process_lines env data fuel r v readpos).1.toSession,
      process_lines_calls env data fuel r v readpos) =
      eachCalls env data.length r.toSession v (({} : Line).lines (data.drop readpos)) := by
  induction fuel generalizing r v readpos with
  | zero =>
    rw [List.drop_of_length_le (by omega)]
    rfl
  | succ fuel ih =>
    simp only [process_lines, process_lines_calls]
    cases ran : ({} : Line).run (data.drop readpos) with
    | none =>
      obtain ⟨session, found⟩ := read_line_spec r data readpos
      rw [ran] at found
      simp [found, session, Line.lines_none ran, eachCalls]
    | some answer =>
      obtain ⟨text, rest⟩ := answer
      have reads := read_line_reads r ran
      have shorter := reads.shorter
      rw [Line.lines_some ran]
      simp only [eachCalls, reads.ret, reads.session, reads.linelen, reads.string,
        reads.position]
      obtain ⟨session', v', replies⟩ :=
        process_line env r.toSession v (data.length - rest.length) text.length (cstring text)
      simp only [Int.lt_irrefl, if_false]
      split
      · rename_i ends
        obtain rfl : rest = [] := List.length_eq_zero_iff.mp (by omega)
        simp [Line.lines, eachCalls]
      · have more := ih { (read_line r data readpos).server with toSession := session' } v'
          (data.length - rest.length) (by omega)
        rw [reads.left] at more
        simp only [← more]

theorem readedDataProcess_each (env : Env) (r : RtspServer) (chunk : List Byte) :
    ((ReadedDataProcess env r chunk).1.toSession, ReadedDataProcessCalls env r chunk) =
      eachCalls env chunk.length r.toSession ⟨env.uri, env.method⟩ (({} : Line).lines chunk) := by
  simpa [ReadedDataProcess, ReadedDataProcessCalls] using
    process_lines_calls_spec env chunk (chunk.length + 1) r ⟨env.uri, env.method⟩ 0 (by omega)

/-- Lines that take a session of one kind to another and make some calls. -/
def Calls (lines : List (List Byte)) (P Q : Session → Prop) (calls : List ReplyCall) : Prop :=
  ∀ env size r v ps, ps.map Prod.fst = lines → P r → ∃ r' v', Q r' ∧ ∀ more,
    eachCalls env size r v (ps ++ more) =
      ((eachCalls env size r' v' more).1, calls ++ (eachCalls env size r' v' more).2)

namespace Calls
variable {P Q R : Session → Prop}

theorem nil (P : Session → Prop) : Calls [] P P [] := by
  intro env size r v ps none_ holds
  obtain rfl := List.map_eq_nil_iff.mp none_
  exact ⟨r, v, holds, fun more => rfl⟩

theorem append {a b : List (List Byte)} {calls calls' : List ReplyCall} (first : Calls a P Q calls)
    (second : Calls b Q R calls') : Calls (a ++ b) P R (calls ++ calls') := by
  intro env size r v ps same holds
  obtain ⟨ps₁, ps₂, rfl, left, right⟩ := List.map_eq_append_iff.mp same
  obtain ⟨r₁, v₁, holds₁, same₁⟩ := first env size r v ps₁ left holds
  obtain ⟨r₂, v₂, holds₂, same₂⟩ := second env size r₁ v₁ ps₂ right holds₁
  refine ⟨r₂, v₂, holds₂, fun more => ?_⟩
  rw [List.append_assoc, same₁, same₂, List.append_assoc]

theorem single {line : List Byte} {calls : List ReplyCall}
    (one : ∀ env r v readpos, P r → lineCalls r v line.length = calls ∧
      Q (process_line env r v readpos line.length (cstring line)).1) : Calls [line] P Q calls := by
  intro env size r v ps same holds
  obtain ⟨⟨line', rest⟩, ps', rfl, rfl, none_⟩ := List.map_eq_cons_iff.mp same
  obtain rfl := List.map_eq_nil_iff.mp none_
  obtain ⟨here, after⟩ := one env r v (size - rest.length) holds
  refine ⟨_, (process_line env r v (size - rest.length) line'.length (cstring line')).2.1,
    after, fun more => ?_⟩
  rw [List.singleton_append, eachCalls, here]

end Calls

/-- A session between requests. -/
structure Between (state : RTSPClientState) (r : Session) : Prop where
  waiting : r.m_nAnaPhase = 0
  state : r.m_RtspState = state

/-- A session in an OPTIONS request. -/
structure Optioned (state : RTSPClientState) (seq : Int) (r : Session) : Prop where
  busy : r.m_nAnaPhase = 1
  state : r.m_RtspState = state
  code : r.methodcode = .OPTIONS
  seq : r.m_RtspReplyMessage.seq = seq

/-- The call that answers an OPTIONS request. -/
def optionsCall (seq : Int) : ReplyCall :=
  ⟨RTSP_STATUS_OK, public_line, seq⟩

/-- An OPTIONS request whose lines fit in the arrays of the server. -/
structure Request.Options (q : Request) : Prop where
  method : q.method = bytes "OPTIONS"
  uri : ∀ c ∈ [ch ' ', 0, CR, LF], c ∉ q.uri
  uri_fits : q.uri.length ≤ 499
  started : ∀ line ∈ q.headers, line ≠ []
  headers : ∀ line ∈ q.headers, Plain line

def Request.lines (q : Request) : List (List Byte) :=
  requestLine q.method q.uri [] :: (q.headers ++ [[]])

theorem Request.text_lines (q : Request) : q.text = linesText q.lines := by
  simp [Request.text, linesText, Request.lines]

namespace Request.Options
variable {q : Request} {state : RTSPClientState}

theorem notMem (options : q.Options) {c : Byte} (special : c ∈ [0, CR, LF]) :
    c ∉ requestLine q.method q.uri [] := by
  have inUri := options.uri c (List.mem_cons_of_mem _ special)
  have other : c ∉ bytes "OPTIONS" ∧ c ≠ ch ' ' ∧ c ∉ bytes "RTSP/1.0" :=
    (by decide : ∀ c ∈ [0, CR, LF], c ∉ bytes "OPTIONS" ∧ c ≠ ch ' ' ∧
      c ∉ bytes "RTSP/1.0") c special
  rw [options.method]
  simp [requestLine, inUri, other]

theorem plain (options : q.Options) : ∀ line ∈ q.lines, Plain line := by
  have fits := options.uri_fits
  have method : (bytes "OPTIONS").length = 7 := by decide
  have version : (bytes "RTSP/1.0").length = 8 := by decide
  intro line inside
  rcases List.mem_cons.mp inside with rfl | inside
  · constructor
    · exact ⟨options.notMem (by simp), options.notMem (by simp)⟩
    · rw [options.method]
      simp only [requestLine, LINEBUFSIZE, List.length_append, List.length_cons, List.length_nil,
        method, version]
      omega
  · rcases List.mem_append.mp inside with header | blank
    · exact options.headers line header
    · obtain rfl := List.mem_singleton.mp blank
      exact ⟨by simp, by simp⟩

theorem accepted (options : q.Options) (allowed_ : allowed state .OPTIONS = true) :
    Accepted state q.method q.uri := by
  have method := options.method
  constructor
  · rw [method]
    decide
  · rw [method]
    decide
  · exact options.uri _ List.mem_cons_self
  · exact options.uri_fits
  · rw [method]
    exact allowed_

end Request.Options

/-- The request line starts the request. -/
theorem calls_requestLine {q : Request} (options : q.Options) {state : RTSPClientState}
    (allowed_ : allowed state .OPTIONS = true) :
    Calls [requestLine q.method q.uri []] (Between state) (Optioned state 0) [] := by
  apply Calls.single
  intro env r v readpos between
  have text := cstring_of_notMem (options.notMem (List.mem_cons_self (a := (0 : Byte))))
  have accepted := options.accepted (between.state ▸ allowed_)
  obtain ⟨v', one⟩ := process_line_accepted env v readpos between.waiting text accepted
  have code : methodOf q.method = .OPTIONS := by
    rw [options.method]
    decide
  constructor
  · simp [lineCalls, requestLine]
  · rw [one]
    exact ⟨rfl, between.state, code, rfl⟩

/-- A header can only change the sequence number. -/
theorem calls_header {line : List Byte} (started : line ≠ [])
    (state : RTSPClientState) (seq : Int) :
    Calls [line] (Optioned state seq) (Optioned state (seqAfter seq (cstring line))) [] := by
  apply Calls.single
  intro env r v readpos asked
  constructor
  · simp [lineCalls, started]
  · rw [process_line_header env v readpos asked.busy started]
    refine ⟨asked.busy, asked.state, asked.code, ?_⟩
    rw [parse_nocommand_line_seq, asked.seq]

theorem calls_headers {headers : List (List Byte)} (started : ∀ line ∈ headers, line ≠ [])
    (state : RTSPClientState) (seq : Int) :
    Calls headers (Optioned state seq) (Optioned state (seqOf seq headers)) [] := by
  induction headers generalizing seq with
  | nil => exact Calls.nil _
  | cons line headers ih =>
    obtain ⟨here, others⟩ := List.forall_mem_cons.mp started
    exact (calls_header here state seq).append (ih others (seqAfter seq (cstring line)))

/-- The blank line makes the call. -/
theorem calls_blank (state : RTSPClientState) (seq : Int) :
    Calls [[]] (Optioned state seq) (Between state) [optionsCall seq] := by
  apply Calls.single
  intro env r v readpos asked
  have calls : dispatchCalls { r with m_nAnaPhase := 0 } v.uri.string = [optionsCall seq] := by
    simp only [dispatchCalls, asked.code, asked.seq, optionsCall]
  constructor
  · rw [List.length_nil, lineCalls, if_neg (Nat.lt_irrefl 0), if_pos asked.busy, calls]
  · rw [List.length_nil, process_line_blank env v readpos asked.busy]
    simp only [dispatch, asked.code]
    exact ⟨rfl, asked.state⟩

theorem calls_request {q : Request} (options : q.Options) {state : RTSPClientState}
    (allowed_ : allowed state .OPTIONS = true) :
    Calls q.lines (Between state) (Between state) [optionsCall (seqOf 0 q.headers)] := by
  have start := calls_requestLine options allowed_
  have headers := calls_headers options.started state 0
  exact start.append (headers.append (calls_blank state _))

theorem calls_requests {qs : List Request} (options : ∀ q ∈ qs, q.Options) {state : RTSPClientState}
    (allowed_ : allowed state .OPTIONS = true) :
    Calls (qs.flatMap Request.lines) (Between state) (Between state)
      (qs.map fun q => optionsCall (seqOf 0 q.headers)) := by
  induction qs with
  | nil => exact Calls.nil _
  | cons q qs ih =>
    obtain ⟨here, others⟩ := List.forall_mem_cons.mp options
    exact (calls_request here allowed_).append (ih others)

/-- What follows CSeq: in a header line. -/
def cseqText (line : List Byte) : Option (List Byte) :=
  av_stristart (cstring line) (bytes "CSeq:")

/-- The number in the last CSeq header, or zero. -/
def cseq (headers : List (List Byte)) : Int :=
  match (headers.filterMap cseqText).getLast? with
  | some p => (strtol p).value
  | none => 0

theorem av_stristart_starts {str pfx rest : List Byte} (starts : av_stristart str pfx = some rest) :
    pfx.map av_toupper <+: str.map av_toupper := by
  fun_induction av_stristart str pfx with
  | case1 str => exact List.nil_prefix
  | case2 c str d pfx same ih =>
    rw [List.map_cons, List.map_cons, same]
    exact (List.prefix_cons_inj _).mpr (ih starts)
  | case3 | case4 => cases starts

/-- A line starts with one of two names at most, when neither starts with the other. -/
theorem av_stristart_apart {str pfx rest : List Byte} (starts : av_stristart str pfx = some rest)
    (pfx' : List Byte) (apart : ¬ pfx'.map av_toupper <+: pfx.map av_toupper ∧
      ¬ pfx.map av_toupper <+: pfx'.map av_toupper) :
    av_stristart str pfx' = none := by
  cases found : av_stristart str pfx' with
  | none => rfl
  | some rest' =>
    rcases List.prefix_or_prefix_of_prefix (av_stristart_starts starts)
      (av_stristart_starts found) with h | h
    · exact absurd h apart.2
    · exact absurd h apart.1

/-- No header that is read before CSeq starts like it. -/
theorem seqAfter_cseqText (seq : Int) (line : List Byte) :
    seqAfter seq (cstring line) = match cseqText line with
      | some p => (strtol p).value
      | none => seq := by
  simp only [seqAfter, cseqText]
  cases found : av_stristart (cstring line) (bytes "CSeq:") with
  | none => simp
  | some p =>
    have session := av_stristart_apart found (bytes "Session:") (by decide)
    have length := av_stristart_apart found (bytes "Content-Length:") (by decide)
    have transport := av_stristart_apart found (bytes "Transport:") (by decide)
    simp [session, length, transport]

theorem seqOf_cseq (seq : Int) (headers : List (List Byte)) :
    seqOf seq headers = match (headers.filterMap cseqText).getLast? with
      | some p => (strtol p).value
      | none => seq := by
  induction headers generalizing seq with
  | nil => rfl
  | cons line headers ih =>
    rw [seqOf, List.foldl_cons, ← seqOf, ih, seqAfter_cseqText, List.filterMap_cons]
    cases cseqText line with
    | none => rfl
    | some p =>
      rw [List.getLast?_cons]
      cases (headers.filterMap cseqText).getLast? <;> rfl

/-- The state allows OPTIONS. -/
theorem allowed_options {state : RTSPClientState}
    (ready : state = .IDLE ∨ state = .PAUSED ∨ state = .STREAMING) :
      allowed state .OPTIONS = true := by
  rcases ready with rfl | rfl | rfl <;> rfl

theorem texts_lines (qs : List Request) :
    (qs.map Request.text).flatten = linesText (qs.flatMap Request.lines) := by
  induction qs with
  | nil => rfl
  | cons q qs ih =>
    rw [List.map_cons, List.flatten_cons, ih, Request.text_lines]
    simp only [linesText, List.flatMap_cons, List.map_append, List.flatten_append]

theorem requests_started {qs : List Request} (some_ : qs ≠ []) : qs.flatMap Request.lines ≠ [] := by
  cases qs with
  | nil => exact absurd rfl some_
  | cons q qs => simp [Request.lines]

/-- Every OPTIONS call sends one reply. -/
theorem send_optionsCalls (seqs : List Int) :
    ((seqs.map optionsCall).flatMap ReplyCall.send).length = seqs.length := by
  induction seqs with
  | nil => rfl
  | cons seq seqs ih =>
    have one : (optionsCall seq).send.length = 1 := rfl
    rw [List.map_cons, List.flatMap_cons, List.length_append, ih, one, List.length_cons,
      Nat.add_comm]

/-- Requests that arrive together are answered one by one, each with its own number. -/
theorem pipelined_answered (env : Env) (r : RtspServer) (waiting : r.m_nAnaPhase = 0)
    (nothing : r.m_nTempDataSize = 0)
    (ready : r.m_RtspState = .IDLE ∨ r.m_RtspState = .PAUSED ∨ r.m_RtspState = .STREAMING)
    (qs : List Request) (some_ : qs ≠ []) (options : ∀ q ∈ qs, q.Options) :
    let chunk := (qs.map Request.text).flatten
    let after := (ReadedDataProcess env r chunk).1
    let calls := qs.map fun q => ⟨RTSP_STATUS_OK, public_line, cseq q.headers⟩
    ReadedDataProcessCalls env r chunk = calls ∧
      (ReadedDataProcess env r chunk).2 = calls.flatMap ReplyCall.send ∧
      (ReadedDataProcess env r chunk).2.length = qs.length ∧
      after.m_RtspState = r.m_RtspState ∧ after.m_nAnaPhase = 0 ∧ after.m_nTempDataSize = 0 := by
  intro chunk after calls
  have whole : chunk = linesText (qs.flatMap Request.lines) := texts_lines qs
  have plain : ∀ line ∈ qs.flatMap Request.lines, Plain line := by
    intro line inside
    obtain ⟨q, asked, inside⟩ := List.mem_flatMap.mp inside
    exact (options q asked).plain line inside
  obtain ⟨r', v', between, same⟩ := calls_requests options (allowed_options ready) env chunk.length
    r.toSession ⟨env.uri, env.method⟩ (({} : Line).lines chunk)
      (by rw [whole, lines_texts plain]) ⟨waiting, rfl⟩
  have made := same []
  rw [List.append_nil, ← readedDataProcess_each] at made
  have ended : after.toSession = r' := congrArg Prod.fst made
  have called : ReadedDataProcessCalls env r chunk = calls := by
    refine (congrArg Prod.snd made).trans ?_
    simp only [eachCalls, List.append_nil, seqOf_cseq, optionsCall, cseq, calls]
  have sent : (ReadedDataProcess env r chunk).2 = calls.flatMap ReplyCall.send := by
    rw [readedDataProcess_calls, called]
  have one_each : calls = (qs.map fun q => cseq q.headers).map optionsCall := by
    rw [List.map_map]
    rfl
  have carried : after.carry = r.carry := by
    obtain ⟨line, finished⟩ := lines_finished (requests_started some_) plain
    rw [← whole] at finished
    exact readedDataProcess_finished env nothing finished
  refine ⟨called, sent, ?_, ?_, ?_, ?_⟩
  · rw [sent, one_each, send_optionsCalls, List.length_map]
  · rw [ended, between.state]
  · rw [ended, between.waiting]
  · exact (congrArg Prod.fst carried).trans nothing

/-- Two requests, of which only the first has a number. -/
def twoRequests : List Request :=
  [⟨bytes "OPTIONS", bytes "*", [bytes "CSeq: 7"]⟩,
    ⟨bytes "OPTIONS", bytes "*", [bytes "Server: x"]⟩]

theorem options_twoRequests : ∀ q ∈ twoRequests, q.Options := by
  intro q inside
  have method : q.method = bytes "OPTIONS" :=
    (by decide : ∀ q ∈ twoRequests, q.method = bytes "OPTIONS") q inside
  have uri : q.uri = bytes "*" := (by decide : ∀ q ∈ twoRequests, q.uri = bytes "*") q inside
  have headers : ∀ line ∈ q.headers, line ≠ [] ∧ (CR ∉ line ∧ LF ∉ line) ∧
      line.length ≤ LINEBUFSIZE - 1 :=
    (by decide : ∀ q ∈ twoRequests, ∀ line ∈ q.headers,
      line ≠ [] ∧ (CR ∉ line ∧ LF ∉ line) ∧ line.length ≤ LINEBUFSIZE - 1) q inside
  constructor
  · exact method
  · rw [uri]
    decide
  · rw [uri]
    decide
  · exact fun line inside => (headers line inside).1
  · exact fun line inside => ⟨(headers line inside).2.1, (headers line inside).2.2⟩

theorem twoRequests_answered :
    let chunk := (twoRequests.map Request.text).flatten
    let after := (ReadedDataProcess .blank blank chunk).1
    let calls := twoRequests.map fun q => ⟨RTSP_STATUS_OK, public_line, cseq q.headers⟩
    ReadedDataProcessCalls .blank blank chunk = calls ∧
      (ReadedDataProcess .blank blank chunk).2 = calls.flatMap ReplyCall.send ∧
      (ReadedDataProcess .blank blank chunk).2.length = twoRequests.length ∧
      after.m_RtspState = blank.m_RtspState ∧ after.m_nAnaPhase = 0 ∧ after.m_nTempDataSize = 0 :=
  pipelined_answered .blank blank rfl rfl (.inl rfl) twoRequests (by decide) options_twoRequests

end TestIOCP.Rtsp
