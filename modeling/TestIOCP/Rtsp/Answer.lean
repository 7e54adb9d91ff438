import TestIOCP.Rtsp.CommandLine
import TestIOCP.Rtsp.Pieces

/-! Which requests the server answers. No reachable session leaves the idle state: the
methods that change it are refused there. -/
namespace TestIOCP.Rtsp
open CString

/-- What every session of a server satisfies. -/
structure Idle (r : Session) : Prop where
  state : r.m_RtspState = .IDLE
  phase : r.m_nAnaPhase = 0 ∨ r.m_nAnaPhase = 1
  asked : r.m_nAnaPhase = 1 → r.methodcode = .ANNOUNCE ∨ r.methodcode = .OPTIONS

namespace Idle
variable {r : Session}

theorem of_fresh {r : RtspServer} (fresh : Fresh r) : Idle r.toSession :=
  ⟨fresh.rtspState, .inl fresh.anaPhase, by simp [fresh.anaPhase]⟩

theorem process_line (idle : Idle r) (env : Env) (v : Locals) (readpos : Nat) (line : List Byte) :
    Idle (process_line env r v readpos line.length (cstring line)).1 := by
  rcases idle.phase with waiting | busy
  · by_cases accepted : AcceptedLine r.m_RtspState line
    · obtain ⟨method, uri, tail, text, accepted⟩ := accepted
      obtain ⟨v', same⟩ := process_line_accepted env v readpos waiting text accepted
      rw [same]
      refine ⟨idle.state, .inr rfl, fun _ => ?_⟩
      rw [idle.state] at accepted
      rcases methodOf_idle accepted.method_allowed with ⟨-, code⟩ | ⟨-, code⟩ <;> simp [code]
    · obtain ⟨methodcode, v', same⟩ :=
        process_line_refused env v readpos waiting accepted
      rw [same]
      exact ⟨idle.state, idle.phase, by simp [waiting]⟩
  · by_cases blank : line = []
    · subst blank
      rw [List.length_nil, process_line_blank _ _ readpos busy]
      rcases idle.asked busy with code | code
      · simp only [dispatch, code]
        exact ⟨idle.state, .inl rfl, by simp⟩
      · simp only [dispatch, code]
        exact ⟨idle.state, .inl rfl, by simp⟩
    · rw [process_line_header _ _ readpos busy blank]
      exact ⟨idle.state, .inr busy, idle.asked⟩

theorem process_each (idle : Idle r) (env : Env) (size : Nat) (v : Locals)
    (lines : List (List Byte × List Byte)) : Idle (process_each env size r v lines).1 := by
  induction lines generalizing r v with
  | nil => exact idle
  | cons line lines ih => exact ih (idle.process_line env v _ line.1) _

theorem receive (idle : Idle r) (chunks : List (Env × List Byte)) : Idle (r.receive chunks).1 := by
  induction chunks generalizing r with
  | nil => exact idle
  | cons chunk chunks ih => exact ih (idle.process_each _ _ _ _)

end Idle

/-- A server that has received some chunks. -/
def Reached (r : RtspServer) : Prop :=
  ∃ r₀ chunks, Fresh r₀ ∧ r = (receive r₀ chunks).1

theorem Reached.idle {r : RtspServer} (reached : Reached r) : Idle r.toSession := by
  obtain ⟨r₀, chunks, fresh, rfl⟩ := reached
  have same := congrArg Prod.fst (receive_spec r₀ chunks)
  simp only at same
  rw [same]
  exact (Idle.of_fresh fresh).receive chunks

def CRLF : List Byte := [CR, LF]

/-- A request without a body. -/
structure Request where
  method : List Byte
  uri : List Byte
  headers : List (List Byte)

def Request.text (q : Request) : List Byte :=
  requestLine q.method q.uri [] ++ CRLF ++ (q.headers.map (· ++ CRLF)).flatten ++ CRLF

/-- A header line: a name without spaces and colons, a colon, and a value. -/
structure Header (line : List Byte) : Prop where
  field : ∃ name value, line = name ++ ch ':' :: value ∧ ch ' ' ∉ name
  one_line : CR ∉ line ∧ LF ∉ line
  fits : line.length ≤ LINEBUFSIZE - 1

structure Request.WellFormed (q : Request) : Prop where
  method : methodOf q.method ≠ .UNKNOWN
  uri : ∀ c ∈ [ch ' ', CR, LF, 0], c ∉ q.uri
  headers : ∀ line ∈ q.headers, Header line

/-- One response, which reports success exactly when the state allows the method. -/
def RightAnswer (state : RTSPClientState) (methodcode : RTSPMethod) (replies : List Reply) : Prop :=
  ∃ reply, replies = [reply] ∧
    if allowed state methodcode then 200 ≤ reply.code ∧ reply.code < 300
    else 400 ≤ reply.code ∧ reply.code < 600

/-- A line that goes on to a line end is returned whole when it fits in the buffer, and
without its start when it does not. -/
theorem Reading.run_word {l : Line} {piece : List Byte} (reading : Reading l piece)
    {content : List Byte}
    (started : piece.getLast? = some LF → content ≠ []) (free : CR ∉ content ∧ LF ∉ content)
    (rest : List Byte) :
    ∃ line, l.run (content ++ (CRLF ++ rest)) = some (line, rest) ∧
      line <:+ (piece ++ content).map stored ∧
      if (piece ++ content).length < LINEBUFSIZE then line = (piece ++ content).map stored
      else line.length + LINEBUFSIZE ≤ (piece ++ content).length := by
  induction content generalizing l piece with
  | nil =>
    -- The line feed of the line end finds the carriage return in the buffer.
    have more : (l.step CR).1 = false := by
      rw [Bool.eq_false_iff]
      intro ends
      obtain ⟨a, last, lineEnd⟩ := (reading.step_ends_iff CR).mp ends
      rcases lineEnd with ⟨-, wrong⟩ | ⟨rfl, -⟩
      · exact absurd wrong (by decide)
      · exact started last rfl
    obtain ⟨reading', -⟩ := reading.step_goes_on CR more
    have ends : ((l.step CR).2.step LF).1 = true :=
      (reading'.step_ends_iff LF).mpr ⟨CR, next_getLast piece CR, .inl ⟨rfl, rfl⟩⟩
    obtain ⟨content, a, held, -, text⟩ := reading'.step_ends LF ends
    refine ⟨content.map stored, ?_, ?_⟩
    · simp only [CRLF, List.nil_append, List.cons_append, Line.run]
      rw [show l.step CR = (false, (l.step CR).2) from Prod.ext more rfl]
      simp only
      rw [show (l.step CR).2.step LF = (true, ((l.step CR).2.step LF).2) from
        Prod.ext ends rfl, ← text]
    · have bound := reading.bound
      rw [List.append_nil]
      simp only [next] at held
      split at held
      · rename_i room
        obtain ⟨rfl, -⟩ := List.append_inj' held rfl
        rw [if_pos room]
        exact ⟨List.suffix_refl _, rfl⟩
      · rename_i full
        have alone : [] ++ [CR] = content ++ [a] := held
        obtain ⟨rfl, -⟩ := List.append_inj' alone rfl
        rw [if_neg full]
        exact ⟨List.nil_suffix, by simpa using full⟩
  | cons c content ih =>
    have more : (l.step c).1 = false := by
      rw [Bool.eq_false_iff]
      intro ends
      obtain ⟨a, -, lineEnd⟩ := (reading.step_ends_iff c).mp ends
      rcases lineEnd with ⟨-, rfl⟩ | ⟨-, rfl⟩
      · exact free.2 List.mem_cons_self
      · exact free.1 List.mem_cons_self
    obtain ⟨reading', -⟩ := reading.step_goes_on c more
    simp only [List.mem_cons, not_or] at free
    obtain ⟨line, ran, suffix, whole⟩ := ih reading'
      (fun last => absurd (Option.some.inj ((next_getLast piece c).symm.trans last))
        (Ne.symm free.2.1))
      ⟨free.1.2, free.2.2⟩
    have total : (piece ++ c :: content).length = piece.length + 1 + content.length := by
      simp only [List.length_append, List.length_cons]
      omega
    refine ⟨line, ?_, ?_⟩
    · simp only [List.cons_append, Line.run]
      rw [show l.step c = (false, (l.step c).2) from Prod.ext more rfl]
      exact ran
    · by_cases room : piece.length < LINEBUFSIZE
      · rw [show next piece c = piece ++ [c] from if_pos room] at suffix whole
        simpa only [List.append_assoc, List.singleton_append] using And.intro suffix whole
      · rw [show next piece c = [c] from if_neg room] at suffix
        have short := suffix.length_le
        simp only [List.length_map, List.length_append, List.length_singleton] at short
        rw [if_neg (by omega)]
        exact ⟨suffix.trans ⟨piece.map stored, by simp⟩, by omega⟩

theorem Unbroken.of_free {content : List Byte} (free : CR ∉ content ∧ LF ∉ content) :
    Unbroken (content ++ [CR]) := by
  -- A line end needs a line feed, and there is none.
  refine (List.pairwise_of_forall_mem_list fun a insideA b insideB => ?_).isChain
  have none_ : LF ∉ content ++ [CR] := by simpa [free.2] using (by decide : LF ≠ CR)
  rintro (⟨-, rfl⟩ | ⟨rfl, -⟩)
  · exact none_ insideB
  · exact none_ insideA

/-- A line that fits in the buffer is returned whole. -/
theorem run_line (content : List Byte) (free : CR ∉ content ∧ LF ∉ content)
    (fits : content.length < LINEBUFSIZE) (rest : List Byte) :
    ({} : Line).run (content ++ (CRLF ++ rest)) = some (content, rest) := by
  have read : ({} : Line).run ((content ++ [CR]) ++ LF :: rest) = some (content.map stored, rest) :=
    Reading.empty.run_piece rfl (.of_free free) fits (.inl ⟨rfl, rfl⟩)
  simpa [CRLF, map_stored free.2] using read

/-- A session between requests. -/
structure Waits (r : Session) : Prop where
  idle : Idle r
  waiting : r.m_nAnaPhase = 0

/-- A session within a request. -/
structure Asked (code : RTSPMethod) (seq : Int) (r : Session) : Prop where
  idle : Idle r
  busy : r.m_nAnaPhase = 1
  code : r.methodcode = code
  seq : r.m_RtspReplyMessage.seq = seq

/-- The replies of an idle server to a complete request. -/
def answerTo (code : RTSPMethod) (seq : Int) : List Reply :=
  if code = .OPTIONS then
    (rtsp_send_reply RTSP_STATUS_OK public_line (BitVec.ofInt 16 seq)).toList
  else []

/-- Lines that make a session of a kind send some replies, after which the session waits
and goes on with more. -/
def Leads (P : Session → Prop) (lines : List (List Byte × List Byte)) (replies : List Reply)
    (more : List Byte) : Prop :=
  ∀ env size r v, P r → ∃ r' v', Waits r' ∧ process_each env size r v lines =
    ((process_each env size r' v' (({} : Line).lines more)).1,
      replies ++ (process_each env size r' v' (({} : Line).lines more)).2)

namespace Leads
variable {P : Session → Prop} {lines : List (List Byte × List Byte)} {line rest : List Byte}
  {replies : List Reply} {more : List Byte} {code : RTSPMethod} {seq : Int}

theorem refl (data : List Byte) : Leads Waits (({} : Line).lines data) [] data :=
  fun _ _ r v waits => ⟨r, v, waits, rfl⟩

theorem trans {data : List Byte} {others : List Reply} (first : Leads P lines replies data)
    (then_ : Leads Waits (({} : Line).lines data) others more) :
    Leads P lines (replies ++ others) more := by
  intro env size r v holds
  obtain ⟨r₁, v₁, waits, same⟩ := first env size r v holds
  obtain ⟨r₂, v₂, waits₂, same₂⟩ := then_ env size r₁ v₁ waits
  exact ⟨r₂, v₂, waits₂, by rw [same, same₂, List.append_assoc]⟩

/-- A line that is not accepted is passed over between requests. -/
theorem refused (refused : ¬ AcceptedLine .IDLE line) (others : Leads Waits lines replies more) :
    Leads Waits ((line, rest) :: lines) replies more := by
  intro env size r v waits
  have kept := waits.idle.process_line env v (size - rest.length) line
  obtain ⟨methodcode, v', one⟩ := process_line_refused env v (size - rest.length) waits.waiting
    (waits.idle.state ▸ refused)
  rw [one] at kept
  obtain ⟨r', v'', waits', same⟩ := others env size { r with methodcode } v' ⟨kept, waits.waiting⟩
  exact ⟨r', v'', waits', by simp only [process_each, one, same, List.nil_append]⟩

/-- An accepted line starts a request. -/
theorem accepted {method uri tail : List Byte} (text : cstring line = requestLine method uri tail)
    (accepted : Accepted .IDLE method uri)
    (others : Leads (Asked (methodOf method) 0) lines replies more) :
    Leads Waits ((line, rest) :: lines) replies more := by
  intro env size r v waits
  have kept := waits.idle.process_line env v (size - rest.length) line
  obtain ⟨v', one⟩ := process_line_accepted env v (size - rest.length) waits.waiting text
    (waits.idle.state ▸ accepted)
  rw [one] at kept
  obtain ⟨r', v'', waits', same⟩ := others env size _ v' ⟨kept, rfl, rfl, rfl⟩
  exact ⟨r', v'', waits', by simp only [process_each, one, same, List.nil_append]⟩

/-- In a request, a line that is not blank can only change the sequence number. -/
theorem header (started : line ≠ [])
    (others : Leads (Asked code (seqAfter seq (cstring line))) lines replies more) :
    Leads (Asked code seq) ((line, rest) :: lines) replies more := by
  intro env size r v asked
  have kept := asked.idle.process_line env v (size - rest.length) line
  have one := process_line_header env v (size - rest.length) asked.busy started
  rw [one] at kept
  obtain ⟨r', v', waits, same⟩ := others env size _ v ⟨kept, asked.busy, asked.code, by
    simp only [parse_nocommand_line_seq, asked.seq]⟩
  exact ⟨r', v', waits, by simp only [process_each, one, same, List.nil_append]⟩

/-- The blank line is the end of the request. -/
theorem blank (more : List Byte) :
    Leads (Asked code seq) (([], rest) :: ({} : Line).lines more) (answerTo code seq) more := by
  intro env size r v asked
  have kept := asked.idle.process_line env v (size - rest.length) []
  rw [List.length_nil, process_line_blank _ _ _ asked.busy] at kept
  rw [process_each, List.length_nil, process_line_blank _ _ _ asked.busy]
  rcases asked.idle.asked asked.busy with announce | options
  · simp only [dispatch, announce] at kept ⊢
    refine ⟨_, v, ⟨kept, rfl⟩, ?_⟩
    rw [answerTo, ← asked.code, announce]
    simp
  · simp only [dispatch, options] at kept ⊢
    refine ⟨_, v, ⟨kept, rfl⟩, ?_⟩
    rw [answerTo, ← asked.code, options, if_pos rfl, ← asked.seq]
    rfl

end Leads

/-- No method has a colon in its name. -/
theorem known_no_colon {method : List Byte} (known : methodOf method ≠ .UNKNOWN) :
    ch ':' ∉ method :=
  (by decide : ∀ entry ∈ methodNames, ch ':' ∉ entry.1) _ (methodOf_known method known)

/-- A line with a colon before its first space is no request line in any state. -/
theorem not_accepted_of_colon {state : RTSPClientState} {name value : List Byte}
    (word : ch ' ' ∉ name) :
    ¬ AcceptedLine state (name ++ ch ':' :: value) := by
  rintro ⟨method, uri, tail, text, accepted⟩
  have known : methodOf method ≠ .UNKNOWN := by
    intro unknown
    have allowed_ := accepted.method_allowed
    rw [unknown] at allowed_
    cases state <;> simp [allowed] at allowed_
  have no_colon := known_no_colon known
  obtain ⟨rest, whole⟩ : requestLine method uri tail <+: name ++ ch ':' :: value := by
    rw [← text]
    exact List.takeWhile_prefix _
  rw [requestLine, List.append_assoc, List.cons_append] at whole
  rcases List.append_eq_append_iff.mp whole with ⟨more, rfl, right⟩ | ⟨more, rfl, right⟩
  · cases more with
    | nil => simp [ch] at right
    | cons c more =>
      obtain ⟨rfl, -⟩ := List.cons.inj right
      simp at word
  · cases more with
    | nil => simp [ch] at right
    | cons c more =>
      obtain ⟨rfl, -⟩ := List.cons.inj right
      simp at no_colon

theorem not_accepted_empty (state : RTSPClientState) : ¬ AcceptedLine state [] := by
  rintro ⟨method, uri, tail, text, -⟩
  simp [cstring, requestLine] at text

theorem refused_of_header {line : List Byte} (header : Header line) :
    ¬ AcceptedLine .IDLE line := by
  obtain ⟨name, value, rfl, word⟩ := header.field
  exact not_accepted_of_colon word

theorem lines_line {content : List Byte} (free : CR ∉ content ∧ LF ∉ content)
    (fits : content.length < LINEBUFSIZE) (rest : List Byte) :
    ({} : Line).lines (content ++ (CRLF ++ rest)) = (content, rest) :: ({} : Line).lines rest :=
  Line.lines_some (run_line content free fits rest)

theorem lines_blank (rest : List Byte) :
    ({} : Line).lines (CRLF ++ rest) = ([], rest) :: ({} : Line).lines rest :=
  lines_line (show CR ∉ [] ∧ LF ∉ [] by simp) (by decide) rest

theorem Header.lines {line : List Byte} (header : Header line) (rest : List Byte) :
    ({} : Line).lines (line ++ CRLF ++ rest) = (line, rest) :: ({} : Line).lines rest := by
  have fits := header.fits
  rw [List.append_assoc]
  exact lines_line header.one_line (by simp [LINEBUFSIZE] at fits ⊢; omega) rest

/-- The sequence number that headers lead to. -/
def seqOf (seq : Int) (headers : List (List Byte)) : Int :=
  headers.foldl (fun seq line => seqAfter seq (cstring line)) seq

section
variable {headers : List (List Byte)} (wellFormed : ∀ line ∈ headers, Header line)
  (more : List Byte)
include wellFormed

/-- In a request, headers up to the blank line lead to the answer. -/
theorem headers_asked (code : RTSPMethod) (seq : Int) :
    Leads (Asked code seq) (({} : Line).lines ((headers.map (· ++ CRLF)).flatten ++ (CRLF ++ more)))
      (answerTo code (seqOf seq headers)) more := by
  induction headers generalizing seq with
  | nil =>
    simp only [List.map_nil, List.flatten_nil, List.nil_append, lines_blank]
    exact .blank more
  | cons line headers ih =>
    simp only [List.forall_mem_cons] at wellFormed
    have started : line ≠ [] := by
      obtain ⟨name, value, rfl, -⟩ := wellFormed.1.field
      simp
    simp only [List.map_cons, List.flatten_cons, List.append_assoc _ _ (CRLF ++ more)]
    rw [wellFormed.1.lines]
    exact .header started (ih wellFormed.2 _)

/-- Between requests, headers and the blank line lead to nothing. -/
theorem headers_waits :
    Leads Waits (({} : Line).lines ((headers.map (· ++ CRLF)).flatten ++ (CRLF ++ more)))
      [] more := by
  induction headers with
  | nil =>
    simp only [List.map_nil, List.flatten_nil, List.nil_append, lines_blank]
    exact .refused (not_accepted_empty _) (.refl more)
  | cons line headers ih =>
    simp only [List.forall_mem_cons] at wellFormed
    simp only [List.map_cons, List.flatten_cons, List.append_assoc _ _ (CRLF ++ more)]
    rw [wellFormed.1.lines]
    exact .refused (refused_of_header wellFormed.1) (ih wellFormed.2)

end

/-- An end of a request line is a request line only with the same URI. -/
theorem requestLine_suffix {before method uri tail method' uri' : List Byte}
    (word : ch ' ' ∉ method ∧ ch ' ' ∉ uri) (word' : ch ' ' ∉ method' ∧ ch ' ' ∉ uri')
    (whole : before ++ requestLine method uri tail = requestLine method' uri' []) :
    before ++ method = method' ∧ uri = uri' := by
  have spaces := congrArg (List.count (ch ' ')) whole
  have version : List.count (ch ' ') (bytes "RTSP/1.0") = 0 := by decide
  simp only [requestLine, List.count_append, List.count_cons_self, List.count_eq_zero.mpr word.1,
    List.count_eq_zero.mpr word.2, List.count_eq_zero.mpr word'.1, List.count_eq_zero.mpr word'.2,
    version, List.count_nil] at spaces
  have before_word : ch ' ' ∉ before := List.count_eq_zero.mp (by omega)
  rw [requestLine, requestLine, ← List.append_assoc] at whole
  obtain ⟨method_eq, rest⟩ := first_unique (by simp [before_word, word.1]) word'.1 whole
  exact ⟨method_eq, (first_unique word.2 word'.2 rest).1⟩

theorem known_method {method : List Byte} (known : methodOf method ≠ .UNKNOWN) :
    (∀ c ∈ [ch ' ', CR, LF, 0], c ∉ method) ∧ method.length ≤ 13 :=
  (by decide : ∀ entry ∈ methodNames,
    (∀ c ∈ [ch ' ', CR, LF, 0], c ∉ entry.1) ∧ entry.1.length ≤ 13) _ (methodOf_known _ known)

namespace Request
variable {q : Request}

/-- What comes after the request line, with what follows the request. -/
def rest (q : Request) (more : List Byte) : List Byte :=
  (q.headers.map (· ++ CRLF)).flatten ++ (CRLF ++ more)

theorem text_append (q : Request) (more : List Byte) :
    q.text ++ more = requestLine q.method q.uri [] ++ (CRLF ++ q.rest more) := by
  simp only [text, rest, List.append_assoc]

theorem WellFormed.notMem (wellFormed : q.WellFormed) {c : Byte} (special : c ∈ [CR, LF, 0]) :
    c ∉ requestLine q.method q.uri [] := by
  have inMethod := (known_method wellFormed.method).1 c (List.mem_cons_of_mem _ special)
  have inUri := wellFormed.uri c (List.mem_cons_of_mem _ special)
  have other : c ≠ ch ' ' ∧ c ∉ bytes "RTSP/1.0" :=
    (by decide : ∀ c ∈ [CR, LF, 0], c ≠ ch ' ' ∧ c ∉ bytes "RTSP/1.0") c special
  simp [requestLine, inMethod, inUri, other]

theorem WellFormed.stored (wellFormed : q.WellFormed) :
    (requestLine q.method q.uri []).map stored = requestLine q.method q.uri [] :=
  map_stored (wellFormed.notMem (by simp))

theorem WellFormed.length (wellFormed : q.WellFormed) :
    (requestLine q.method q.uri []).length ≤ 23 + q.uri.length := by
  have := (known_method wellFormed.method).2
  have version : (bytes "RTSP/1.0").length = 8 := by decide
  simp only [requestLine, List.length_append, List.length_cons, List.length_nil, version]
  omega

/-- The first line of a request is an end of its request line, and the whole line when
that fits in the buffer. -/
theorem WellFormed.first_line (wellFormed : q.WellFormed) (more : List Byte) :
    ∃ line, ({} : Line).lines (q.text ++ more) =
      (line, q.rest more) :: ({} : Line).lines (q.rest more) ∧
      line <:+ requestLine q.method q.uri [] ∧
      (q.uri.length ≤ 499 → line = requestLine q.method q.uri []) := by
  have free : CR ∉ requestLine q.method q.uri [] ∧ LF ∉ requestLine q.method q.uri [] :=
    ⟨wellFormed.notMem (by simp), wellFormed.notMem (by simp)⟩
  obtain ⟨line, ran, suffix, whole⟩ := Reading.empty.run_word (by simp) free (q.rest more)
  rw [List.nil_append, wellFormed.stored] at suffix whole
  refine ⟨line, ?_, suffix, fun short => ?_⟩
  · rw [q.text_append]
    exact Line.lines_some ran
  · have := wellFormed.length
    rwa [if_pos (by rw [LINEBUFSIZE]; omega)] at whole

theorem WellFormed.words (wellFormed : q.WellFormed) : ch ' ' ∉ q.method ∧ ch ' ' ∉ q.uri :=
  ⟨(known_method wellFormed.method).1 _ List.mem_cons_self, wellFormed.uri _ List.mem_cons_self⟩

theorem WellFormed.accepted (wellFormed : q.WellFormed)
    (allowed_ : allowed .IDLE (methodOf q.method) = true) (short : q.uri.length ≤ 499) :
    cstring (requestLine q.method q.uri []) = requestLine q.method q.uri [] ∧
      Accepted .IDLE q.method q.uri := by
  refine ⟨cstring_of_notMem (wellFormed.notMem (by simp)), wellFormed.words.1, ?_,
    wellFormed.words.2, short, allowed_⟩
  rcases methodOf_idle allowed_ with ⟨named, -⟩ | ⟨named, -⟩ <;> rw [named] <;> decide

/-- The first line is only accepted when the state allows the method and the URI fits. -/
theorem WellFormed.of_accepted (wellFormed : q.WellFormed) {line : List Byte}
    (suffix : line <:+ requestLine q.method q.uri [])
    (whole : q.uri.length ≤ 499 → line = requestLine q.method q.uri [])
    (accepted : AcceptedLine .IDLE line) :
    allowed .IDLE (methodOf q.method) = true ∧ q.uri.length ≤ 499 := by
  obtain ⟨method, uri, tail, text, accepted⟩ := accepted
  rw [cstring_of_notMem fun inside => wellFormed.notMem (by simp) (suffix.subset inside)] at text
  obtain ⟨before, split_⟩ := suffix
  have parts := split_
  rw [text] at parts
  obtain ⟨method_eq, rfl⟩ :=
    requestLine_suffix ⟨accepted.method_word, accepted.uri_word⟩ wellFormed.words parts
  have short := accepted.uri_fits
  obtain rfl : before = [] := by
    rw [whole short] at split_
    exact List.append_left_eq_self.mp split_
  rw [List.nil_append] at method_eq
  exact ⟨method_eq ▸ accepted.method_allowed, short⟩

/-- The request is an OPTIONS request that the server can hold. -/
def Answered (q : Request) : Prop :=
  q.method = bytes "OPTIONS" ∧ q.uri.length ≤ 499

instance (q : Request) : Decidable q.Answered :=
  inferInstanceAs (Decidable (_ ∧ _))

/-- What an idle server sends for a complete request. -/
def answer (q : Request) : List Reply :=
  if q.Answered then answerTo .OPTIONS (seqOf 0 q.headers) else []

/-- A complete request is answered so, and leaves the server waiting for the next one. -/
theorem WellFormed.leads (wellFormed : q.WellFormed) (more : List Byte) :
    Leads Waits (({} : Line).lines (q.text ++ more)) q.answer more := by
  obtain ⟨line, lines, suffix, whole⟩ := wellFormed.first_line more
  rw [lines]
  by_cases fits : allowed .IDLE (methodOf q.method) = true ∧ q.uri.length ≤ 499
  · obtain ⟨allowed_, short⟩ := fits
    obtain ⟨text, request⟩ := wellFormed.accepted allowed_ short
    obtain rfl := whole short
    have answered : Leads Waits ((_, q.rest more) :: _) _ more :=
      Leads.accepted text request (headers_asked wellFormed.headers more _ 0)
    rcases methodOf_idle allowed_ with ⟨named, announce⟩ | ⟨named, options⟩
    · have silent : ¬ q.Answered := fun other => absurd (named.symm.trans other.1) (by decide)
      rw [announce] at answered
      rwa [answer, if_neg silent]
    · rw [options] at answered
      rwa [answer, if_pos ⟨named, short⟩]
  · have silent : ¬ q.Answered := fun ⟨named, short⟩ => fits ⟨by rw [named]; decide, short⟩
    rw [answer, if_neg silent]
    exact .refused (fun accepted => fits (wellFormed.of_accepted suffix whole accepted))
      (headers_waits wellFormed.headers more)

end Request

/-- The server after a complete request, and its answer. -/
theorem Waits.request {r : RtspServer} (waits : Waits r.toSession) (env : Env) {q : Request}
    (wellFormed : q.WellFormed) :
    Waits (ReadedDataProcess env r q.text).1.toSession ∧
      (ReadedDataProcess env r q.text).2 = q.answer := by
  have spec := readedDataProcess_spec env r q.text
  obtain ⟨r', v', waits', same⟩ :=
    wellFormed.leads [] env q.text.length r.toSession ⟨env.uri, env.method⟩ waits
  rw [List.append_nil] at same
  rw [Session.process, same, Prod.mk.injEq] at spec
  refine ⟨?_, by simp [spec.2, Line.lines, process_each]⟩
  rw [spec.1]
  exact waits'

theorem not_rightAnswer_nil (state : RTSPClientState) (methodcode : RTSPMethod) :
    ¬ RightAnswer state methodcode [] := by
  rintro ⟨reply, none_, -⟩
  cases none_

/-- A complete request is answered as it should be exactly when it is an OPTIONS request
with a URI that fits in its array. -/
theorem rightAnswer_iff {r : RtspServer} (reached : Reached r)
    (waiting : r.m_nAnaPhase = 0) (env : Env)
    {q : Request} (wellFormed : q.WellFormed) :
    RightAnswer r.m_RtspState (methodOf q.method) (ReadedDataProcess env r q.text).2 ↔
      q.method = bytes "OPTIONS" ∧ q.uri.length ≤ 499 := by
  have waits : Waits r.toSession := ⟨reached.idle, waiting⟩
  rw [(waits.request env wellFormed).2, reached.idle.state, Request.answer]
  by_cases answered : q.Answered
  · rw [if_pos answered, answered.1]
    have options : methodOf (bytes "OPTIONS") = .OPTIONS := by decide
    exact iff_of_true ⟨_, rfl, by simp [allowed, options, RTSP_STATUS_OK]⟩ ⟨rfl, answered.2⟩
  · rw [if_neg answered]
    exact iff_of_false (not_rightAnswer_nil _ _) answered

theorem reached_blank : Reached blank := ⟨blank, [], fresh_blank, rfl⟩

/-- A request with one header. -/
def ask (method : String) : Request :=
  ⟨bytes method, bytes "*", [bytes "CSeq: 1"]⟩

theorem wellFormed_ask {method : String} (known : methodOf (bytes method) ≠ .UNKNOWN) :
    (ask method).WellFormed := by
  refine ⟨known, (by decide : ∀ c ∈ [ch ' ', CR, LF, 0], c ∉ bytes "*"), fun line inside => ?_⟩
  obtain rfl := List.mem_singleton.mp inside
  exact ⟨⟨bytes "CSeq", bytes " 1", by decide, by decide⟩, by decide, by decide⟩

theorem options_answered :
    RightAnswer .IDLE (methodOf (bytes "OPTIONS"))
      (ReadedDataProcess .blank blank (ask "OPTIONS").text).2 :=
  (rightAnswer_iff reached_blank rfl .blank (wellFormed_ask (by decide))).mpr ⟨rfl, by decide⟩

/-- ANNOUNCE is allowed by an idle server and never answered. -/
theorem announce_not_answered : ¬ ∀ r, Reached r → r.m_nAnaPhase = 0 → ∀ env (q : Request),
    q.WellFormed → RightAnswer r.m_RtspState (methodOf q.method)
      (ReadedDataProcess env r q.text).2 := by
  intro right
  obtain ⟨reply, one, -⟩ :=
    right blank reached_blank rfl .blank (ask "ANNOUNCE") (wellFormed_ask (by decide))
  have silent : (ReadedDataProcess .blank blank (ask "ANNOUNCE").text).2 = [] := by decide +kernel
  rw [silent] at one
  cases one

end TestIOCP.Rtsp
