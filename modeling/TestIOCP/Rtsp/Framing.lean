import TestIOCP.Rtsp.Isolation

/-! Message bodies. The server notes the length that a request announces for its body,
and then reads the body as lines like everything else. -/
namespace TestIOCP.Rtsp
open CString

/-- A request that announces a body of n bytes, and the requests after it, each with a
body of its own. -/
structure Message (n : Nat) where
  request : Request
  wellFormed : request.WellFormed
  accepted : Accepted .IDLE request.method request.uri
  declared : ∃ line ∈ request.headers, ∃ p,
    av_stristart line (bytes "Content-Length:") = some p ∧ (strtol p).value = n
  rest : List (Request × List Byte)
  others : ∀ q ∈ rest, q.1.WellFormed

namespace Message
variable {n : Nat}

/-- The text of requests with their bodies. -/
def textOf (rest : List (Request × List Byte)) : List Byte :=
  (rest.map fun q => q.1.text ++ q.2).flatten

def chunk (m : Message n) (body : List Byte) : List Byte :=
  m.request.text ++ (body ++ textOf m.rest)

/-- The replies to the chunk, and the state and the phase after it. -/
def observed (m : Message n) (env : Env) (r : RtspServer) (body : List Byte) :
    List Reply × RTSPClientState × Nat :=
  let after := ReadedDataProcess env r (m.chunk body)
  (after.2, after.1.m_RtspState, after.1.m_nAnaPhase)

/-- The body has no effect. -/
def Framed (m : Message n) (r : RtspServer) : Prop :=
  ∀ env body body', body.length = n → body'.length = n → m.observed env r body =
    m.observed env r body'

end Message

/-- An end of a body of this length can make the request line that follows it into an
OPTIONS line. -/
def Intrudes (length : Nat) (q : Request) : Prop :=
  length + (requestLine q.method q.uri []).length < LINEBUFSIZE ∧
    (17 ≤ length ∨ 8 ≤ length ∧ bytes "RTSP/1.0" <+: q.uri)

/-- What the last line of a body of n bytes can be: all of the body, or what follows a line end. -/
def Unfinished (n length : Nat) : Prop :=
  length = n ∨ length + 2 ≤ n

/-- When a body of n bytes goes unnoticed: there is no room for a request line, and the
next request is refused with it or without it. -/
def Unnoticed (n : Nat) : List (Request × List Byte) → Prop
  | [] => n < 19
  | (q, _) :: _ =>
    n < 2 ∨ n < 19 ∧ ¬ q.Answered ∧ ¬ ∃ length, Unfinished n length ∧ Intrudes length q

theorem AcceptedLine.length {line : List Byte} (accepted : AcceptedLine .IDLE line) :
    17 ≤ line.length := by
  obtain ⟨method, uri, tail, text, accepted⟩ := accepted
  have inside : (cstring line).length ≤ line.length := (List.takeWhile_prefix _).length_le
  have version : (bytes "RTSP/1.0").length = 8 := by decide
  have word : 7 ≤ method.length := by
    rcases methodOf_idle accepted.method_allowed with ⟨rfl, -⟩ | ⟨rfl, -⟩ <;> decide
  rw [text] at inside
  simp only [requestLine, List.length_append, List.length_cons, version] at inside
  omega

/-- An accepted line has two spaces. -/
theorem AcceptedLine.spaces {line : List Byte} (accepted : AcceptedLine .IDLE line) :
    2 ≤ (cstring line).count (ch ' ') := by
  obtain ⟨method, uri, tail, text, -⟩ := accepted
  rw [text]
  simp only [requestLine, List.count_append, List.count_cons_self]
  omega

namespace Leads
variable {lines : List (List Byte × List Byte)} {replies : List Reply} {more : List Byte}

/-- Lines that are not accepted are passed over. -/
theorem passed {done : List (List Byte × List Byte)}
    (refused : ∀ line ∈ done, ¬ AcceptedLine .IDLE line.1)
    (others : Leads Waits lines replies more) : Leads Waits (done ++ lines) replies more := by
  induction done with
  | nil => exact others
  | cons line done ih =>
    simp only [List.forall_mem_cons] at refused
    exact .refused refused.1 (ih refused.2)

/-- What can be seen of lines is the replies, and what is seen of the rest. -/
theorem seen (leads : Leads Waits lines replies more) {r : Session} (waits : Waits r) (env : Env)
    (size : Nat) (v : Locals) :
    (process_each env size r v lines).2 =
        replies ++ (process_each env size r v (({} : Line).lines more)).2 ∧
      (process_each env size r v lines).1.m_RtspState = .IDLE ∧
      (process_each env size r v lines).1.m_nAnaPhase =
        (process_each env size r v (({} : Line).lines more)).1.m_nAnaPhase := by
  obtain ⟨r', v', waits', same⟩ := leads env size r v waits
  obtain ⟨alike, replies_⟩ := (Alike.of_waiting waits'.idle waits.idle waits'.waiting
      waits.waiting).process_each
    env env size v' v (({} : Line).lines more)
  rw [same]
  exact ⟨congrArg (replies ++ ·) replies_, alike.left.state, alike.phase⟩

end Leads

/-- A short text is read into complete lines and the start of one more. -/
theorem Reading.lines_append {l : Line} {piece : List Byte} (reading : Reading l piece)
    (text more : List Byte)
    (room : (piece ++ text).length ≤ LINEBUFSIZE) :
    ∃ done l' piece', Reading l' piece' ∧ l.lines (text ++ more) = done ++ l'.lines more ∧
      (∀ line ∈ done, line.1.length + 2 ≤ (piece ++ text).length) ∧
      Unfinished (piece ++ text).length piece'.length := by
  induction text generalizing l piece with
  | nil => exact ⟨[], l, piece, reading, rfl, by simp, .inl (by simp)⟩
  | cons c text ih =>
    have total : (piece ++ c :: text).length = piece.length + 1 + text.length := by
      simp only [List.length_append, List.length_cons]
      omega
    cases stepped : (l.step c).1 with
    | true =>
      obtain ⟨content, a, rfl, -, line⟩ := reading.step_ends c stepped
      obtain ⟨done, l', piece', reading', lines, lengths, unfinished⟩ :=
        ih .empty (by simp only [List.nil_append]; omega)
      have held : (content ++ [a]).length = content.length + 1 := by simp
      simp only [List.nil_append] at lengths unfinished
      refine ⟨((l.step c).2.text, text ++ more) :: done, l', piece', reading', ?_, ?_, ?_⟩
      · simp only [List.cons_append, Line.lines]
        rw [show l.step c = (true, (l.step c).2) from Prod.ext stepped rfl, lines]
      · intro line' inside
        rcases List.mem_cons.mp inside with rfl | inside
        · simp only [line, List.length_map]
          omega
        · have := lengths line' inside
          omega
      · rw [total]
        rcases unfinished with all | part
        all_goals exact .inr (by omega)
    | false =>
      obtain ⟨reading', -⟩ := reading.step_goes_on c stepped
      rw [show next piece c = piece ++ [c] from if_pos (by omega)] at reading'
      obtain ⟨done, l', piece', others⟩ := ih reading' (by simpa using room)
      refine ⟨done, l', piece', ?_⟩
      simp only [List.cons_append, Line.lines]
      rw [show l.step c = (false, (l.step c).2) from Prod.ext stepped rfl]
      simpa only [List.append_assoc, List.singleton_append] using others

/-- No known method ends with another one. -/
theorem own_method {before method : List Byte} (known : methodOf method ≠ .UNKNOWN)
    (whole : before ++ method = bytes "OPTIONS") : before = [] := by
  have same : method = bytes "OPTIONS" :=
    (by decide : ∀ entry ∈ methodNames, entry.1 <:+ bytes "OPTIONS" → entry.1 = bytes "OPTIONS") _
      (methodOf_known _ known) ⟨before, whole⟩
  rw [same] at whole
  exact List.append_left_eq_self.mp whole

/-- A version does not go on with a method. -/
theorem no_version {before method rest tail : List Byte} (known : methodOf method ≠ .UNKNOWN)
    (short : before.length < 8) : before ++ (method ++ rest) ≠ bytes "RTSP/1.0" ++ tail := by
  intro same
  have cut := congrArg (List.drop before.length) same
  rw [List.drop_left, List.drop_append_of_le_length (show _ ≤ 8 by omega)] at cut
  have start : ((bytes "RTSP/1.0").drop before.length).take 2 <+: method ++ rest := by
    rw [cut]
    exact (List.take_prefix _ _).trans (List.prefix_append _ _)
  obtain ⟨long, other⟩ := (by decide : ∀ entry ∈ methodNames, 2 ≤ entry.1.length ∧
    ∀ k < 8, ¬ ((bytes "RTSP/1.0").drop k).take 2 <+: entry.1) _ (methodOf_known _ known)
  have two : (((bytes "RTSP/1.0").drop before.length).take 2).length ≤ 2 := List.length_take_le _ _
  exact other _ short (List.prefix_of_prefix_length_le start (List.prefix_append _ _)
    (two.trans long))

/-- A word before a space that starts with the version. -/
theorem version_prefix {uri rest tail : List Byte}
    (same : uri ++ ch ' ' :: rest = bytes "RTSP/1.0" ++ tail) : bytes "RTSP/1.0" <+: uri := by
  rcases Nat.le_total (bytes "RTSP/1.0").length uri.length with long | short
  · exact List.prefix_of_prefix_length_le ⟨tail, same.symm⟩ (List.prefix_append _ _) long
  · rcases List.append_eq_append_iff.mp same with ⟨more, whole, right⟩ | ⟨more, rfl, -⟩
    · cases more with
      | nil => exact ⟨[], by simpa using whole⟩
      | cons c more =>
        obtain ⟨rfl, -⟩ := List.cons.inj right
        have inside : ch ' ' ∈ bytes "RTSP/1.0" := by simp [whole]
        exact absurd inside (by decide)
    · exact List.prefix_append _ _

section
variable {q : Request} (wellFormed : q.WellFormed)
include wellFormed

/-- What the end of a short body and the next request line together can be. -/
theorem merged {piece line : List Byte} (short : piece.length ≤ 18)
    (suffix : line <:+ (piece ++ requestLine q.method q.uri []).map stored)
    (whole : if (piece ++ requestLine q.method q.uri []).length < LINEBUFSIZE then
        line = (piece ++ requestLine q.method q.uri []).map stored
      else line.length + LINEBUFSIZE ≤ (piece ++ requestLine q.method q.uri []).length)
    {method uri tail : List Byte} (text : cstring line = requestLine method uri tail)
    (accepted : Accepted .IDLE method uri) :
    methodOf method = .ANNOUNCE ∨ piece = [] ∧ q.Answered ∨ Intrudes piece.length q := by
  have found : AcceptedLine .IDLE line := ⟨method, uri, tail, text, accepted⟩
  rcases methodOf_idle accepted.method_allowed with ⟨rfl, announce⟩ | ⟨rfl, -⟩
  · exact .inl announce
  right
  rw [List.map_append, wellFormed.stored] at suffix whole
  have length : (piece.map stored).length = piece.length := List.length_map _
  split at whole
  · rename_i fits
    rw [List.length_append] at fits
    by_cases large : 17 ≤ piece.length
    · exact .inr ⟨fits, .inl large⟩
    rw [← length] at large short ⊢
    have empty : piece.map stored = [] → piece = [] := List.map_eq_nil_iff.mp
    subst whole
    generalize piece.map stored = start at *
    -- A NUL would end the string before it is long enough.
    have free : 0 ∉ start := by
      intro inside
      obtain ⟨before, after, rfl, -⟩ := List.eq_append_cons_of_mem inside
      rw [List.append_assoc, List.cons_append, cstring_nul] at text
      have := AcceptedLine.length ⟨_, _, _, text, accepted⟩
      simp only [List.length_append, List.length_cons] at large
      omega
    rw [cstring_append free, cstring_of_notMem (wellFormed.notMem (by simp))] at text
    by_cases space : ch ' ' ∈ start
    · obtain ⟨before, start', rfl, first⟩ := List.eq_append_cons_of_mem space
      simp only [requestLine, List.append_assoc, List.cons_append] at text
      obtain ⟨rfl, others⟩ := first_unique first (by decide) text
      have total : (bytes "OPTIONS" ++ ch ' ' :: start').length = 8 + start'.length := by
        rw [List.length_append, show (bytes "OPTIONS").length = 7 from by decide, List.length_cons]
        omega
      by_cases second : ch ' ' ∈ start'
      · obtain ⟨before, start'', rfl, first'⟩ := List.eq_append_cons_of_mem second
        rw [List.append_assoc, List.cons_append] at others
        obtain ⟨rfl, version⟩ := first_unique first' accepted.uri_word others
        have inner : (before ++ ch ' ' :: start'').length = before.length + (start''.length + 1) :=
          List.length_append
        exact absurd version (no_version wellFormed.method (by omega))
      · rw [← List.append_assoc] at others
        obtain ⟨-, version⟩ := first_unique (by simp [second, wellFormed.words.1])
          accepted.uri_word others
        exact .inr ⟨by omega, .inr ⟨by omega, version_prefix version⟩⟩
    · simp only [requestLine, ← List.append_assoc start] at text
      obtain ⟨named, others⟩ := first_unique (by simp [space, wellFormed.words.1]) (by decide) text
      obtain ⟨rfl, -⟩ := first_unique wellFormed.words.2 accepted.uri_word others
      obtain rfl := own_method wellFormed.method named
      exact .inl ⟨empty rfl, named, accepted.uri_fits⟩
  · -- The line has lost its start, and with it the space before the URI.
    have few : (cstring line).count (ch ' ') ≤
        (q.uri ++ ch ' ' :: bytes "RTSP/1.0").count (ch ' ') := by
      refine ((List.takeWhile_prefix _).sublist.count_le _).trans
        (List.IsSuffix.sublist ?_ |>.count_le _)
      refine List.suffix_of_suffix_length_le suffix
        ⟨piece.map stored ++ q.method ++ [ch ' '], ?_⟩ ?_
      · simp [requestLine]
      · have := (known_method wellFormed.method).2
        simp only [requestLine, List.length_append, List.length_cons, List.length_nil,
          LINEBUFSIZE] at whole ⊢
        omega
    have version : (bytes "RTSP/1.0").count (ch ' ') = 0 := by decide
    have two := found.spaces
    rw [List.count_append, List.count_cons_self,
      List.count_eq_zero.mpr wellFormed.words.2, version] at few
    omega

/-- A request after the end of a body that does not turn it into another one is not answered. -/
theorem unanswered {l : Line} (piece : List Byte) {data more : List Byte}
    (found : ∃ line, l.run data = some (line, q.rest more) ∧
      line <:+ (piece ++ requestLine q.method q.uri []).map stored ∧
      if (piece ++ requestLine q.method q.uri []).length < LINEBUFSIZE then
        line = (piece ++ requestLine q.method q.uri []).map stored
      else line.length + LINEBUFSIZE ≤ (piece ++ requestLine q.method q.uri []).length)
    (short : piece.length ≤ 18) (alone : piece = [] → ¬ q.Answered)
    (harmless : ¬ Intrudes piece.length q) :
    Leads Waits (l.lines data) [] more := by
  obtain ⟨line, ran, suffix, whole⟩ := found
  rw [Line.lines_some ran]
  by_cases accepted : AcceptedLine .IDLE line
  · obtain ⟨method, uri, tail, text, accepted⟩ := accepted
    rcases merged wellFormed short suffix whole text accepted with announce |
      ⟨empty, answered⟩ | intrudes
    · have silent : Leads Waits ((line, q.rest more) :: _) _ more :=
        Leads.accepted text accepted (headers_asked wellFormed.headers more _ 0)
      rwa [announce] at silent
    · exact absurd answered (alone empty)
    · exact absurd intrudes harmless
  · exact .refused accepted (headers_waits wellFormed.headers more)

/-- A short body before a request that none of its ends turns into another one. -/
theorem unanswered_after {body : List Byte} (short : body.length ≤ 18)
    (alone : Unfinished body.length 0 → ¬ q.Answered)
    (harmless : ∀ length, Unfinished body.length length → ¬ Intrudes length q) (more : List Byte) :
    Leads Waits (({} : Line).lines (body ++ (q.text ++ more))) [] more := by
  have free : CR ∉ requestLine q.method q.uri [] ∧ LF ∉ requestLine q.method q.uri [] :=
    ⟨wellFormed.notMem (by simp), wellFormed.notMem (by simp)⟩
  obtain ⟨done, l, piece, reading, lines, lengths, unfinished⟩ :=
    Reading.empty.lines_append body (q.text ++ more)
      (by simp only [List.nil_append, LINEBUFSIZE]; omega)
  rw [List.nil_append] at lengths unfinished
  rw [lines]
  refine .passed (fun line inside accepted => ?_) ?_
  · have := accepted.length
    have := lengths line inside
    omega
  · rw [q.text_append]
    refine unanswered wellFormed _ (reading.run_word (by simp [requestLine]) free (q.rest more)) ?_
      (fun empty => alone (by simpa [empty] using unfinished)) (harmless _ unfinished)
    rcases unfinished with all | part
    · omega
    · omega

/-- Bytes before a request line spoil it. -/
theorem spoiled {before : List Byte} (free : CR ∉ before ∧ LF ∉ before) (started : before ≠ [])
    (short : before.length < 8) (more : List Byte) :
    Leads Waits (({} : Line).lines (before ++ (q.text ++ more))) [] more := by
  have outside : CR ∉ before ++ requestLine q.method q.uri [] ∧
      LF ∉ before ++ requestLine q.method q.uri [] := by
    simp [free, wellFormed.notMem]
  obtain ⟨line, ran, others⟩ := Reading.empty.run_word (by simp) outside (q.rest more)
  refine unanswered wellFormed before ⟨line, ?_, others⟩ (by omega) (absurd · started) ?_
  · rw [q.text_append, ← List.append_assoc]
    exact ran
  · rintro ⟨-, kind⟩
    omega

/-- A request line that a text before it makes an OPTIONS line is answered. -/
theorem answered_after {before : List Byte} (uri tail : List Byte)
    (whole : before ++ requestLine q.method q.uri [] = requestLine (bytes "OPTIONS") uri tail)
    (free : ∀ c ∈ [CR, LF, 0], c ∉ before) (word : ch ' ' ∉ uri) (short : uri.length ≤ 499)
    (fits : before.length + (requestLine q.method q.uri []).length < LINEBUFSIZE)
    (more : List Byte) :
    Leads Waits (({} : Line).lines (before ++ (q.text ++ more)))
      (answerTo .OPTIONS (seqOf 0 q.headers))
      more := by
  have outside {c : Byte} (special : c ∈ [CR, LF, 0]) :
      c ∉ before ++ requestLine q.method q.uri [] := by
    simp [free c special, wellFormed.notMem special]
  have text : cstring (before ++ requestLine q.method q.uri []) =
      requestLine (bytes "OPTIONS") uri tail := by
    rw [cstring_of_notMem (outside (by simp)), whole]
  rw [q.text_append, ← List.append_assoc,
    lines_line ⟨outside (by simp), outside (by simp)⟩ (by rwa [List.length_append])]
  exact .accepted text ⟨by decide, by decide, word, short, by decide⟩
    (headers_asked wellFormed.headers more _ 0)

end

/-- Bytes that mean nothing. -/
def filler (k : Nat) : List Byte :=
  List.replicate k (ch 'x')

theorem mem_filler {c : Byte} {k : Nat} (inside : c ∈ filler k) : c = ch 'x' :=
  List.eq_of_mem_replicate inside

theorem notMem_filler (k : Nat) {c : Byte} (other : c ≠ ch 'x') : c ∉ filler k :=
  fun inside => other (mem_filler inside)

theorem free_filler (k : Nat) : CR ∉ filler k ∧ LF ∉ filler k :=
  ⟨notMem_filler k (by decide), notMem_filler k (by decide)⟩

/-- A text without line ends has no complete lines. -/
theorem lines_filler (k : Nat) : ({} : Line).lines (filler k) = [] := by
  refine List.eq_nil_iff_forall_not_mem.mpr fun line found => ?_
  obtain ⟨content, a, b, inside, lineEnd, -⟩ := Reading.empty.lines_piece found
  have both : a = ch 'x' ∧ b = ch 'x' :=
    ⟨mem_filler (inside.subset (by simp)), mem_filler (inside.subset (by simp))⟩
  rw [both.1, both.2] at lineEnd
  exact absurd lineEnd (by rw [LineEnd]; decide)

/-- Any text that a body can end with does end one. -/
theorem exists_body {n : Nat} (last : List Byte) (unfinished : Unfinished n last.length) :
    ∃ body, body.length = n ∧ ∀ more, Leads Waits (({} : Line).lines (body ++ more)) []
      (last ++ more) := by
  rcases unfinished with all | part
  · exact ⟨last, all, fun more => .refl _⟩
  · refine ⟨filler (n - last.length - 2) ++ (CRLF ++ last), ?_, fun more => ?_⟩
    · simp only [filler, CRLF, List.length_append, List.length_replicate, List.length_cons,
        List.length_nil]
      omega
    · obtain ⟨line, ran, suffix, -⟩ :=
        Reading.empty.run_word (by simp) (free_filler (n - last.length - 2)) (last ++ more)
      rw [List.nil_append, map_stored (free_filler _).2] at suffix
      simp only [List.append_assoc]
      rw [Line.lines_some ran]
      refine .refused (fun accepted => ?_) (.refl _)
      have none_ : ch ' ' ∉ cstring line := fun inside =>
        notMem_filler _ (by decide) (suffix.subset ((List.takeWhile_prefix _).subset inside))
      have two := accepted.spaces
      rw [List.count_eq_zero.mpr none_] at two
      omega

/-- A body with a request line of its own, which the next line is a header of. -/
def opening (n : Nat) : List Byte :=
  requestLine (bytes "OPTIONS") [] [] ++ (CRLF ++ filler (n - 19))

theorem length_opening {n : Nat} (large : 19 ≤ n) : (opening n).length = n := by
  have line : (requestLine (bytes "OPTIONS") [] []).length = 17 := by decide
  simp only [opening, filler, CRLF, List.length_append, List.length_replicate, List.length_cons,
    List.length_nil, line]
  omega

theorem lines_opening (n : Nat) (more : List Byte) :
    ({} : Line).lines (opening n ++ more) =
      (requestLine (bytes "OPTIONS") [] [], filler (n - 19) ++ more) ::
        ({} : Line).lines (filler (n - 19) ++ more) := by
  simp only [opening, List.append_assoc]
  exact lines_line (by decide) (by decide) _

theorem accepted_opening : cstring (requestLine (bytes "OPTIONS") [] []) =
    requestLine (bytes "OPTIONS") [] [] ∧
    Accepted .IDLE (bytes "OPTIONS") [] :=
  ⟨by decide, by decide, by decide, by decide, by decide, by decide⟩

theorem opened {r : Session} (waits : Waits r) (env : Env) (size : Nat) (v : Locals) (n : Nat) :
    (process_each env size r v (({} : Line).lines (opening n))).1.m_nAnaPhase = 1 := by
  obtain ⟨text, accepted⟩ := accepted_opening
  have lines := lines_opening n []
  rw [List.append_nil, List.append_nil, lines_filler] at lines
  obtain ⟨v', one⟩ := process_line_accepted env v
    (size - (filler (n - 19)).length) waits.waiting text
    (waits.idle.state ▸ accepted)
  rw [lines]
  simp only [process_each, one]

/-- The request after such a body is taken for the rest of one. -/
theorem answered_opening {q : Request} (wellFormed : q.WellFormed) (n : Nat) (more : List Byte) :
    ∃ seq, Leads Waits (({} : Line).lines (opening n ++ (q.text ++ more)))
      (answerTo .OPTIONS seq) more := by
  have free : CR ∉ filler (n - 19) ++ requestLine q.method q.uri [] ∧
      LF ∉ filler (n - 19) ++ requestLine q.method q.uri [] := by
    simp [free_filler, wellFormed.notMem]
  obtain ⟨line, ran, -⟩ := Reading.empty.run_word (by simp) free (q.rest more)
  have lines : ({} : Line).lines (filler (n - 19) ++ (q.text ++ more)) =
      (line, q.rest more) :: ({} : Line).lines (q.rest more) := by
    rw [q.text_append, ← List.append_assoc]
    exact Line.lines_some ran
  obtain ⟨text, accepted⟩ := accepted_opening
  rw [lines_opening, lines]
  by_cases started : line = []
  · -- The line has lost all of its bytes and ends the request.
    subst started
    have blank : Leads (Asked .OPTIONS 0) (([], q.rest more) :: _) (answerTo .OPTIONS 0)
        (q.rest more) :=
      .blank (q.rest more)
    have ended := blank.trans (headers_waits wellFormed.headers more)
    rw [List.append_nil] at ended
    exact ⟨0, .accepted text accepted ended⟩
  · exact ⟨_, .accepted text accepted (.header started (headers_asked wellFormed.headers more _ _))⟩

/-- A body without room for a request line is passed over. -/
theorem passed_over {body : List Byte} (short : body.length ≤ 18) :
    Leads Waits (({} : Line).lines body) [] [] := by
  obtain ⟨done, l, piece, -, lines, lengths, -⟩ :=
    Reading.empty.lines_append body [] (by simp only [List.nil_append, LINEBUFSIZE]; omega)
  rw [List.append_nil] at lines
  rw [lines]
  refine .passed (fun line inside accepted => ?_) (.refl [])
  have := accepted.length
  have := lengths line inside
  rw [List.nil_append] at this
  omega

/-- An end of a body that makes an OPTIONS line of the next request line. -/
theorem Intrudes.answered {length : Nat} {q : Request} (intrudes : Intrudes length q)
    (short : length ≤ 18)
    (wellFormed : q.WellFormed) :
    ∃ last : List Byte, last.length = length ∧ ∀ more,
      Leads Waits (({} : Line).lines (last ++ (q.text ++ more)))
        (answerTo .OPTIONS (seqOf 0 q.headers)) more := by
  obtain ⟨fits, kind⟩ := intrudes
  by_cases large : 17 ≤ length
  · refine ⟨bytes "OPTIONS " ++ filler (length - 17) ++ bytes " RTSP/1.0", ?_, fun more => ?_⟩
    · simp only [List.length_append, filler, List.length_replicate,
        show (bytes "OPTIONS ").length = 8 from by decide, show (bytes " RTSP/1.0").length =
          9 from by decide]
      omega
    · refine answered_after wellFormed (filler (length - 17))
        (requestLine q.method q.uri []) ?_ ?_ (notMem_filler _ (by decide)) ?_ ?_ more
      · simp [requestLine, bytes, ch]
      · intro c special
        have other : c ≠ ch 'x' ∧ c ∉ bytes "OPTIONS " ∧ c ∉ bytes " RTSP/1.0" :=
          (by decide : ∀ c ∈ [CR, LF, 0], c ≠ ch 'x' ∧ c ∉ bytes "OPTIONS " ∧
            c ∉ bytes " RTSP/1.0") c special
        simp [other, notMem_filler]
      · simp only [filler, List.length_replicate]
        omega
      · simp only [List.length_append, filler, List.length_replicate,
          show (bytes "OPTIONS ").length = 8 from by decide, show (bytes " RTSP/1.0").length =
            9 from by decide]
        omega
  · obtain ⟨eight, version, text⟩ := kind.resolve_left large
    have known := known_method wellFormed.method
    refine ⟨bytes "OPTIONS " ++ filler (length - 8), ?_, fun more => ?_⟩
    · simp only [List.length_append, filler, List.length_replicate,
        show (bytes "OPTIONS ").length = 8 from by decide]
      omega
    · refine answered_after wellFormed (filler (length - 8) ++ q.method)
        (version ++ ch ' ' :: bytes "RTSP/1.0") ?_ ?_ ?_ ?_ ?_ more
      · simp [requestLine, ← text, bytes, ch]
      · intro c special
        have other : c ≠ ch 'x' ∧ c ∉ bytes "OPTIONS " :=
          (by decide : ∀ c ∈ [CR, LF, 0], c ≠ ch 'x' ∧ c ∉ bytes "OPTIONS ") c special
        simp [other, notMem_filler]
      · simp [wellFormed.words.1, notMem_filler (c := ch ' ') (length - 8) (by decide)]
      · simp only [List.length_append, filler, List.length_replicate]
        omega
      · simp only [List.length_append, filler, List.length_replicate,
          show (bytes "OPTIONS ").length = 8 from by decide]
        omega

theorem answerTo_options (seq : Int) : answerTo .OPTIONS seq ≠ [] := by
  simp [answerTo, rtsp_send_reply, status_messages, RTSP_STATUS_OK]

namespace Message
variable {n : Nat} {m : Message n} {r : RtspServer}

theorem length_chunk {body : List Byte} (size : body.length = n) :
    (m.chunk body).length = m.request.text.length + (n + (textOf m.rest).length) := by
  rw [chunk, List.length_append, List.length_append, size]

/-- What is observed when the body and the requests after it lead to some replies. -/
theorem observed_of_leads (waits : Waits r.toSession) (env : Env) {body : List Byte}
    (size : body.length = n)
    {replies : List Reply} {more : List Byte}
    (leads : Leads Waits (({} : Line).lines (body ++ textOf m.rest)) replies more) :
    let rest := process_each env (m.request.text.length + (n + (textOf m.rest).length)) r.toSession
      ⟨env.uri, env.method⟩ (({} : Line).lines more)
    m.observed env r body = (m.request.answer ++ replies ++ rest.2, .IDLE, rest.1.m_nAnaPhase) := by
  have seen := ((m.wellFormed.leads _).trans leads).seen waits env (m.chunk body).length
    ⟨env.uri, env.method⟩
  have spec := readedDataProcess_spec env r (m.chunk body)
  rw [Session.process, Prod.mk.injEq] at spec
  simp only [observed, spec.1, spec.2]
  rw [← length_chunk size]
  exact Prod.ext seen.1 (Prod.ext seen.2.1 seen.2.2)

theorem framed_of_leads (waits : Waits r.toSession) (replies : List Reply) (more : List Byte)
    (leads : ∀ body : List Byte, body.length = n →
      Leads Waits (({} : Line).lines (body ++ textOf m.rest)) replies more) : m.Framed r := by
  intro env body body' size size'
  rw [observed_of_leads waits env size (leads body size),
    observed_of_leads waits env size' (leads body' size')]

/-- Two bodies that are answered in different ways. -/
theorem not_framed_of_leads (waits : Waits r.toSession) {body body' : List Byte}
    (size : body.length = n)
    (size' : body'.length = n) {replies replies' : List Reply} {more : List Byte}
    (leads : Leads Waits (({} : Line).lines (body ++ textOf m.rest)) replies more)
    (leads' : Leads Waits (({} : Line).lines (body' ++ textOf m.rest)) replies' more)
    (differ : replies ≠ replies') : ¬ m.Framed r := by
  intro framed
  have same := congrArg Prod.fst (framed .blank body body' size size')
  rw [observed_of_leads waits _ size leads, observed_of_leads waits _ size' leads'] at same
  exact differ (List.append_cancel_left (List.append_cancel_right same))

/-- With nothing after the body, it goes unnoticed exactly when no request line fits in it. -/
theorem framed_alone (waits : Waits r.toSession) (alone : m.rest = []) : m.Framed r ↔ n < 19 := by
  have nothing : textOf m.rest = [] := by simp [alone, textOf]
  constructor
  · intro framed
    by_contra large
    -- A line of filler leaves the server waiting, the opening of a request does not.
    obtain ⟨body, size, passed⟩ := exists_body (n := n) [] (.inr (by simp; omega))
    have same := framed .blank body (opening n) size (length_opening (by omega))
    rw [observed_of_leads waits _ size (passed (textOf m.rest)),
      observed_of_leads waits _ (length_opening (by omega)) (.refl _)] at same
    have phases := congrArg (·.2.2) same
    simp only [nothing, List.append_nil, opened waits, Line.lines, process_each,
      waits.waiting] at phases
    cases phases
  · intro short
    refine framed_of_leads waits [] [] fun body size => ?_
    rw [nothing, List.append_nil]
    exact passed_over (by omega)

/-- With a request after the body, it goes unnoticed exactly when that request is refused,
whatever end of the body comes before it, or when the body is a single byte. -/
theorem framed_before (waits : Waits r.toSession) {q : Request} {text : List Byte}
    {others : List (Request × List Byte)} (next_ : m.rest = (q, text) :: others) :
    m.Framed r ↔ n < 2 ∨
      n < 19 ∧ ¬ q.Answered ∧ ¬ ∃ length, Unfinished n length ∧ Intrudes length q := by
  have wellFormed : q.WellFormed := m.others (q, text) (by simp [next_])
  have parts : textOf m.rest = q.text ++ (text ++ textOf others) := by simp [next_, textOf]
  have silent (unnoticed : n < 19 ∧ (Unfinished n 0 → ¬ q.Answered) ∧
      ∀ length, Unfinished n length → ¬ Intrudes length q) : m.Framed r := by
    refine framed_of_leads waits [] (text ++ textOf others) fun body size => ?_
    subst size
    rw [parts]
    exact unanswered_after wellFormed (by omega) unnoticed.2.1 unnoticed.2.2 _
  constructor
  · intro framed
    by_contra noticed
    obtain ⟨body, size, passed⟩ := exists_body (n := n) [] (.inr (by simp; omega))
    have plain := (passed (textOf m.rest)).trans (by rw [parts]; exact wellFormed.leads _)
    by_cases answered : q.Answered
    · obtain ⟨k, unfinished, started, short⟩ : ∃ k, Unfinished n k ∧ 0 < k ∧ k < 8 := by
        by_cases two : n = 2
        · exact ⟨2, .inl two.symm, by decide, by decide⟩
        · exact ⟨1, .inr (by omega), by decide, by decide⟩
      have size_ : (filler k).length = k := List.length_replicate
      obtain ⟨body', size', passed'⟩ := exists_body (n := n) (filler k) (by rwa [size_])
      have silent := (passed' (textOf m.rest)).trans (by
        rw [parts]
        exact spoiled wellFormed (free_filler k) (List.ne_nil_of_length_pos (by omega)) (by omega)
          (text ++ textOf others))
      rw [Request.answer, if_pos answered] at plain
      exact not_framed_of_leads waits size size' plain silent (answerTo_options _) framed
    · have none_ : q.answer = [] := if_neg answered
      rw [none_] at plain
      by_cases large : 19 ≤ n
      · obtain ⟨seq, leads⟩ := answered_opening wellFormed n (text ++ textOf others)
        rw [← parts] at leads
        exact not_framed_of_leads waits size (length_opening large) plain leads
          (answerTo_options seq).symm framed
      · obtain ⟨length, unfinished, intrudes⟩ : ∃ length, Unfinished n length ∧
            Intrudes length q := by
          by_contra none_
          exact noticed (.inr ⟨by omega, answered, none_⟩)
        obtain ⟨last, rfl, leads⟩ := intrudes.answered
          (by rcases unfinished with all | part <;> omega) wellFormed
        obtain ⟨body', size', passed'⟩ := exists_body _ unfinished
        exact not_framed_of_leads waits size size' plain
          ((passed' (textOf m.rest)).trans (by rw [parts]; exact leads _))
            (answerTo_options _).symm framed
  · rintro (small | ⟨short, refused, harmless⟩)
    · by_cases empty : n = 0
      · subst empty
        intro env body body' size size'
        rw [List.length_eq_zero_iff.mp size, List.length_eq_zero_iff.mp size']
      · refine silent ⟨by omega, fun none_ => ?_, fun length unfinished => ?_⟩
        · rcases none_ with none_ | none_ <;> omega
        · rintro ⟨-, kind⟩
          rcases unfinished with unfinished | unfinished <;> omega
    · exact silent ⟨short, fun _ => refused, fun length unfinished intrudes =>
        harmless ⟨length, unfinished, intrudes⟩⟩

/-- The bytes of a body have no effect exactly when it goes unnoticed. -/
theorem framed_iff {r : RtspServer} (reached : Reached r) (waiting : r.m_nAnaPhase = 0)
    (m : Message n) :
    m.Framed r ↔ Unnoticed n m.rest := by
  have waits : Waits r.toSession := ⟨reached.idle, waiting⟩
  cases rest : m.rest with
  | nil => exact framed_alone waits rest
  | cons q others => exact framed_before waits rest

theorem accepted_announce : Accepted .IDLE (bytes "ANNOUNCE") (bytes "*") :=
  ⟨by decide, by decide, by decide, by decide, by decide⟩

/-- An ANNOUNCE request with a body and nothing after it. -/
def announced (n : Nat) (length : List Byte) (header : Header length)
    (declared : ∃ p, av_stristart length (bytes "Content-Length:") = some p ∧
      (strtol p).value = n) :
    Message n where
  request := ⟨bytes "ANNOUNCE", bytes "*", [length]⟩
  wellFormed := ⟨(by decide : methodOf (bytes "ANNOUNCE") ≠ .UNKNOWN),
    (wellFormed_ask (by decide) : (ask "ANNOUNCE").WellFormed).uri, by simpa⟩
  accepted := accepted_announce
  declared := ⟨length, by simp, declared⟩
  rest := []
  others := by simp

/-- A body of five bytes. -/
def small : Message 5 :=
  announced 5 (bytes "Content-Length: 5")
    ⟨⟨bytes "Content-Length", bytes " 5", by decide, by decide⟩, by decide, by decide⟩
    ⟨bytes " 5", by decide, by decide⟩

theorem small_framed : small.Framed blank :=
  (framed_iff reached_blank rfl small).mpr (by decide : 5 < 19)

/-- A body with room for a request. -/
def large : Message 22 :=
  announced 22 (bytes "Content-Length: 22")
    ⟨⟨bytes "Content-Length", bytes " 22", by decide, by decide⟩, by decide, by decide⟩
    ⟨bytes " 22", by decide, by decide⟩

/-- A body that spells a request is answered. -/
theorem body_answered : ¬ ∀ (r : RtspServer) (n : Nat) (m : Message n), Reached r →
    r.m_nAnaPhase = 0 →
    m.Framed r := by
  intro framed
  have same := framed blank 22 large reached_blank rfl .blank (bytes "OPTIONS * RTSP/1.0\r\n\r\n")
    (filler 22) (by decide) (by decide)
  have replies := congrArg (·.1.length) same
  have answered : (large.observed .blank blank (bytes "OPTIONS * RTSP/1.0\r\n\r\n")).1.length =
      1 := by
    decide +kernel
  have silent : (large.observed .blank blank (filler 22)).1.length = 0 := by
    decide +kernel
  rw [answered, silent] at replies
  cases replies

end Message

end TestIOCP.Rtsp
