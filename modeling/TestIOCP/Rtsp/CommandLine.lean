import TestIOCP.Rtsp.Server

/-! The request lines that parse_command_line accepts, and what the lines of a request do. -/
namespace TestIOCP.Rtsp
open CString

theorem av_strstart_iff {str pfx rest : List Byte} :
    av_strstart str pfx = some rest ↔ str = pfx ++ rest := by
  fun_induction av_strstart str pfx with
  | case1 str => simp [eq_comm]
  | case2 c str pfx ih => simp [ih]
  | case3 c str d pfx differ => simp [Ne.symm differ]
  | case4 d pfx => simp

/-- A request line: method, URI and version, with anything after the version. -/
def requestLine (method uri tail : List Byte) : List Byte :=
  method ++ ch ' ' :: (uri ++ ch ' ' :: (bytes "RTSP/1.0" ++ tail))

/-- What the server accepts in a state: the method and the URI fit their arrays, and
the state allows the method. -/
structure Accepted (state : RTSPClientState) (method uri : List Byte) : Prop where
  method_word : ch ' ' ∉ method
  method_fits : method.length ≤ 9
  uri_word : ch ' ' ∉ uri
  uri_fits : uri.length ≤ 499
  method_allowed : allowed state (methodOf method) = true

namespace Accepted
variable {state : RTSPClientState}

/-- An accepted line fills both arrays, whatever they held. -/
theorem parse_eq {method uri tail : List Byte} (accepted : Accepted state method uri)
    (free : 0 ∉ method) (uri₀ : Buffer 500) (method₀ : Buffer 10) (methodcode : RTSPMethod) :
    parse_command_line state (requestLine method uri tail) uri₀ method₀ methodcode =
      ⟨0, uri₀.store uri, method₀.store method, methodOf method⟩ := by
  have length (a b : List Byte) : (a ++ b).length - b.length = a.length := by simp
  have stored : (method₀.store method).string = method := by
    rw [Buffer.string_store _ (by have := accepted.method_fits; omega), cstring_of_notMem free]
  rw [parse_command_line, requestLine, strchr_append accepted.method_word]
  simp only [length, List.take_left', List.tail_cons, strchr_append accepted.uri_word, stored,
    accepted.method_allowed, Nat.not_lt.mpr accepted.method_fits, Nat.not_lt.mpr accepted.uri_fits,
    av_strstart_iff.mpr rfl, if_false, Bool.not_true, Bool.false_eq_true]

theorem parse {method uri tail : List Byte} (accepted : Accepted state method uri)
    (free : 0 ∉ method) (uri₀ : Buffer 500) (method₀ : Buffer 10) (methodcode : RTSPMethod) :
    (parse_command_line state (requestLine method uri tail) uri₀ method₀ methodcode).ret = 0 := by
  rw [accepted.parse_eq free]

end Accepted

/-- The method is stored before anything else is checked. -/
theorem parse_command_line_method {state : RTSPClientState} {method rest : List Byte}
    (word : ch ' ' ∉ method) (short : method.length ≤ 9) (free : 0 ∉ method)
    (uri₀ : Buffer 500) (method₀ : Buffer 10) (methodcode : RTSPMethod) :
    (parse_command_line state (method ++ ch ' ' :: rest) uri₀ method₀ methodcode).methodcode =
      methodOf method := by
  have length (a b : List Byte) : (a ++ b).length - b.length = a.length := by simp
  have stored : (method₀.store method).string = method := by
    rw [Buffer.string_store _ (by omega), cstring_of_notMem free]
  rw [parse_command_line, strchr_append word]
  simp only [length, List.take_left', stored, Nat.not_lt.mpr short, gt_iff_lt, if_false]
  split
  · rfl
  · split
    · rfl
    · split
      · rfl
      · split <;> rfl

/-- Only accepted request lines get past parse_command_line. -/
theorem accepted_of_parse {state : RTSPClientState} {line : List Byte} (free : 0 ∉ line)
    {uri₀ : Buffer 500} {method₀ : Buffer 10} {methodcode : RTSPMethod}
    (parsed : (parse_command_line state line uri₀ method₀ methodcode).ret = 0) :
    ∃ method uri tail, line = requestLine method uri tail ∧ Accepted state method uri := by
  have length (a b : List Byte) : (a ++ b).length - b.length = a.length := by simp
  cases first : strchr line (ch ' ') with
  | none => simp [parse_command_line, first] at parsed
  | some p =>
    obtain ⟨method, rest, rfl, method_word, rfl⟩ := strchr_some first
    rw [parse_command_line, first] at parsed
    simp only [length, List.take_left', List.tail_cons, gt_iff_lt] at parsed
    split at parsed
    · cases parsed
    · rename_i method_fits
      have stored : (method₀.store method).string = method := by
        rw [Buffer.string_store _ (by omega),
          cstring_of_notMem fun inside => free (List.mem_append_left _ inside)]
      rw [stored] at parsed
      split at parsed
      · cases parsed
      · rename_i method_allowed
        cases second : strchr rest (ch ' ') with
        | none => simp [second] at parsed
        | some q =>
          obtain ⟨uri, version, rfl, uri_word, rfl⟩ := strchr_some second
          simp only [second, length, List.take_left', List.tail_cons] at parsed
          split at parsed
          · cases parsed
          · rename_i uri_fits
            split at parsed
            · cases parsed
            · rename_i tail starts
              rw [av_strstart_iff] at starts
              subst starts
              exact ⟨method, uri, tail, rfl,
                ⟨method_word, by omega, uri_word, by omega, by simpa using method_allowed⟩⟩

theorem methodOf_known (method : List Byte) (known : methodOf method ≠ .UNKNOWN) :
    (method, methodOf method) ∈ methodNames := by
  rw [methodOf] at known ⊢
  cases found : methodNames.lookup method with
  | none => simp [found] at known
  | some code =>
    obtain ⟨before, after, split_, -⟩ := List.lookup_eq_some_iff.mp found
    simp [split_]

/-- The methods that an idle server accepts. -/
theorem methodOf_idle {method : List Byte} (allowed_ : allowed .IDLE (methodOf method) = true) :
    (method = bytes "ANNOUNCE" ∧ methodOf method = .ANNOUNCE) ∨
      (method = bytes "OPTIONS" ∧ methodOf method = .OPTIONS) := by
  have known := methodOf_known method (by rintro unknown; simp [unknown, allowed] at allowed_)
  simp only [methodNames, List.mem_cons, Prod.mk.injEq, List.not_mem_nil, or_false] at known
  rcases known with named | named | named | named | named | named | named | named |
    named | named | named
  all_goals
    obtain ⟨rfl, code⟩ := named
    simp [code, allowed] at allowed_ ⊢

/-- The string of a line is a request line that the server accepts. -/
def AcceptedLine (state : RTSPClientState) (line : List Byte) : Prop :=
  ∃ method uri tail, cstring line = requestLine method uri tail ∧ Accepted state method uri

section
variable (env : Env) {r : Session} (v : Locals) {line : List Byte} (readpos : Nat)

/-- Between requests, a line that is not accepted only leaves its method behind. -/
theorem process_line_refused (idle : r.m_nAnaPhase = 0)
    (refused : ¬ AcceptedLine r.m_RtspState line) :
    ∃ methodcode v', process_line env r v readpos line.length (cstring line) =
      ({ r with methodcode }, v', []) := by
  simp only [process_line]
  split
  · rw [if_neg fun parsed => refused (accepted_of_parse (notMem_cstring line) parsed)]
    exact ⟨_, _, rfl⟩
  · rw [if_neg (by simp [idle])]
    exact ⟨r.methodcode, v, rfl⟩

/-- An accepted line starts a request. -/
theorem process_line_accepted (idle : r.m_nAnaPhase = 0) {method uri tail : List Byte}
    (text : cstring line = requestLine method uri tail)
    (accepted : Accepted r.m_RtspState method uri) :
    ∃ v', process_line env r v readpos line.length (cstring line) =
      ({ r with
        methodcode := methodOf method
        m_RtspReplyMessage := .zero
        m_nAnaPhase := 1 }, v', []) := by
  have free : 0 ∉ requestLine method uri tail := text ▸ notMem_cstring line
  have method_free : 0 ∉ method := fun inside => free (List.mem_append_left _ inside)
  have started : line.length > 0 := by
    cases line with
    | nil => simp [cstring, requestLine] at text
    | cons c line => simp
  simp only [process_line]
  rw [if_pos started, if_pos idle, text, if_pos (accepted.parse method_free _ _ _), requestLine,
    parse_command_line_method accepted.method_word accepted.method_fits method_free]
  exact ⟨_, rfl⟩

/-- In a request, a line that is not blank is a header. -/
theorem process_line_header (busy : r.m_nAnaPhase = 1) (started : line ≠ []) :
    process_line env r v readpos line.length (cstring line) =
      ({ r with
        m_RtspReplyMessage :=
          parse_nocommand_line env r.m_RtspReplyMessage (env.lower_transport readpos)
            (cstring line) },
        v, []) := by
  simp only [process_line]
  rw [if_pos (List.length_pos_iff.mpr started), if_neg (by simp [busy])]

/-- A blank line ends the request. -/
theorem process_line_blank (busy : r.m_nAnaPhase = 1) :
    process_line env r v readpos 0 line =
      ((dispatch { r with m_nAnaPhase := 0 } v.uri.string).1, v,
        (dispatch { r with m_nAnaPhase := 0 } v.uri.string).2) := by
  simp only [process_line]
  rw [if_neg (by decide), if_pos busy]

end

theorem parse_transports_seq (env : Env) (room : Nat) (msg : RTSPMessageHeader)
    (lower_transport p : List Byte) :
    (parse_transports env room msg lower_transport p).seq = msg.seq := by
  induction room generalizing msg lower_transport p with
  | zero => rfl
  | succ room ih =>
    simp only [parse_transports]
    split
    · rfl
    · rw [ih]

/-- The sequence number after a header line. -/
def seqAfter (seq : Int) (buf : List Byte) : Int :=
  if (av_stristart buf (bytes "Session:")).isSome ∨
      (av_stristart buf (bytes "Content-Length:")).isSome ∨
      (av_stristart buf (bytes "Transport:")).isSome then seq
  else match av_stristart buf (bytes "CSeq:") with
    | some p => (strtol p).value
    | none => seq

theorem parse_nocommand_line_seq (env : Env) (msg : RTSPMessageHeader)
    (lower_transport buf : List Byte) :
    (parse_nocommand_line env msg lower_transport buf).seq = seqAfter msg.seq buf := by
  simp only [parse_nocommand_line, seqAfter]
  cases av_stristart buf (bytes "Session:") with
  | some p =>
    simp only [Option.isSome_some, true_or, if_true]
    split
    · rfl
    · split <;> rfl
  | none =>
    cases av_stristart buf (bytes "Content-Length:") with
    | some p => simp
    | none =>
      cases av_stristart buf (bytes "Transport:") with
      | some p => simp [rtsp_parse_transport, parse_transports_seq]
      | none =>
        cases av_stristart buf (bytes "CSeq:") with
        | some p => simp
        | none =>
          simp only [Option.isSome_none, Bool.false_eq_true, or_self, if_false]
          repeat' split
          all_goals rfl

end TestIOCP.Rtsp
