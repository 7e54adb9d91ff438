import TestIOCP.Rtsp.Decimal
import TestIOCP.Rtsp.Grammar
import TestIOCP.Rtsp.Transports

/-! The Transport line of a SETUP reply, read back by the parser of the server. Over UDP the
line holds the URI of the request, whose own commas and parameters the parser takes for
some of the line. -/
namespace TestIOCP.Rtsp
open CString

/-- A URI that parse_command_line leaves to rtsp_setup_reply. -/
def AcceptedUri (uri : List Byte) : Prop :=
  ∃ state memory uri₀ method₀ methodcode,
    let command := parse_command_line state (cstring memory) uri₀ method₀ methodcode
    command.ret = 0 ∧ command.uri.string = uri

/-- The header record of a request with one to eight transports, all of which record over
UDP or TCP; th is the first one. -/
structure Recording (msg : RTSPMessageHeader) (th : RTSPTransportField) : Prop where
  some_ : 0 < msg.nb_transports
  few : msg.nb_transports ≤ RTSP_MAX_TRANSPORTS
  size : msg.transports.length = RTSP_MAX_TRANSPORTS
  all : ∀ t ∈ msg.transports.take msg.nb_transports, t.mode_record = true ∧
    (t.lower_transport = .UDP ∨ t.lower_transport = .TCP)
  first : msg.transports.getD 0 .zero = th
  interleaved : (-2 ^ 31 ≤ th.interleaved_min ∧ th.interleaved_min < 2 ^ 31) ∧
    -2 ^ 31 ≤ th.interleaved_max ∧ th.interleaved_max < 2 ^ 31
  client_port : (-2 ^ 31 ≤ th.client_port_min ∧ th.client_port_min < 2 ^ 31) ∧
    -2 ^ 31 ≤ th.client_port_max ∧ th.client_port_max < 2 ^ 31

/-- The line without its line end. -/
def reply_line (host : List Byte) (th : RTSPTransportField) : List Byte :=
  (transport_line host th).dropLast.dropLast

/-- Read into a zeroed record, a line gives one transport, with the lower transport and the
ports of th. -/
def ReadsBack (env : Env) (lower_transport line : List Byte) (th : RTSPTransportField) : Prop :=
  let parsed := parse_nocommand_line env .zero lower_transport line
  let read := parsed.transports.getD 0 .zero
  parsed.nb_transports = 1 ∧ read.lower_transport = th.lower_transport ∧
    if th.lower_transport = .TCP then
      read.interleaved_min = th.interleaved_min ∧ read.interleaved_max = th.interleaved_max
    else
      read.client_port_min = th.client_port_min ∧ read.client_port_max = th.client_port_max

/-- A URI that does not disturb the line around it: it has no comma, and none of the
parameters that its semicolons start is multicast. -/
def Undisturbing (uri : List Byte) : Prop :=
  ch ',' ∉ uri ∧ ∀ parameter ∈ (uri.splitOn (ch ';')).tail,
    (get_word_sep 16 (bytes "=;,") parameter).1 ≠ bytes "multicast"

/-! ### The line -/

theorem av_stristart_self (pfx rest : List Byte) : av_stristart (pfx ++ rest) pfx = some rest := by
  induction pfx with
  | nil => cases rest <;> rfl
  | cons c pfx ih => simp [av_stristart, ih]

theorem parse_transport_line (env : Env) (msg : RTSPMessageHeader)
    (lower_transport text : List Byte) :
    parse_nocommand_line env msg lower_transport (bytes "Transport:" ++ text) =
      rtsp_parse_transport env msg lower_transport text := by
  have session : av_stristart (bytes "Transport:" ++ text) (bytes "Session:") = none := rfl
  have content : av_stristart (bytes "Transport:" ++ text) (bytes "Content-Length:") = none := rfl
  simp only [parse_nocommand_line, session, content, av_stristart_self]

def ports (min max : Int) : List Byte :=
  signedText min ++ ch '-' :: signedText max

/-- The parameters that the line gives in both cases, up to the ports. -/
def tcpParameters (th : RTSPTransportField) : List Byte :=
  bytes "unicast;mode=receive;interleaved=" ++ ports th.interleaved_min th.interleaved_max

def udpParameters (host : List Byte) (th : RTSPTransportField) : List Byte :=
  bytes "unicast;mode=receive;source=" ++ (host ++ ch ';' :: (bytes "client_port=" ++
    (ports th.client_port_min th.client_port_max ++ ch ';' :: bytes "server_port=1000-1001")))

theorem dropLast_line (s : List Byte) : (s ++ bytes "\r\n").dropLast.dropLast = s := by
  simp [bytes]

theorem reply_line_tcp (host : List Byte) {th : RTSPTransportField}
    (tcp : th.lower_transport = .TCP) :
    reply_line host th = bytes "Transport:" ++ (bytes " RTP/AVP/TCP;" ++ tcpParameters th) := by
  have start : bytes "Transport: RTP/AVP/TCP;unicast;mode=receive;interleaved=" =
      bytes "Transport:" ++ (bytes " RTP/AVP/TCP;" ++
        bytes "unicast;mode=receive;interleaved=") := by decide
  rw [reply_line, transport_line, if_pos tcp, dropLast_line, start]
  simp [tcpParameters, ports, bytes, ch]

theorem reply_line_udp (host : List Byte) {th : RTSPTransportField}
    (udp : th.lower_transport ≠ .TCP) :
    reply_line host th = bytes "Transport:" ++
      (bytes " RTP/AVP/UDP;" ++ udpParameters host th) := by
  have start : bytes "Transport: RTP/AVP/UDP;unicast;mode=receive;source=" =
      bytes "Transport:" ++ (bytes " RTP/AVP/UDP;" ++ bytes "unicast;mode=receive;source=") := by
    decide
  have local_ : unsignedText localport = bytes "1000" ∧
      unsignedText (localport + 1) = bytes "1001" := by decide
  rw [reply_line, transport_line, if_neg udp, dropLast_line, start, local_.1, local_.2]
  simp [udpParameters, ports, bytes, ch]

/-! ### The parser on the line -/

theorem mem_ports {min max : Int} {c : Byte} (inside : c ∈ ports min max) :
    isdigit c = true ∨ c = ch '-' := by
  rcases List.mem_append.mp inside with left | right
  · exact mem_signedText left
  · rcases List.mem_cons.mp right with sign | right
    · exact .inr sign
    · exact mem_signedText right

theorem ports_free (min max : Int) {c : Byte} (other : isdigit c = false ∧ c ≠ ch '-') :
    c ∉ ports min max := by
  intro inside
  rcases mem_ports inside with digit | sign
  · rw [other.1] at digit
    cases digit
  · exact other.2 sign

theorem rtsp_parse_range_ports {min max : Int} (left : -2 ^ 31 ≤ min ∧ min < 2 ^ 31)
    (right : -2 ^ 31 ≤ max ∧ max < 2 ^ 31) : rtsp_parse_range (ports min max) = (min, max, []) := by
  have read := rtsp_parse_range_signedText left right (show ∀ c ∈ [].head?,
    isdigit c = false by simp)
  rwa [List.append_nil] at read

/-- One specification gives one transport. -/
theorem parse_one (env : Env) (lower_transport : List Byte) {s : List Byte}
    (spec : Specification s) :
    let parsed := rtsp_parse_transport env .zero lower_transport s
    parsed.nb_transports = 1 ∧
      parsed.transports.getD 0 .zero = specified env .zero lower_transport s := by
  have pass := spec.pass (show Ends [ch ','] [] by simp [Ends]) env 7
    { RTSPMessageHeader.zero with nb_transports := 0 } lower_transport
  have blank : RTSPMessageHeader.zero.transports.getD 0 .zero = .zero := rfl
  rw [List.append_nil] at pass
  simp only [rtsp_parse_transport, RTSP_MAX_TRANSPORTS, pass, blank]
  generalize specified env .zero lower_transport s = field
  exact ⟨rfl, rfl⟩

/-- Each pass of the loop counts a transport. -/
theorem parse_transports_count (env : Env) (room : Nat) (msg : RTSPMessageHeader)
    (lower_transport p : List Byte) :
    msg.nb_transports ≤ (parse_transports env room msg lower_transport p).nb_transports ∧
      (0 < room → skip SPACE_CHARS p ≠ [] →
        msg.nb_transports < (parse_transports env room msg lower_transport p).nb_transports) := by
  induction room generalizing msg lower_transport p with
  | zero => exact ⟨Nat.le_refl _, fun positive => absurd positive (Nat.lt_irrefl 0)⟩
  | succ room ih =>
    simp only [parse_transports]
    split
    · rename_i none_
      exact ⟨Nat.le_refl _, fun _ some_ => absurd none_ some_⟩
    · generalize transport_protocol _ lower_transport (skip SPACE_CHARS p) = protocol
      obtain ⟨th, lower_transport, q⟩ := protocol
      simp only
      generalize transport_parameters env _ _ _ = field
      obtain ⟨th, q'⟩ := field
      simp only
      obtain ⟨later, -⟩ := ih
        { msg with
          transports := msg.transports.set msg.nb_transports th
          nb_transports := msg.nb_transports + 1 }
        lower_transport (if deref q' = ch ',' then q'.tail else q')
      simp only at later
      exact ⟨by omega, fun _ _ => by omega⟩

/-- What follows a comma is another transport. -/
theorem parse_several (env : Env) (lower_transport : List Byte) {s rest : List Byte}
    (spec : Specification s) (some_ : skip SPACE_CHARS rest ≠ []) :
    (rtsp_parse_transport env .zero lower_transport (s ++ ch ',' :: rest)).nb_transports ≠ 1 := by
  have pass := spec.pass (show Ends [ch ','] (ch ',' :: rest) by simp [Ends]) env 7
    { RTSPMessageHeader.zero with nb_transports := 0 } lower_transport
  have several (msg : RTSPMessageHeader) (lower_transport : List Byte)
      (one : msg.nb_transports = 1) :
      (parse_transports env 7 msg lower_transport rest).nb_transports ≠ 1 := by
    have more := (parse_transports_count env 7 msg lower_transport rest).2 (by decide) some_
    omega
  rw [rtsp_parse_transport, RTSP_MAX_TRANSPORTS, pass]
  exact several _ _ rfl

/-- UDP becomes something else by a multicast parameter only. -/
theorem foldl_udp (as : List Assignment) (th : RTSPTransportField) :
    (as.foldl Assignment.apply th).lower_transport = .UDP ↔
      th.lower_transport = .UDP ∧ .multicast ∉ as := by
  induction as generalizing th with
  | nil => simp
  | cons a as ih =>
    rw [List.foldl_cons, ih]
    cases a with
    | multicast =>
      by_cases udp : th.lower_transport = .UDP
      · simp [Assignment.apply, udp]
      · simp [Assignment.apply, udp]
    | port | client_port | server_port | interleaved | ttl | destination | source | mode_record
    | nothing =>
      simp [Assignment.apply]

/-- Only the name multicast is taken for it. -/
theorem assignment_multicast (env : Env) (text : List Byte) :
    assignment env text = .multicast ↔ (get_word_sep 16 (bytes "=;,") text).1 =
      bytes "multicast" := by
  rw [assignment]
  generalize get_word_sep 16 (bytes "=;,") text = word
  obtain ⟨parameter, p⟩ := word
  simp only
  constructor
  · intro multicast
    by_contra other
    -- No branch but that of the name multicast gives this assignment.
    have branch {c : Prop} [Decidable c] {a b : Assignment} (left : a ≠ .multicast)
        (right : b ≠ .multicast) : (if c then a else b) ≠ .multicast := by
      split
      · exact left
      · exact right
    refine absurd multicast ?_
    simp only [assignmentOf, if_neg other]
    refine branch (branch ?_ ?_) (branch (branch ?_ ?_) (branch (branch ?_ ?_)
      (branch (branch ?_ ?_) (branch (branch ?_ ?_) (branch (branch ?_ ?_)
        (branch (branch ?_ ?_) (branch (branch (branch ?_ ?_) ?_) ?_)))))))
    case refine_11 => cases env.getaddrinfo (get_word_sep 256 (bytes ";,") p.tail).1 <;> simp
    all_goals simp
  · rintro rfl
    rfl

/-- The bytes before the first separator belong to the first part. -/
theorem splitOn_append {pfx : List Byte} {sep : Byte} (free : sep ∉ pfx) (s : List Byte) :
    ∃ first rest, s.splitOn sep = first :: rest ∧
      (pfx ++ s).splitOn sep = (pfx ++ first) :: rest := by
  obtain ⟨first, rest, split_⟩ := List.exists_cons_of_ne_nil (List.splitOn_ne_nil sep s)
  refine ⟨first, rest, split_, ?_⟩
  induction pfx with
  | nil => exact split_
  | cons c pfx ih =>
    have other : c ≠ sep := (List.ne_of_not_mem_cons free).symm
    rw [List.cons_append, List.splitOn_cons_eq_if_modifyHead, if_neg (by simpa using other),
      ih (List.not_mem_of_not_mem_cons free)]
    rfl

theorem assignments_append (env : Env) (left right : List Byte) :
    assignments env (left ++ ch ';' :: right) = assignments env left ++ assignments env right := by
  rw [assignments, List.splitOn_append_cons_self, List.map_append]
  rfl

theorem assignments_single (env : Env) {text : List Byte} (single : ch ';' ∉ text) :
    assignments env text = [assignment env text] := by
  rw [assignments, List.splitOn_eq_singleton single]
  rfl

/-- The two ports of a parameter, whatever parameter they belong to. -/
theorem assignments_ports (env : Env) (name : List Byte) {min max : Int} (free : ch ';' ∉ name) :
    assignments env (name ++ ports min max) = [assignment env (name ++ ports min max)] := by
  apply assignments_single
  intro inside
  rcases List.mem_append.mp inside with left | right
  · exact free left
  · exact ports_free _ _ (by decide) right

theorem assignments_tcp (env : Env) {msg : RTSPMessageHeader} {th : RTSPTransportField}
    (recording : Recording msg th) : assignments env (tcpParameters th) =
      [.nothing, .mode_record, .interleaved th.interleaved_min th.interleaved_max] := by
  have start : tcpParameters th = bytes "unicast" ++ ch ';' :: (bytes "mode=receive" ++ ch ';' ::
      (bytes "interleaved=" ++ ports th.interleaved_min th.interleaved_max)) := by
    simp [tcpParameters, bytes, ch]
  have last : assignment env (bytes "interleaved=" ++
      ports th.interleaved_min th.interleaved_max) =
        .interleaved th.interleaved_min th.interleaved_max := by
    have read := rtsp_parse_range_ports recording.interleaved.1 recording.interleaved.2
    have assigned (text : List Byte) : assignment env (bytes "interleaved=" ++ text) =
      .interleaved (rtsp_parse_range text).1 (rtsp_parse_range text).2.1 := rfl
    rw [assigned, read]
  rw [start, assignments_append, assignments_append, assignments_ports env _ (by decide), last]
  rfl

/-- The URI is read as the source and the parameters that its semicolons start. -/
theorem assignments_udp (env : Env) (uri : List Byte) {msg : RTSPMessageHeader}
    {th : RTSPTransportField} (recording : Recording msg th) :
    ∃ source, assignments env (udpParameters uri th) =
      [.nothing, .mode_record, .source source] ++
        ((uri.splitOn (ch ';')).tail.map (assignment env) ++
          [.client_port th.client_port_min th.client_port_max, .server_port 1000 1001]) := by
  have start : udpParameters uri th = bytes "unicast" ++ ch ';' :: (bytes "mode=receive" ++
      ch ';' :: ((bytes "source=" ++ uri) ++ ch ';' :: ((bytes "client_port=" ++
        ports th.client_port_min th.client_port_max) ++ ch ';' ::
          bytes "server_port=1000-1001"))) := by
    simp [udpParameters, bytes, ch]
  obtain ⟨first, rest, split_, split'⟩ :=
    splitOn_append (show ch ';' ∉ bytes "source=" by decide) uri
  have source : assignments env (bytes "source=" ++ uri) =
      .source (get_word_sep 256 (bytes ";,") first).1 :: rest.map (assignment env) := by
    rw [assignments, split', List.map_cons]
    rfl
  have client_port : assignment env (bytes "client_port=" ++
      ports th.client_port_min th.client_port_max) =
        .client_port th.client_port_min th.client_port_max := by
    have read := rtsp_parse_range_ports recording.client_port.1 recording.client_port.2
    have assigned (text : List Byte) : assignment env (bytes "client_port=" ++ text) =
      .client_port (rtsp_parse_range text).1 (rtsp_parse_range text).2.1 := rfl
    rw [assigned, read]
  refine ⟨(get_word_sep 256 (bytes ";,") first).1, ?_⟩
  rw [start, assignments_append, assignments_append, assignments_append, assignments_append, source,
    assignments_ports env _ (by decide), client_port, split_]
  simp only [List.cons_append, List.nil_append, List.tail_cons]
  rfl

theorem specification_rtp {rest : List Byte} (clear : ch ',' ∉ rest) :
    Specification (bytes " RTP" ++ ch '/' :: rest) := by
  refine ⟨⟨bytes " RTP", rest, rfl, by decide, ch 'R', by decide, by decide⟩, ?_⟩
  have all : ch ',' ∉ bytes " RTP" ++ ch '/' :: rest := by
    simp [clear, (by decide : ch ',' ∉ bytes " RTP"), (by decide : ch ',' ≠ ch '/')]
  intro c inside comma
  exact all (List.mem_singleton.mp comma ▸ inside)

/-- What the line leaves in a zeroed field. -/
def lineField (lower_transport : RTSPLowerTransport) : RTSPTransportField :=
  { RTSPTransportField.zero with mode_record := true, transport := .RTP, lower_transport }

/-- Over TCP the line has no part of the request but its channels. -/
theorem readsBack_tcp (env : Env) (lower_transport host : List Byte) {msg : RTSPMessageHeader}
    {th : RTSPTransportField} (recording : Recording msg th) (tcp : th.lower_transport = .TCP) :
    ReadsBack env lower_transport (reply_line host th) th := by
  have clear : ch ',' ∉ bytes "AVP/TCP;" ++ tcpParameters th := by
    have left : ch ',' ∉ bytes "AVP/TCP;" ++ bytes "unicast;mode=receive;interleaved=" := by decide
    rw [tcpParameters, ← List.append_assoc]
    exact List.not_mem_append left (ports_free _ _ (by decide))
  obtain ⟨one, field⟩ := parse_one env lower_transport (specification_rtp clear)
  have fields : specified env .zero lower_transport
      (bytes " RTP" ++ ch '/' :: (bytes "AVP/TCP;" ++ tcpParameters th)) =
        (assignments env (tcpParameters th)).foldl Assignment.apply (lineField .TCP) := rfl
  have line : bytes " RTP/AVP/TCP;" ++ tcpParameters th =
      bytes " RTP" ++ ch '/' :: (bytes "AVP/TCP;" ++ tcpParameters th) := rfl
  rw [fields, assignments_tcp env recording] at field
  rw [ReadsBack, reply_line_tcp host tcp, parse_transport_line, line, one, field, tcp]
  exact ⟨rfl, rfl, rfl, rfl⟩

/-- Over UDP it has one transport if the URI has no comma, and this is still UDP if none of
the parameters in the URI is multicast. -/
theorem readsBack_udp (env : Env) (lower_transport uri : List Byte) {msg : RTSPMessageHeader}
    {th : RTSPTransportField} (recording : Recording msg th) (udp : th.lower_transport = .UDP) :
    ReadsBack env lower_transport (reply_line uri th) th ↔ Undisturbing uri := by
  have notTcp : th.lower_transport ≠ .TCP := by
    rw [udp]
    decide
  rw [ReadsBack, reply_line_udp uri notTcp, parse_transport_line]
  by_cases comma : ch ',' ∈ uri
  · -- The comma starts a second transport.
    refine iff_of_false ?_ fun undisturbing => undisturbing.1 comma
    rintro ⟨one, -⟩
    obtain ⟨before, after, rfl, word⟩ := List.eq_append_cons_of_mem comma
    have clear : ch ',' ∉ bytes "AVP/UDP;unicast;mode=receive;source=" ++ before :=
      List.not_mem_append (by decide) word
    have text : bytes " RTP/AVP/UDP;" ++ udpParameters (before ++ ch ',' :: after) th =
        (bytes " RTP" ++ ch '/' :: (bytes "AVP/UDP;unicast;mode=receive;source=" ++ before)) ++
          ch ',' :: (after ++ ch ';' :: (bytes "client_port=" ++
            (ports th.client_port_min th.client_port_max ++ ch ';' ::
              bytes "server_port=1000-1001"))) := by
      simp [udpParameters, bytes, ch]
    rw [text] at one
    refine parse_several env lower_transport (specification_rtp clear) ?_ one
    intro none_
    have blank := List.dropWhile_eq_nil_iff.mp none_ (ch ';') (by simp)
    exact absurd blank (by decide)
  · have clear : ch ',' ∉ bytes "AVP/UDP;" ++ udpParameters uri th := by
      have ports := ports_free th.client_port_min th.client_port_max
        (show isdigit (ch ',') = false ∧ ch ',' ≠ ch '-' by decide)
      have left : ch ',' ∉ bytes "AVP/UDP;unicast;mode=receive;source=" := by decide
      have middle : ch ',' ∉ ch ';' :: bytes "client_port=" := by decide
      have right : ch ',' ∉ ch ';' :: bytes "server_port=1000-1001" := by decide
      have whole := List.not_mem_append left (List.not_mem_append comma
        (List.not_mem_append middle (List.not_mem_append ports right)))
      simpa [udpParameters, bytes, ch] using whole
    obtain ⟨one, field⟩ := parse_one env lower_transport (specification_rtp clear)
    have fields : specified env .zero lower_transport
        (bytes " RTP" ++ ch '/' :: (bytes "AVP/UDP;" ++ udpParameters uri th)) =
          (assignments env (udpParameters uri th)).foldl Assignment.apply (lineField .UDP) := rfl
    have line : bytes " RTP/AVP/UDP;" ++ udpParameters uri th =
        bytes " RTP" ++ ch '/' :: (bytes "AVP/UDP;" ++ udpParameters uri th) := rfl
    obtain ⟨source, assigned⟩ := assignments_udp env uri recording
    rw [fields] at field
    have still := foldl_udp (assignments env (udpParameters uri th)) (lineField .UDP)
    have multicast : .multicast ∈ assignments env (udpParameters uri th) ↔
        ∃ parameter ∈ (uri.splitOn (ch ';')).tail,
          (get_word_sep 16 (bytes "=;,") parameter).1 = bytes "multicast" := by
      simp only [assigned, List.mem_append, List.mem_cons, List.mem_map, reduceCtorEq,
        List.not_mem_nil, or_false, false_or, assignment_multicast]
    have client_port : ((assignments env (udpParameters uri th)).foldl Assignment.apply
        (lineField .UDP)).client_port_min = th.client_port_min ∧
        ((assignments env (udpParameters uri th)).foldl Assignment.apply
          (lineField .UDP)).client_port_max = th.client_port_max := by
      rw [assigned, List.foldl_append, List.foldl_append]
      exact ⟨rfl, rfl⟩
    rw [line, one, field, if_neg notTcp, udp, still, multicast]
    constructor
    · rintro ⟨-, ⟨-, none_⟩, -⟩
      exact ⟨comma, fun parameter inside name => none_ ⟨parameter, inside, name⟩⟩
    · rintro ⟨-, none_⟩
      refine ⟨rfl, ⟨rfl, ?_⟩, client_port⟩
      rintro ⟨parameter, inside, name⟩
      exact none_ parameter inside name

/-! ### The reply -/

theorem AcceptedUri.short {uri : List Byte} (accepted : AcceptedUri uri) : uri.length ≤ 499 := by
  obtain ⟨state, memory, uri₀, method₀, methodcode, parsed, rfl⟩ := accepted
  obtain ⟨method, uri, tail, text, accepted⟩ := accepted_of_parse (notMem_cstring memory) parsed
  have free := notMem_cstring memory
  rw [text] at free ⊢
  obtain ⟨method_free, uri_free⟩ := (accepted.grammatical tail).words_free free
  have fits := accepted.uri_fits
  rw [accepted.parse_eq method_free, Buffer.string_store _ (by omega), cstring_of_notMem uri_free]
  exact fits

theorem transport_line_fits {msg : RTSPMessageHeader} {th : RTSPTransportField}
    (recording : Recording msg th) {uri : List Byte} (short : uri.length ≤ 499) :
    (transport_line uri th).length < 1024 := by
  obtain ⟨⟨a, b⟩, c, d⟩ := recording.interleaved
  obtain ⟨⟨e, f⟩, g, h⟩ := recording.client_port
  have interleaved_min := signedText_length a b
  have interleaved_max := signedText_length c d
  have client_port_min := signedText_length e f
  have client_port_max := signedText_length g h
  have local_ : (unsignedText localport).length = 4 ∧
      (unsignedText (localport + 1)).length = 4 := by decide
  have tcp : (bytes "Transport: RTP/AVP/TCP;unicast;mode=receive;interleaved=").length = 56 := by
    decide
  have udp : (bytes "Transport: RTP/AVP/UDP;unicast;mode=receive;source=").length = 51 := by
    decide
  have client_port : (bytes ";client_port=").length = 13 := by decide
  have server_port : (bytes ";server_port=").length = 13 := by decide
  have rest : (bytes "-").length = 1 ∧ (bytes "\r\n").length = 2 := by decide
  rw [transport_line]
  split
  · simp only [List.length_append, tcp, rest]
    omega
  · simp only [List.length_append, udp, client_port, server_port, local_, rest]
    omega

/-- The reply to SETUP has the line for the first transport at its front. -/
theorem setup_reply_line {r : Session} {th : RTSPTransportField}
    (recording : Recording r.m_RtspReplyMessage th) (host : List Byte) :
    ∃ session reply rest, rtsp_setup_reply r host = (session, [reply]) ∧
      reply.extracontent = transport_line host th ++ rest := by
  have some_ : ¬ r.m_RtspReplyMessage.nb_transports = 0 := Nat.ne_of_gt recording.some_
  have all : (r.m_RtspReplyMessage.transports.take r.m_RtspReplyMessage.nb_transports).any
      (fun th => !th.mode_record || (th.lower_transport ≠ .UDP && th.lower_transport ≠ .TCP)) =
        false := by
    rw [List.any_eq_false]
    intro t inside
    obtain ⟨record, udp | tcp⟩ := recording.all t inside
    · simp [record, udp]
    · simp [record, tcp]
  have found : status_messages.lookup RTSP_STATUS_OK = some (bytes "OK") := by decide
  have appended (dst src : List Byte) (size : Nat) : ∃ rest, av_strlcat dst src size =
      dst ++ rest := by
    rw [av_strlcat]
    split
    · exact ⟨[], (List.append_nil dst).symm⟩
    · exact ⟨_, rfl⟩
  simp only [rtsp_setup_reply, if_neg some_, all, Bool.false_eq_true, if_false, rtsp_send_reply,
    found, Option.map_some, Option.toList_some, recording.first]
  obtain ⟨rest, same⟩ := appended (transport_line host th) _ 1024
  exact ⟨_, _, rest, rfl, same⟩

/-- The Transport line of a SETUP reply is read back exactly when it is for TCP, or the URI
that it holds for UDP does not disturb it. -/
theorem readsBack_iff (env : Env) (lower_transport : List Byte) {r : Session}
    {th : RTSPTransportField} (recording : Recording r.m_RtspReplyMessage th) {uri : List Byte}
    (accepted : AcceptedUri uri) :
    ((∃ session reply rest, rtsp_setup_reply r uri = (session, [reply]) ∧
        reply.extracontent = transport_line uri th ++ rest) ∧
      (transport_line uri th).length < 1024) ∧
    (ReadsBack env lower_transport (reply_line uri th) th ↔
      th.lower_transport = .TCP ∨ Undisturbing uri) := by
  refine ⟨⟨setup_reply_line recording uri, transport_line_fits recording accepted.short⟩, ?_⟩
  have member : th ∈ r.m_RtspReplyMessage.transports.take r.m_RtspReplyMessage.nb_transports := by
    have some_ := recording.some_
    have size := recording.size
    rw [← recording.first]
    cases transports : r.m_RtspReplyMessage.transports with
    | nil => simp [transports, RTSP_MAX_TRANSPORTS] at size
    | cons t rest =>
      obtain ⟨n, count⟩ := Nat.exists_eq_succ_of_ne_zero (Nat.ne_of_gt some_)
      simp [count]
  rcases (recording.all th member).2 with udp | tcp
  · have notTcp : th.lower_transport ≠ .TCP := by
      rw [udp]
      decide
    rw [readsBack_udp env lower_transport uri recording udp]
    simp [notTcp]
  · exact iff_of_true (readsBack_tcp env lower_transport uri recording tcp) (.inl tcp)

/-- A record with one transport. -/
def oneTransport (th : RTSPTransportField) : RTSPMessageHeader :=
  { RTSPMessageHeader.zero with
    transports := RTSPMessageHeader.zero.transports.set 0 th
    nb_transports := 1 }

theorem recording_oneTransport {th : RTSPTransportField} (record : th.mode_record = true)
    (lower : th.lower_transport = .UDP ∨ th.lower_transport = .TCP)
    (interleaved : (-2 ^ 31 ≤ th.interleaved_min ∧ th.interleaved_min < 2 ^ 31) ∧
      -2 ^ 31 ≤ th.interleaved_max ∧ th.interleaved_max < 2 ^ 31)
    (client_port : (-2 ^ 31 ≤ th.client_port_min ∧ th.client_port_min < 2 ^ 31) ∧
      -2 ^ 31 ≤ th.client_port_max ∧ th.client_port_max < 2 ^ 31) :
    Recording (oneTransport th) th := by
  refine ⟨by simp [oneTransport], by simp [oneTransport, RTSP_MAX_TRANSPORTS], rfl, ?_, rfl,
    interleaved, client_port⟩
  intro t inside
  obtain rfl : t = th := by simpa [oneTransport, RTSPMessageHeader.zero, RTSP_MAX_TRANSPORTS,
    List.replicate] using inside
  exact ⟨record, lower⟩

def udpField : RTSPTransportField :=
  { RTSPTransportField.zero with
    mode_record := true
    client_port_min := 5000
    client_port_max := -1 }

def setupSession (th : RTSPTransportField) : Session :=
  ⟨1, .IDLE, oneTransport th, .SETUP, .zero _⟩

theorem acceptedUri_of_request {uri : List Byte}
    (parsed : (parse_command_line .IDLE
      (cstring (bytes "OPTIONS " ++ uri ++ bytes " RTSP/1.0")) (.zero _) (.zero _) .UNKNOWN).ret =
        0 ∧
      (parse_command_line .IDLE
        (cstring (bytes "OPTIONS " ++ uri ++ bytes " RTSP/1.0")) (.zero _) (.zero _)
          .UNKNOWN).uri.string = uri) :
    AcceptedUri uri :=
  ⟨.IDLE, _, _, _, _, parsed⟩

/-- A URI with a query is read back. -/
theorem reads_query_back :
    let uri := bytes "rtsp://a/b;c=1"
    ReadsBack .blank [] (reply_line uri udpField) udpField := by
  intro uri
  have recording : Recording (setupSession udpField).m_RtspReplyMessage udpField :=
    recording_oneTransport rfl (.inl rfl) (by decide) (by decide)
  have accepted : AcceptedUri uri := acceptedUri_of_request (by decide +kernel)
  have both := readsBack_iff .blank [] recording accepted
  exact both.2.mpr (.inr ⟨by decide, by decide⟩)

/-- A URI with a comma gives two transports, and one with a parameter multicast gives a
transport over multicast. -/
theorem disturbed_lines :
    ((AcceptedUri (bytes "rtsp://a/b,c") ∧ Recording (oneTransport udpField) udpField) ∧
      ¬ ReadsBack .blank [] (reply_line (bytes "rtsp://a/b,c") udpField) udpField) ∧
    AcceptedUri (bytes "rtsp://a/b;multicast") ∧
      ¬ ReadsBack .blank [] (reply_line (bytes "rtsp://a/b;multicast") udpField) udpField := by
  have recording : Recording (oneTransport udpField) udpField :=
    recording_oneTransport rfl (.inl rfl) (by decide) (by decide)
  have comma := readsBack_udp .blank [] (bytes "rtsp://a/b,c") recording rfl
  have multicast := readsBack_udp .blank [] (bytes "rtsp://a/b;multicast") recording rfl
  refine ⟨⟨⟨acceptedUri_of_request (by decide +kernel), recording⟩, ?_⟩,
    acceptedUri_of_request (by decide +kernel), ?_⟩
  · rw [comma]
    rintro ⟨none_, -⟩
    exact none_ (by decide)
  · rw [multicast]
    rintro ⟨-, none_⟩
    exact none_ (bytes "multicast") (by decide) (by decide)

end TestIOCP.Rtsp
