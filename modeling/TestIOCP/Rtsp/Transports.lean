import TestIOCP.Rtsp.Words

/-! What a Transport header makes of the header record. A specification assigns to the
parts of its field that its parameters name; the other parts stay as they were. -/
namespace TestIOCP.Rtsp
open CString

/-- What one parameter of a specification does. -/
inductive Assignment where
  | port (min max : Int)
  | client_port (min max : Int)
  | server_port (min max : Int)
  | interleaved (min max : Int)
  | multicast
  | ttl (value : Int)
  | destination (addr : List Byte)
  | source (buf : List Byte)
  | mode_record
  | nothing
  deriving DecidableEq, Repr

namespace Assignment

def apply (th : RTSPTransportField) : Assignment → RTSPTransportField
  | port port_min port_max => { th with port_min, port_max }
  | client_port client_port_min client_port_max => { th with client_port_min, client_port_max }
  | server_port server_port_min server_port_max => { th with server_port_min, server_port_max }
  | interleaved interleaved_min interleaved_max => { th with interleaved_min, interleaved_max }
  | multicast => if th.lower_transport = .UDP then
    { th with lower_transport := .UDP_MULTICAST } else th
  | ttl value => { th with ttl := value }
  | destination addr => { th with destination := th.destination.copy addr }
  | source buf => { th with source := av_strlcpy th.source buf }
  | mode_record => { th with mode_record := true }
  | nothing => th

end Assignment

/-- The assignment of a parameter whose name has been read. -/
def assignmentOf (env : Env) (parameter p : List Byte) : Assignment :=
  let valued (make : List Byte → Assignment) : Assignment :=
    if deref p = ch '=' then make p.tail else .nothing
  let range (make : Int → Int → Assignment) : Assignment :=
    valued fun q => make (rtsp_parse_range q).1 (rtsp_parse_range q).2.1
  if parameter = bytes "port" then range .port
  else if parameter = bytes "client_port" then range .client_port
  else if parameter = bytes "server_port" then range .server_port
  else if parameter = bytes "interleaved" then range .interleaved
  else if parameter = bytes "multicast" then .multicast
  else if parameter = bytes "ttl" then valued fun q => .ttl (strtol q).value
  else if parameter = bytes "destination" then
    valued fun q => match env.getaddrinfo (get_word_sep 256 (bytes ";,") q).1 with
      | none => .nothing
      | some addr => .destination addr
  else if parameter = bytes "source" then valued fun q =>
    .source (get_word_sep 256 (bytes ";,") q).1
  else if parameter = bytes "mode" then
    valued fun q =>
      if (get_word_sep 256 (bytes ";, ") q).1 = bytes "record" ∨
          (get_word_sep 256 (bytes ";, ") q).1 = bytes "receive" then .mode_record
      else .nothing
  else .nothing

/-- The assignment of a parameter. -/
def assignment (env : Env) (text : List Byte) : Assignment :=
  let (parameter, p) := get_word_sep 16 (bytes "=;,") text
  assignmentOf env parameter p

theorem transport_parameter_apply (env : Env) (th : RTSPTransportField) (parameter p : List Byte) :
    (transport_parameter env th parameter p).1 = (assignmentOf env parameter p).apply th := by
  simp only [transport_parameter, assignmentOf, apply_ite Prod.fst, apply_ite (Assignment.apply th)]
  iterate 6
    refine ite_congr rfl (fun _ => ?_) (fun _ => ?_)
    · rfl
  refine ite_congr rfl (fun _ => ?_) (fun _ => ?_)
  · refine ite_congr rfl (fun _ => ?_) (fun _ => rfl)
    cases env.getaddrinfo (get_word_sep 256 (bytes ";,") p.tail).1 <;> rfl
  iterate 2
    refine ite_congr rfl (fun _ => ?_) (fun _ => ?_)
    · rfl
  rfl

/-- Where a parameter whose name has been read leaves the pointer. -/
def pointerOf (parameter p : List Byte) : List Byte :=
  if deref p = ch '=' then
    if parameter ∈ [bytes "port", bytes "client_port", bytes "server_port",
        bytes "interleaved"] then
      (rtsp_parse_range p.tail).2.2
    else if parameter = bytes "ttl" then (strtol p.tail).rest
    else if parameter = bytes "destination" ∨ parameter = bytes "source" then
      (get_word_sep 256 (bytes ";,") p.tail).2
    else if parameter = bytes "mode" then (get_word_sep 256 (bytes ";, ") p.tail).2
    else p
  else p

theorem transport_parameter_pointer (env : Env) (th : RTSPTransportField)
    (parameter p : List Byte) :
    (transport_parameter env th parameter p).2 = pointerOf parameter p := by
  by_cases valued : deref p = ch '='
  · simp only [transport_parameter, pointerOf, valued, if_true, apply_ite Prod.snd, ite_self]
    by_cases port : parameter = bytes "port"
    · subst port; rfl
    by_cases client_port : parameter = bytes "client_port"
    · subst client_port; rfl
    by_cases server_port : parameter = bytes "server_port"
    · subst server_port; rfl
    by_cases interleaved : parameter = bytes "interleaved"
    · subst interleaved; rfl
    by_cases multicast : parameter = bytes "multicast"
    · subst multicast; rfl
    by_cases ttl : parameter = bytes "ttl"
    · subst ttl; rfl
    by_cases destination : parameter = bytes "destination"
    · subst destination
      cases env.getaddrinfo (get_word_sep 256 (bytes ";,") p.tail).1 <;> rfl
    by_cases source : parameter = bytes "source"
    · subst source; rfl
    by_cases mode : parameter = bytes "mode"
    · subst mode; rfl
    simp only [port, client_port, server_port, interleaved, multicast, ttl, destination,
      source, mode, if_false,
      List.mem_cons, List.not_mem_nil, or_self]
  · simp only [transport_parameter, pointerOf, valued, if_false, apply_ite Prod.snd, ite_self]

/-- A parameter is read up to the next semicolon or comma at most. -/
theorem assignmentOf_stops (env : Env) (parameter : List Byte) {s more : List Byte}
    (clear : Clear [ch ';', ch ','] s) (ends : Ends [ch ';', ch ','] more) :
    assignmentOf env parameter (s ++ more) = assignmentOf env parameter s ∧
      pointerOf parameter (s ++ more) = pointerOf parameter s ++ more ∧
      Clear [ch ';', ch ','] (pointerOf parameter s) := by
  have separators := separators_parameter
  have equals := deref_stops (s := s) separators.not_mark.2 (by decide) ends
  by_cases valued : deref s = ch '='
  · have clear_tail := clear.suffix (List.tail_suffix s)
    obtain ⟨range, clear_range⟩ := separators.rtsp_parse_range clear_tail ends
    obtain ⟨number, clear_number⟩ := separators.strto 32 clear_tail ends
    obtain ⟨word, clear_word⟩ := separators.get_word_sep 256 (bytes ";,")
      (by decide) _ _ clear_tail ends
    obtain ⟨mode, clear_mode⟩ := separators.get_word_sep 256 (bytes ";, ")
      (by decide) _ _ clear_tail ends
    have tail : (s ++ more).tail = s.tail ++ more := tail_stops valued (by decide)
    refine ⟨?_, ?_, ?_⟩
    · simp only [assignmentOf, strtol, equals, valued, if_true, tail, range, number, word, mode]
    · simp only [pointerOf, strtol, equals, valued, if_true, tail, range, number, word, mode]
      repeat' split
      all_goals rfl
    · simp only [pointerOf, strtol, valued, if_true]
      repeat' split
      all_goals assumption
  · refine ⟨?_, ?_, ?_⟩
    · simp only [assignmentOf, equals, valued, if_false]
    · simp only [pointerOf, equals, valued, if_false]
    · simpa only [pointerOf, valued, if_false] using clear

/-- One pass of the parameter loop. -/
theorem parameter_pass (env : Env) {text more : List Byte} (clear : Clear [ch ';', ch ','] text)
    (ends : Ends [ch ';', ch ','] more) (th : RTSPTransportField) :
    let word := get_word_sep 16 (bytes "=;,") (text ++ more)
    (transport_parameter env th word.1 word.2).1 = (assignment env text).apply th ∧
      (transport_parameter env th word.1 word.2).2.dropWhile (fun c => c ≠ ch ';' && c ≠
          ch ',') = more := by
  intro word
  obtain ⟨name, clear_rest⟩ := separators_parameter.get_word_sep 16 (bytes "=;,")
    (by decide) _ _ clear ends
  obtain ⟨assigns, moves, clear_pointer⟩ := assignmentOf_stops env
    (get_word_sep 16 (bytes "=;,") text).1 clear_rest ends
  simp only [word, name, transport_parameter_apply, transport_parameter_pointer, assigns, moves,
    assignment, true_and]
  rw [List.dropWhile_append_of_pos]
  · cases more with
    | nil => rfl
    | cons c rest =>
      have separator := ends c rfl
      rw [List.dropWhile_cons_of_neg]
      simpa [or_iff_not_imp_left] using separator
  · intro c inside
    have other := clear_pointer c inside
    simpa using other

/-- The loop stops at a comma and at the end. -/
theorem transport_parameters_stop (env : Env) {more : List Byte}
    (ends : Ends [ch ','] more) (fuel : Nat)
    (th : RTSPTransportField) : transport_parameters env fuel th more = (th, more) := by
  cases fuel with
  | zero => rfl
  | succ fuel =>
    rw [transport_parameters, if_pos]
    cases more with
    | nil => exact .inl rfl
    | cons c rest => exact .inr (List.mem_singleton.mp (ends c rfl))

/-- What the parameters of a specification assign. -/
def assignments (env : Env) (text : List Byte) : List Assignment :=
  (text.splitOn (ch ';')).map (assignment env)

theorem assignment_nil (env : Env) : assignment env [] = .nothing := by
  have name : get_word_sep 16 (bytes "=;,") [] = ([], []) := by decide
  rw [assignment, name]
  rfl

/-- The parameter loop applies the assignments one after the other. -/
theorem transport_parameters_spec (env : Env) {text more : List Byte} (clear : Clear [ch ','] text)
    (ends : Ends [ch ','] more) {fuel : Nat} (enough : text.length ≤ fuel)
    (th : RTSPTransportField) :
    transport_parameters env fuel th (text ++ more) =
      ((assignments env text).foldl Assignment.apply th, more) := by
  induction fuel generalizing text th with
  | zero =>
    obtain rfl : text = [] := List.length_eq_zero_iff.mp (by omega)
    simp only [List.nil_append, transport_parameters_stop env ends, assignments,
      List.splitOn_nil, List.map_cons,
      List.map_nil, assignment_nil, List.foldl_cons, List.foldl_nil, Assignment.apply]
  | succ fuel ih =>
    cases started : text with
    | nil =>
      simp only [List.nil_append, transport_parameters_stop env ends, assignments,
        List.splitOn_nil, List.map_cons,
        List.map_nil, assignment_nil, List.foldl_cons, List.foldl_nil, Assignment.apply]
    | cons c text' =>
      rw [← started]
      have goes_on : ¬ (text ++ more = [] ∨ deref (text ++ more) = ch ',') := by
        rw [started]
        rintro (none_ | comma)
        · cases none_
        · exact clear c (by simp [started]) (List.mem_singleton.mpr comma)
      simp only [transport_parameters, if_neg goes_on]
      by_cases several : ch ';' ∈ text
      · obtain ⟨first, rest, rfl, word⟩ := List.eq_append_cons_of_mem several
        have clear_first : Clear [ch ';', ch ','] first := by
          intro d inside
          have comma := clear d (List.mem_append_left _ inside)
          simp only [List.mem_cons, List.not_mem_nil, or_false, not_or] at comma ⊢
          exact ⟨fun same => word (same ▸ inside), comma⟩
        have clear_rest : Clear [ch ','] rest :=
          clear.suffix ((List.suffix_cons _ rest).trans (List.suffix_append first _))
        have stops : Ends [ch ';', ch ','] (ch ';' :: (rest ++ more)) := by simp [Ends]
        obtain ⟨assigns, moves⟩ := parameter_pass env clear_first stops th
        rw [List.append_assoc, List.cons_append, assigns, moves,
          if_pos (show deref (ch ';' :: (rest ++ more)) = ch ';' from rfl), List.tail_cons]
        have others := ih clear_rest (by simp only [List.length_append,
            List.length_cons] at enough; omega)
          ((assignment env first).apply th)
        rw [others, assignments, assignments, List.splitOn_append_cons_self,
          List.splitOn_eq_singleton word]
        rfl
      · have clear_text : Clear [ch ';', ch ','] text := by
          intro d inside
          have comma := clear d inside
          simp only [List.mem_cons, List.not_mem_nil, or_false, not_or] at comma ⊢
          exact ⟨fun same => several (same ▸ inside), comma⟩
        have ends_text : Ends [ch ';', ch ','] more := fun d head =>
          List.mem_cons_of_mem _ (ends d head)
        have ended : ¬ deref more = ch ';' := by
          cases more with
          | nil => decide
          | cons d rest =>
            obtain rfl := List.mem_singleton.mp (ends d rfl)
            exact show ¬ ch ',' = ch ';' by decide
        obtain ⟨assigns, moves⟩ := parameter_pass env clear_text ends_text th
        rw [assigns, moves, if_neg ended, transport_parameters_stop env ends, assignments,
          List.splitOn_eq_singleton several]
        rfl

/-- A specification of a Transport header: a protocol, a slash, and what follows it. -/
structure Specification (s : List Byte) : Prop where
  form : ∃ protocol rest, s = protocol ++ ch '/' :: rest ∧ ch '/' ∉ protocol ∧
    ∃ c ∈ protocol, c ∉ SPACE_CHARS
  clear : Clear [ch ','] s

/-- The protocol of a specification, and the text after it. -/
def protocolOf (s : List Byte) : List Byte × List Byte :=
  get_word_sep 16 (bytes "/") (skip SPACE_CHARS s)

/-- The transport of a protocol, if rtsp_parse_transport knows it. -/
def transportOf (s : List Byte) : Option RTSPTransport :=
  if av_strcaseeq (protocolOf s).1 (bytes "rtp") then some .RTP
  else if av_strcaseeq (protocolOf s).1 (bytes "x-pn-tng") ∨
      av_strcaseeq (protocolOf s).1 (bytes "x-real-rdt") then some .RDT
  else if av_strcaseeq (protocolOf s).1 (bytes "raw") then some .RAW
  else none

/-- The lower transport that a specification names, and the text after it. -/
def lowerOf (s : List Byte) : List Byte × List Byte :=
  match transportOf s with
  | none => ([], (protocolOf s).2)
  | some .RDT => get_word_sep 16 (bytes "/;,") (protocolOf s).2
  | some .RTP | some .RAW =>
    let (_, p) := get_word_sep 16 (bytes "/;,") (protocolOf s).2
    if deref p = ch '/' then get_word_sep 16 (bytes ";,") p else ([], p)

/-- What is in the buffer lower_transport after a specification. -/
def lowerAfter (lower_transport s : List Byte) : List Byte :=
  if (transportOf s).isSome then (lowerOf s).1 else lower_transport

/-- The parameters of a specification. -/
def parametersOf (s : List Byte) : List Byte :=
  if deref (lowerOf s).2 = ch ';' then (lowerOf s).2.tail else (lowerOf s).2

/-- What a specification makes of a field. -/
def specified (env : Env) (th : RTSPTransportField) (lower_transport s : List Byte) :
    RTSPTransportField :=
  (assignments env (parametersOf s)).foldl Assignment.apply
    { th with
      mode_record := true
      transport := (transportOf s).getD th.transport
      lower_transport := if av_strcaseeq (lowerAfter lower_transport s) (bytes "TCP") then
        .TCP else .UDP }

namespace Specification
variable {s more : List Byte}

theorem protocol (spec : Specification s) (ends : Ends [ch ','] more) :
    skip SPACE_CHARS (s ++ more) ≠ [] ∧
      get_word_sep 16 (bytes "/") (skip SPACE_CHARS (s ++ more)) =
        ((protocolOf s).1, (protocolOf s).2 ++ more) ∧
      Clear [ch ','] (protocolOf s).2 := by
  obtain ⟨protocol, rest, rfl, word, c, inside, letter⟩ := spec.form
  obtain ⟨skipped, clear⟩ := separators_specification.skip spec.clear ends
  -- The protocol after its leading blanks.
  have started : protocol.dropWhile SPACE_CHARS.contains ≠ [] := by
    intro none_
    rw [List.dropWhile_eq_nil_iff] at none_
    exact letter (by simpa using none_ c inside)
  have left : skip SPACE_CHARS (protocol ++ ch '/' :: rest) =
      protocol.dropWhile SPACE_CHARS.contains ++ ch '/' :: rest := by
    rw [skip, List.dropWhile_append]
    simp [started]
  obtain ⟨d, tail, first⟩ := List.exists_cons_of_ne_nil started
  have word' : ch '/' ∉ d :: tail := first ▸ fun inside =>
    word ((List.dropWhile_suffix _).subset inside)
  have not_space : SPACE_CHARS.contains d = false := by
    have head := List.head_dropWhile_not SPACE_CHARS.contains started
    simpa [first] using head
  have not_slash : ¬ d = ch '/' := fun same => word' (same ▸ List.mem_cons_self)
  have free : ∀ x ∈ d :: tail, (!(bytes "/").contains x) = true := by
    intro x inside
    have other : x ≠ ch '/' := fun same => word' (same ▸ inside)
    simpa [bytes, ch] using other
  have read (t : List Byte) : get_word_sep 16 (bytes "/") (d :: (tail ++ ch '/' :: t)) =
      ((d :: tail).take 15, ch '/' :: t) := by
    have stop : (!(bytes "/").contains (ch '/')) = false := by decide
    rw [get_word_sep, if_neg (show ¬ deref (d :: (tail ++ ch '/' :: t)) = ch '/' from not_slash),
      get_word_until_chars, skip, List.dropWhile_cons_of_neg (by rw [not_space]; decide),
      ← List.cons_append, List.takeWhile_append_of_pos free, List.dropWhile_append_of_pos free]
    simp only [List.takeWhile_cons, List.dropWhile_cons, stop, Bool.false_eq_true, if_false,
      List.append_nil]
  refine ⟨?_, ?_, ?_⟩
  · rw [skipped, left, first]
    simp
  · rw [skipped, protocolOf, left, first]
    simp only [List.append_assoc, List.cons_append, read]
  · rw [protocolOf, left, first, List.cons_append, read]
    exact clear.suffix (by rw [left]; exact List.suffix_append _ _)

/-- The protocol part leaves a pointer into the specification. -/
theorem transport_protocol_spec (spec : Specification s) (ends : Ends [ch ','] more)
    (th : RTSPTransportField)
    (lower_transport : List Byte) :
    transport_protocol th lower_transport (skip SPACE_CHARS (s ++ more)) =
        ({ th with transport := (transportOf s).getD th.transport }, lowerAfter lower_transport s,
          (lowerOf s).2 ++ more) ∧
      Clear [ch ','] (lowerOf s).2 := by
  obtain ⟨-, name, clear⟩ := spec.protocol ends
  obtain ⟨profile, clear_profile⟩ :=
    separators_specification.get_word_sep 16 (bytes "/;,") (by decide) _ _ clear ends
  have slash := deref_stops (s := (get_word_sep 16 (bytes "/;,") (protocolOf s).2).2) (c := ch '/')
    (by decide) (by decide) ends
  obtain ⟨lower, clear_lower⟩ :=
    separators_specification.get_word_sep 16 (bytes ";,") (by decide) _ _ clear_profile ends
  simp only [transport_protocol, name, profile, transportOf, lowerAfter, lowerOf]
  by_cases rtp : av_strcaseeq (protocolOf s).1 (bytes "rtp") = true
  · simp only [rtp, if_true, Option.isSome_some, Option.getD_some]
    by_cases third : deref (get_word_sep 16 (bytes "/;,") (protocolOf s).2).2 = ch '/'
    · simp only [slash, third, if_true, lower]
      exact ⟨trivial, clear_lower⟩
    · simp only [slash, third, if_false]
      exact ⟨trivial, clear_profile⟩
  by_cases rdt : av_strcaseeq (protocolOf s).1 (bytes "x-pn-tng") = true ∨
      av_strcaseeq (protocolOf s).1 (bytes "x-real-rdt") = true
  · simp only [rtp, rdt, if_true, if_false, Bool.false_eq_true, Option.isSome_some,
      Option.getD_some]
    exact ⟨trivial, clear_profile⟩
  by_cases raw : av_strcaseeq (protocolOf s).1 (bytes "raw") = true
  · simp only [rtp, rdt, raw, if_true, if_false, Bool.false_eq_true, Option.isSome_some,
      Option.getD_some]
    by_cases third : deref (get_word_sep 16 (bytes "/;,") (protocolOf s).2).2 = ch '/'
    · simp only [slash, third, if_true, lower]
      exact ⟨trivial, clear_lower⟩
    · simp only [slash, third, if_false]
      exact ⟨trivial, clear_profile⟩
  · simp only [rtp, rdt, raw, if_false, Option.isSome_none, Option.getD_none, Bool.false_eq_true]
    exact ⟨trivial, clear⟩

/-- One pass of the outer loop sets one field. -/
theorem pass (spec : Specification s) (ends : Ends [ch ','] more) (env : Env) (room : Nat)
    (msg : RTSPMessageHeader) (lower_transport : List Byte) :
    parse_transports env (room + 1) msg lower_transport (s ++ more) =
      parse_transports env room
        { msg with
          transports := msg.transports.set msg.nb_transports
            (specified env (msg.transports.getD msg.nb_transports .zero) lower_transport s)
          nb_transports := msg.nb_transports + 1 }
        (lowerAfter lower_transport s) (if deref more = ch ',' then more.tail else more) := by
  obtain ⟨started, -, -⟩ := spec.protocol ends
  obtain ⟨protocol, clear⟩ := spec.transport_protocol_spec ends
    { msg.transports.getD msg.nb_transports .zero with mode_record := true } lower_transport
  have semicolon := deref_stops (s := (lowerOf s).2) (c := ch ';') (by decide) (by decide) ends
  have parameters : (if deref ((lowerOf s).2 ++ more) = ch ';' then ((lowerOf s).2 ++ more).tail
      else (lowerOf s).2 ++ more) = parametersOf s ++ more := by
    simp only [parametersOf, semicolon]
    split
    · rename_i here
      exact tail_stops here (by decide)
    · rfl
  have clear_parameters : Clear [ch ','] (parametersOf s) := by
    simp only [parametersOf]
    split
    · exact clear.suffix (List.tail_suffix _)
    · exact clear
  simp only [parse_transports, if_neg started, protocol, parameters]
  rw [transport_parameters_spec env clear_parameters ends (by simp), specified]

end Specification

/-- The value of a header with some specifications. -/
def headerText : List (List Byte) → List Byte
  | [] => []
  | [s] => s
  | s :: specs => s ++ ch ',' :: headerText specs

/-- What is in the buffer lower_transport after some specifications. -/
def lowerBefore (lower_transport : List Byte) (specs : List (List Byte)) : List Byte :=
  specs.foldl lowerAfter lower_transport

theorem headerText_cons (s : List Byte) (specs : List (List Byte)) :
    ∃ more, headerText (s :: specs) = s ++ more ∧ Ends [ch ','] more ∧
      (if deref more = ch ',' then more.tail else more) = headerText specs := by
  cases specs with
  | nil => exact ⟨[], by simp [headerText], by simp [Ends], rfl⟩
  | cons other specs => exact ⟨ch ',' :: headerText (other :: specs), rfl, by simp [Ends], rfl⟩

/-- The loop sets one field after the other. -/
theorem parse_transports_spec (env : Env) {specs : List (List Byte)}
    (all : ∀ s ∈ specs, Specification s)
    {room : Nat} (few : specs.length ≤ room) (msg : RTSPMessageHeader)
    (fits : msg.nb_transports + specs.length ≤ msg.transports.length)
    (lower_transport : List Byte) :
    let after := parse_transports env room msg lower_transport (headerText specs)
    after.nb_transports = msg.nb_transports + specs.length ∧
      (∀ i s, specs[i]? = some s → after.transports.getD (msg.nb_transports + i) .zero =
        specified env (msg.transports.getD (msg.nb_transports + i) .zero)
          (lowerBefore lower_transport (specs.take i)) s) ∧
      ∀ j < msg.nb_transports, after.transports.getD j .zero = msg.transports.getD j .zero := by
  induction specs generalizing room msg lower_transport with
  | nil =>
    have none_ : parse_transports env room msg lower_transport (headerText []) = msg := by
      cases room with
      | zero => rfl
      | succ room => rfl
    rw [none_]
    exact ⟨rfl, fun i s found => by simp at found, fun j _ => rfl⟩
  | cons s specs ih =>
    obtain ⟨here, others⟩ := List.forall_mem_cons.mp all
    obtain ⟨more, text, ends, rest⟩ := headerText_cons s specs
    rw [List.length_cons] at few fits
    obtain ⟨room, rfl⟩ : ∃ n, room = n + 1 := ⟨room - 1, by omega⟩
    rw [text, here.pass ends, rest]
    obtain ⟨number, fields, kept⟩ := ih others (Nat.le_of_succ_le_succ few)
      { msg with
        transports := msg.transports.set msg.nb_transports
          (specified env (msg.transports.getD msg.nb_transports .zero) lower_transport s)
        nb_transports := msg.nb_transports + 1 }
      (by simp only [List.length_set]; omega) (lowerAfter lower_transport s)
    simp only at number fields kept
    refine ⟨?_, ?_, ?_⟩
    · rw [number, List.length_cons]
      omega
    · intro i t found
      cases i with
      | zero =>
        obtain rfl : s = t := by simpa using found
        simp only [Nat.add_zero]
        rw [kept _ (Nat.lt_succ_self _)]
        simp [List.getD_eq_getElem?_getD, show msg.nb_transports < msg.transports.length by omega,
          lowerBefore]
      | succ i =>
        have later := fields i t (by simpa using found)
        rw [show msg.nb_transports + (i + 1) = msg.nb_transports + 1 + i by omega, later]
        congr 1
        rw [List.getD_eq_getElem?_getD,
          List.getElem?_set_ne (by omega), ← List.getD_eq_getElem?_getD]
    · intro j before
      rw [kept j (by omega), List.getD_eq_getElem?_getD, List.getElem?_set_ne (by omega),
        ← List.getD_eq_getElem?_getD]

end TestIOCP.Rtsp
