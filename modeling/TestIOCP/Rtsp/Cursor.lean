import TestIOCP.Rtsp.Transports

/-! rtsp_parse_transport with every move of its cursor checked. A cursor that would pass
the NUL, an index behind the transports and a loop that goes on too long have no result. -/
namespace TestIOCP.Rtsp.Cursor
open CString

/-- p++ on a byte of the string, which is not done on its NUL. -/
def advance : List Byte → Option (List Byte)
  | [] => none
  | _ :: p => some p

/-- p++ after a test of the byte. -/
def advanceOver (c : Byte) (p : List Byte) : Option (List Byte) :=
  if deref p = c then advance p else some p

/-- A loop of p++. -/
def moveWhile (going : Byte → Bool) : Nat → List Byte → Option (List Byte)
  | 0, _ => none
  | fuel + 1, p => if going (deref p) then (advance p).bind (moveWhile going fuel) else some p

/-- The loop of get_word_until_chars, with the bytes that are in buf. -/
def wordLoop (buf_size : Nat) (sep : List Byte) : Nat → List Byte → List Byte →
    Option (List Byte × List Byte)
  | 0, _, _ => none
  | fuel + 1, buf, p =>
    if !sep.contains (deref p) && deref p ≠ 0 then
      let buf := if buf.length < buf_size - 1 then buf ++ [deref p] else buf
      (advance p).bind fun p => wordLoop buf_size sep fuel buf p
    else some (buf, p)

def get_word_sep (fuel buf_size : Nat) (sep p : List Byte) : Option (List Byte × List Byte) :=
  (advanceOver (ch '/') p).bind fun p => wordLoop buf_size sep fuel [] (skip SPACE_CHARS p)

def rtsp_parse_range (q : List Byte) : Option (Int × Int × List Byte) :=
  let v := strtol (skip SPACE_CHARS q)
  if deref v.rest = ch '-' then
    (advance v.rest).map fun p => (v.value, (strtol p).value, (strtol p).rest)
  else some (v.value, v.value, v.rest)

def transport_parameter (fuel : Nat) (env : Env) (th : RTSPTransportField)
    (parameter p : List Byte) : Option (RTSPTransportField × List Byte) :=
  let valued (read : List Byte → Option (RTSPTransportField × List Byte)) :=
    if deref p = ch '=' then (advance p).bind read else some (th, p)
  let range (set : Int → Int → RTSPTransportField) :=
    valued fun p => (rtsp_parse_range p).map fun r => (set r.1 r.2.1, r.2.2)
  if parameter = bytes "port" then
    range fun min max => { th with port_min := min, port_max := max }
  else if parameter = bytes "client_port" then
    range fun min max => { th with client_port_min := min, client_port_max := max }
  else if parameter = bytes "server_port" then
    range fun min max => { th with server_port_min := min, server_port_max := max }
  else if parameter = bytes "interleaved" then
    range fun min max => { th with interleaved_min := min, interleaved_max := max }
  else if parameter = bytes "multicast" then
    some (if th.lower_transport = .UDP then { th with lower_transport := .UDP_MULTICAST } else th,
      p)
  else if parameter = bytes "ttl" then
    valued fun p => some ({ th with ttl := (strtol p).value }, (strtol p).rest)
  else if parameter = bytes "destination" then
    valued fun p => (get_word_sep fuel 256 (bytes ";,") p).map fun word =>
      (match env.getaddrinfo word.1 with
        | none => th
        | some addr => { th with destination := th.destination.copy addr }, word.2)
  else if parameter = bytes "source" then
    valued fun p => (get_word_sep fuel 256 (bytes ";,") p).map fun word =>
      ({ th with source := av_strlcpy th.source word.1 }, word.2)
  else if parameter = bytes "mode" then
    valued fun p => (get_word_sep fuel 256 (bytes ";, ") p).map fun word =>
      (if word.1 = bytes "record" ∨ word.1 = bytes "receive" then { th with mode_record := true }
        else th, word.2)
  else some (th, p)

/-- One pass of the parameter loop. -/
def parameterPass (fuel : Nat) (env : Env) (th : RTSPTransportField) (p : List Byte) :
    Option (RTSPTransportField × List Byte) :=
  (get_word_sep fuel 16 (bytes "=;,") p).bind fun word =>
    (transport_parameter fuel env th word.1 word.2).bind fun field =>
      (moveWhile (fun c => c ≠ ch ';' && c ≠ 0 && c ≠ ch ',') fuel field.2).bind fun p =>
        (advanceOver (ch ';') p).map fun p => (field.1, p)

def transport_parameters (fuel : Nat) (env : Env) : Nat → RTSPTransportField → List Byte →
    Option (RTSPTransportField × List Byte)
  | 0, _, _ => none
  | passes + 1, th, p =>
    if deref p ≠ 0 ∧ deref p ≠ ch ',' then
      (parameterPass fuel env th p).bind fun field =>
        transport_parameters fuel env passes field.1 field.2
    else some (th, p)

def transport_protocol (fuel : Nat) (th : RTSPTransportField) (lower_transport p : List Byte) :
    Option (RTSPTransportField × List Byte × List Byte) :=
  (get_word_sep fuel 16 (bytes "/") p).bind fun transport_protocol =>
    let third (transport : RTSPTransport) : Option (RTSPTransportField × List Byte × List Byte) :=
      (get_word_sep fuel 16 (bytes "/;,") transport_protocol.2).bind fun profile =>
        if deref profile.2 = ch '/' then
          (get_word_sep fuel 16 (bytes ";,") profile.2).map fun lower =>
            ({ th with transport }, lower.1, lower.2)
        else some ({ th with transport }, [], profile.2)
    if av_strcaseeq transport_protocol.1 (bytes "rtp") then third .RTP
    else if av_strcaseeq transport_protocol.1 (bytes "x-pn-tng") ∨
        av_strcaseeq transport_protocol.1 (bytes "x-real-rdt") then
      (get_word_sep fuel 16 (bytes "/;,") transport_protocol.2).map fun lower =>
        ({ th with transport := .RDT }, lower.1, lower.2)
    else if av_strcaseeq transport_protocol.1 (bytes "raw") then third .RAW
    else some (th, lower_transport, transport_protocol.2)

/-- The outer loop. th is the transport with the index nb_transports. -/
def parse_transports (fuel : Nat) (env : Env) : Nat → RTSPMessageHeader → List Byte →
    List Byte → Option RTSPMessageHeader
  | 0, _, _, _ => none
  | passes + 1, msg, lower_transport, p =>
    let p := skip SPACE_CHARS p
    if deref p = 0 then some msg
    else if msg.nb_transports < RTSP_MAX_TRANSPORTS then
      let th := { msg.transports.getD msg.nb_transports .zero with mode_record := true }
      (transport_protocol fuel th lower_transport p).bind fun protocol =>
        let th := { protocol.1 with
          lower_transport := if av_strcaseeq protocol.2.1 (bytes "TCP") then .TCP else .UDP }
        (advanceOver (ch ';') protocol.2.2).bind fun p =>
          (transport_parameters fuel env fuel th p).bind fun field =>
            (advanceOver (ch ',') field.2).bind fun p =>
              let msg := { msg with
                transports := msg.transports.set msg.nb_transports field.1
                nb_transports := msg.nb_transports + 1 }
              if msg.nb_transports ≥ RTSP_MAX_TRANSPORTS then some msg
              else parse_transports fuel env passes msg protocol.2.1 p
    else none

def rtsp_parse_transport (fuel : Nat) (env : Env) (msg : RTSPMessageHeader)
    (lower_transport p : List Byte) : Option RTSPMessageHeader :=
  parse_transports fuel env fuel { msg with nb_transports := 0 } lower_transport p

/-! ### Where the readers leave the cursor -/

theorem get_word_sep_suffix (n : Nat) (sep p : List Byte) :
    (Rtsp.get_word_sep n sep p).2 <:+ p := by
  have until_ (p : List Byte) : (get_word_until_chars n sep p).2 <:+ p :=
    (List.dropWhile_suffix _).trans (List.dropWhile_suffix _)
  rw [Rtsp.get_word_sep]
  split
  · exact (until_ p.tail).trans (List.tail_suffix p)
  · exact until_ p

theorem strto_suffix (width : Nat) (s : List Byte) : (strto width s).rest <:+ s := by
  have digits (u : List Byte) (after : u <:+ s) : u.dropWhile isdigit <:+ s :=
    (List.dropWhile_suffix _).trans after
  have blanks : s.dropWhile isspace <:+ s := List.dropWhile_suffix _
  have sign := (List.tail_suffix (s.dropWhile isspace)).trans blanks
  simp only [strto]
  repeat' split
  all_goals first
    | exact List.suffix_refl s
    | exact digits _ sign
    | exact digits _ blanks

theorem rtsp_parse_range_suffix (q : List Byte) : (Rtsp.rtsp_parse_range q).2.2 <:+ q := by
  have first : (strtol (skip SPACE_CHARS q)).rest <:+ q :=
    (strto_suffix 32 _).trans (List.dropWhile_suffix _)
  rw [Rtsp.rtsp_parse_range]
  split
  · exact (strto_suffix 32 _).trans ((List.tail_suffix _).trans first)
  · exact first

theorem pointerOf_suffix (parameter p : List Byte) : pointerOf parameter p <:+ p := by
  have tail := List.tail_suffix p
  simp only [pointerOf]
  repeat' split
  · exact (rtsp_parse_range_suffix _).trans tail
  · exact (strto_suffix 32 _).trans tail
  · exact (get_word_sep_suffix _ _ _).trans tail
  · exact (get_word_sep_suffix _ _ _).trans tail
  · exact List.suffix_refl p
  · exact List.suffix_refl p

/-! ### No check fails -/

section
variable {p q : List Byte} {fuel : Nat}

theorem deref_zero (free : 0 ∉ p) : deref p = 0 ↔ p = [] := by
  cases p with
  | nil => simp [deref]
  | cons c p =>
    have other : c ≠ 0 := Ne.symm (List.ne_of_not_mem_cons free)
    simp [deref, other]

theorem advance_tail {c : Byte} (here : deref p = c) (some_ : c ≠ 0) :
    advance p = some p.tail := by
  cases p with
  | nil => exact absurd here (Ne.symm some_)
  | cons d p => rfl

theorem advanceOver_eq {c : Byte} (some_ : c ≠ 0) (p : List Byte) :
    advanceOver c p = some (if deref p = c then p.tail else p) := by
  rw [advanceOver]
  split
  · rename_i here
    exact advance_tail here some_
  · rfl

theorem moveWhile_eq (free : 0 ∉ p) (enough : p.length < fuel) :
    moveWhile (fun c => c ≠ ch ';' && c ≠ 0 && c ≠ ch ',') fuel p =
      some (p.dropWhile fun c => c ≠ ch ';' && c ≠ ch ',') := by
  induction p generalizing fuel with
  | nil =>
    obtain ⟨fuel, rfl⟩ : ∃ n, fuel = n + 1 := ⟨fuel - 1, by omega⟩
    simp [moveWhile, deref]
  | cons c p ih =>
    obtain ⟨fuel, rfl⟩ : ∃ n, fuel = n + 1 := ⟨fuel - 1, by omega⟩
    have other : c ≠ 0 := Ne.symm (List.ne_of_not_mem_cons free)
    have shorter : p.length < fuel := by
      simp only [List.length_cons] at enough
      omega
    have later := ih (List.not_mem_of_not_mem_cons free) shorter
    rw [List.dropWhile_cons]
    by_cases stops : c = ch ';' ∨ c = ch ','
    · rcases stops with rfl | rfl <;> rfl
    · obtain ⟨semicolon, comma⟩ := not_or.mp stops
      simp only [moveWhile, deref, List.headD_cons, other, semicolon, comma, ne_eq,
        not_false_eq_true, decide_true, Bool.and_self, if_true, advance, Option.bind_some]
      exact later

/-- The loop copies as much as buf holds and stops before a separator. -/
theorem wordLoop_eq (buf_size : Nat) (sep : List Byte) {buf : List Byte} (free : 0 ∉ p)
    (enough : p.length < fuel) (room : buf.length ≤ buf_size - 1) :
    wordLoop buf_size sep fuel buf p =
      some ((buf ++ p.takeWhile fun c => !sep.contains c).take (buf_size - 1),
        p.dropWhile fun c => !sep.contains c) := by
  induction p generalizing fuel buf with
  | nil =>
    obtain ⟨fuel, rfl⟩ : ∃ n, fuel = n + 1 := ⟨fuel - 1, by omega⟩
    simp [wordLoop, deref, List.take_of_length_le room]
  | cons c p ih =>
    obtain ⟨fuel, rfl⟩ : ∃ n, fuel = n + 1 := ⟨fuel - 1, by omega⟩
    have other : c ≠ 0 := Ne.symm (List.ne_of_not_mem_cons free)
    have free := List.not_mem_of_not_mem_cons free
    have enough : p.length < fuel := by simp only [List.length_cons] at enough; omega
    cases separator : sep.contains c with
    | true =>
      simp only [wordLoop, deref, List.headD_cons, separator, Bool.not_true, Bool.false_and,
        Bool.false_eq_true, if_false, List.takeWhile_cons, List.dropWhile_cons, List.append_nil,
        List.take_of_length_le room]
    | false =>
      simp only [wordLoop, deref, List.headD_cons, separator, Bool.not_false, other, ne_eq,
        not_false_eq_true, decide_true, Bool.and_self, if_true, advance, Option.bind_some,
        List.takeWhile_cons, List.dropWhile_cons]
      by_cases short : buf.length < buf_size - 1
      · rw [if_pos short, ih free enough (by simp; omega), List.append_assoc,
          List.singleton_append]
      · have full : buf.length = buf_size - 1 := by omega
        rw [if_neg short, ih free enough room, ← full, List.take_left, List.take_left]

theorem get_word_sep_eq (buf_size : Nat) (sep : List Byte) (free : 0 ∉ p)
    (enough : p.length < fuel) :
    get_word_sep fuel buf_size sep p = some (Rtsp.get_word_sep buf_size sep p) := by
  have read (q : List Byte) (part : q <:+ p) :
      wordLoop buf_size sep fuel [] (skip SPACE_CHARS q) =
        some (get_word_until_chars buf_size sep q) := by
    have left : skip SPACE_CHARS q <:+ p := (List.dropWhile_suffix _).trans part
    have shorter := left.length_le
    rw [wordLoop_eq buf_size sep (mt (left.subset ·) free) (by omega) (Nat.zero_le _)]
    rfl
  rw [get_word_sep, advanceOver_eq (by decide), Option.bind_some, Rtsp.get_word_sep]
  apply read
  split
  · exact List.tail_suffix p
  · exact List.suffix_refl p

theorem rtsp_parse_range_eq (q : List Byte) :
    rtsp_parse_range q = some (Rtsp.rtsp_parse_range q) := by
  rw [rtsp_parse_range, Rtsp.rtsp_parse_range]
  split
  · rename_i minus
    rw [advance_tail minus (by decide)]
    rfl
  · rfl

theorem transport_parameter_eq (env : Env) (th : RTSPTransportField) (parameter : List Byte)
    (free : 0 ∉ p) (enough : p.length < fuel) :
    transport_parameter fuel env th parameter p =
      some (Rtsp.transport_parameter env th parameter p) := by
  have tail := List.tail_suffix p
  have shorter := tail.length_le
  have word (n : Nat) (sep : List Byte) := get_word_sep_eq n sep
    (mt (tail.subset ·) free) (show p.tail.length < fuel by omega)
  simp only [transport_parameter, Rtsp.transport_parameter, apply_ite some]
  by_cases valued : deref p = ch '='
  · have moved := advance_tail valued (by decide)
    simp only [valued, if_true, moved, Option.bind_some, rtsp_parse_range_eq, Option.map_some,
      word]
    iterate 4
      refine ite_congr rfl (fun _ => rfl) (fun _ => ?_)
    refine ite_congr rfl (fun _ => ?_) (fun _ => ?_)
    · split <;> rfl
    refine ite_congr rfl (fun _ => rfl) (fun _ => ?_)
    refine ite_congr rfl (fun _ => ?_) (fun _ => ?_)
    · cases env.getaddrinfo (Rtsp.get_word_sep 256 (bytes ";,") p.tail).1 <;> rfl
    refine ite_congr rfl (fun _ => rfl) (fun _ => ?_)
    refine ite_congr rfl (fun _ => ?_) (fun _ => rfl)
    split <;> rfl
  · simp only [valued, if_false]
    iterate 4
      refine ite_congr rfl (fun _ => rfl) (fun _ => ?_)
    refine ite_congr rfl (fun _ => ?_) (fun _ => rfl)
    split <;> rfl

/-- What a pass of the parameter loop makes of the field and the cursor. -/
def passed (env : Env) (th : RTSPTransportField) (p : List Byte) :
    RTSPTransportField × List Byte :=
  let word := Rtsp.get_word_sep 16 (bytes "=;,") p
  let field := Rtsp.transport_parameter env th word.1 word.2
  let p := field.2.dropWhile fun c => c ≠ ch ';' && c ≠ ch ','
  (field.1, if deref p = ch ';' then p.tail else p)

theorem parameterPass_eq (env : Env) (th : RTSPTransportField) (free : 0 ∉ p)
    (enough : p.length < fuel) : parameterPass fuel env th p = some (passed env th p) := by
  have name := get_word_sep_suffix 16 (bytes "=;,") p
  have after := (pointerOf_suffix (Rtsp.get_word_sep 16 (bytes "=;,") p).1
    (Rtsp.get_word_sep 16 (bytes "=;,") p).2).trans name
  rw [← transport_parameter_pointer env th] at after
  have shorter := name.length_le
  have shorter' := after.length_le
  rw [parameterPass, get_word_sep_eq 16 _ free enough, Option.bind_some,
    transport_parameter_eq env th _ (mt (name.subset ·) free) (by omega), Option.bind_some,
    moveWhile_eq (mt (after.subset ·) free) (by omega), Option.bind_some,
    advanceOver_eq (by decide), Option.map_some]
  rfl

/-- A pass that starts before a comma and the NUL leaves the cursor further on. -/
theorem passed_advances (env : Env) (th : RTSPTransportField) (started : p ≠ [])
    (comma : deref p ≠ ch ',') :
    (passed env th p).2 <:+ p ∧ (passed env th p).2.length < p.length := by
  have name := get_word_sep_suffix 16 (bytes "=;,") p
  have after := (pointerOf_suffix (Rtsp.get_word_sep 16 (bytes "=;,") p).1
    (Rtsp.get_word_sep 16 (bytes "=;,") p).2).trans name
  rw [← transport_parameter_pointer env th] at after
  simp only [passed]
  generalize Rtsp.get_word_sep 16 (bytes "=;,") p = word at after ⊢
  generalize Rtsp.transport_parameter env th word.1 word.2 = field at after ⊢
  have stopped := (List.dropWhile_suffix fun c => c ≠ ch ';' && c ≠ ch ',').trans after
  cases left : field.2.dropWhile fun c => c ≠ ch ';' && c ≠ ch ',' with
  | nil =>
    have positive := List.length_pos_iff.mpr started
    simpa [deref] using positive
  | cons c rest =>
    rw [left] at stopped
    have shorter := stopped.length_le
    simp only [List.length_cons] at shorter
    by_cases semicolon : c = ch ';'
    · subst semicolon
      simp only [deref, List.headD_cons, if_true, List.tail_cons]
      exact ⟨(List.suffix_cons _ rest).trans stopped, by omega⟩
    · have head := List.head_dropWhile_not (fun c => c ≠ ch ';' && c ≠ ch ',')
        (l := field.2) (by rw [left]; simp)
      simp only [left, List.head_cons] at head
      obtain rfl : c = ch ',' := by simpa [semicolon] using head
      -- The cursor was not at a comma, so it has moved to get here.
      have moved : ch ',' :: rest ≠ p := by
        rintro rfl
        exact comma rfl
      have less : (ch ',' :: rest).length ≠ p.length := fun same =>
        moved (stopped.eq_of_length same)
      simp only [deref, List.headD_cons, semicolon, if_false]
      refine ⟨stopped, ?_⟩
      simp only [List.length_cons] at less ⊢
      omega

theorem transport_parameters_eq (env : Env) (th : RTSPTransportField) {passes room : Nat}
    (free : 0 ∉ p) (enough : p.length < fuel) (more : p.length < passes)
    (least : p.length ≤ room) :
    transport_parameters fuel env passes th p =
        some (Rtsp.transport_parameters env room th p) ∧
      (Rtsp.transport_parameters env room th p).2 <:+ p := by
  induction passes generalizing th p room with
  | zero => omega
  | succ passes ih =>
    by_cases stops : p = [] ∨ deref p = ch ','
    · have here : ¬ (deref p ≠ 0 ∧ deref p ≠ ch ',') := by
        rintro ⟨some_, comma⟩
        exact stops.elim (some_ ∘ (deref_zero free).mpr) comma
      have same : Rtsp.transport_parameters env room th p = (th, p) := by
        cases room with
        | zero => rfl
        | succ room => rw [Rtsp.transport_parameters, if_pos stops]
      rw [transport_parameters, if_neg here, same]
      exact ⟨rfl, List.suffix_refl p⟩
    · obtain ⟨started, comma⟩ := not_or.mp stops
      obtain ⟨room, rfl⟩ : ∃ n, room = n + 1 := by
        have positive := List.length_pos_iff.mpr started
        exact ⟨room - 1, by omega⟩
      have step : Rtsp.transport_parameters env (room + 1) th p =
          Rtsp.transport_parameters env room (passed env th p).1 (passed env th p).2 := by
        simp only [Rtsp.transport_parameters, if_neg stops, passed]
      obtain ⟨part, shorter⟩ := passed_advances env th started comma
      rw [transport_parameters, if_pos ⟨mt (deref_zero free).mp started, comma⟩,
        parameterPass_eq env th free enough, Option.bind_some, step]
      generalize passed env th p = next at part shorter ⊢
      have free' : 0 ∉ next.2 := fun inside => free (part.subset inside)
      obtain ⟨later, suffix⟩ := @ih next.2 next.1 room free' (by omega) (by omega) (by omega)
      exact ⟨later, suffix.trans part⟩

theorem transport_protocol_eq (th : RTSPTransportField) (lower_transport : List Byte)
    (free : 0 ∉ p) (enough : p.length < fuel) :
    transport_protocol fuel th lower_transport p =
        some (Rtsp.transport_protocol th lower_transport p) ∧
      (Rtsp.transport_protocol th lower_transport p).2.2 <:+ p := by
  have part (n : Nat) (sep : List Byte) {q : List Byte} (q_part : q <:+ p) :=
    (get_word_sep_suffix n sep q).trans q_part
  have word (n : Nat) (sep : List Byte) {q : List Byte} (q_part : q <:+ p) :
      get_word_sep fuel n sep q = some (Rtsp.get_word_sep n sep q) := by
    have shorter := q_part.length_le
    exact get_word_sep_eq n sep (mt (q_part.subset ·) free) (by omega)
  have name := part 16 (bytes "/") (List.suffix_refl p)
  have profile := part 16 (bytes "/;,") name
  have lower := part 16 (bytes ";,") profile
  simp only [transport_protocol, Rtsp.transport_protocol, word 16 (bytes "/") (List.suffix_refl p),
    Option.bind_some, word 16 (bytes "/;,") name, word 16 (bytes ";,") profile, Option.map_some]
  generalize (Rtsp.get_word_sep 16 (bytes "/") p).1 = protocol
  generalize Rtsp.get_word_sep 16 (bytes ";,")
    (Rtsp.get_word_sep 16 (bytes "/;,") (Rtsp.get_word_sep 16 (bytes "/") p).2).2 = lowered
    at lower ⊢
  generalize Rtsp.get_word_sep 16 (bytes "/;,") (Rtsp.get_word_sep 16 (bytes "/") p).2 = profiled
    at profile ⊢
  by_cases rtp : av_strcaseeq protocol (bytes "rtp") = true
  · simp only [rtp, if_true]
    split
    · exact ⟨rfl, lower⟩
    · exact ⟨rfl, profile⟩
  by_cases rdt : av_strcaseeq protocol (bytes "x-pn-tng") = true ∨
      av_strcaseeq protocol (bytes "x-real-rdt") = true
  · simp only [rtp, rdt, if_true, if_false, Bool.false_eq_true]
    exact ⟨trivial, profile⟩
  by_cases raw : av_strcaseeq protocol (bytes "raw") = true
  · simp only [rtp, rdt, raw, if_true, if_false, Bool.false_eq_true]
    split
    · exact ⟨rfl, lower⟩
    · exact ⟨rfl, profile⟩
  · simp only [rtp, rdt, raw, if_false, Bool.false_eq_true]
    exact ⟨trivial, name⟩

theorem parse_transports_eq (env : Env) {passes room : Nat} {msg : RTSPMessageHeader}
    {lower_transport : List Byte} (free : 0 ∉ p) (enough : p.length < fuel)
    (more : room + 1 ≤ passes) (index : msg.nb_transports + (room + 1) = RTSP_MAX_TRANSPORTS) :
    parse_transports fuel env passes msg lower_transport p =
      some (Rtsp.parse_transports env (room + 1) msg lower_transport p) := by
  induction passes generalizing room msg lower_transport p with
  | zero => omega
  | succ passes ih =>
    have skipped : skip SPACE_CHARS p <:+ p := List.dropWhile_suffix _
    have shorter := skipped.length_le
    have free : 0 ∉ skip SPACE_CHARS p := mt (skipped.subset ·) free
    simp only [parse_transports, Rtsp.parse_transports, deref_zero free]
    split
    · rfl
    · rw [if_pos (by omega)]
      generalize { msg.transports.getD msg.nb_transports .zero with mode_record := true } = th
      obtain ⟨protocol, part⟩ := transport_protocol_eq th lower_transport free
        (show (skip SPACE_CHARS p).length < fuel by omega)
      rw [protocol, Option.bind_some]
      generalize Rtsp.transport_protocol th lower_transport (skip SPACE_CHARS p) = protocol
        at part ⊢
      obtain ⟨th, lower_transport, q⟩ := protocol
      simp only at part ⊢
      rw [advanceOver_eq (by decide), Option.bind_some]
      have part' : (if deref q = ch ';' then q.tail else q) <:+ skip SPACE_CHARS p := by
        split
        · exact (List.tail_suffix q).trans part
        · exact part
      generalize (if deref q = ch ';' then q.tail else q) = q at part' ⊢
      have shorter' := part'.length_le
      generalize { th with
        lower_transport := if av_strcaseeq lower_transport (bytes "TCP") then .TCP else .UDP } = th
      have within : q.length < fuel := by omega
      obtain ⟨parameters, part''⟩ := transport_parameters_eq env th (mt (part'.subset ·) free)
        within within (Nat.le_refl q.length)
      rw [parameters, Option.bind_some]
      generalize Rtsp.transport_parameters env q.length th q = field at part'' ⊢
      obtain ⟨th, q'⟩ := field
      simp only at part'' ⊢
      rw [advanceOver_eq (by decide), Option.bind_some]
      have left : (if deref q' = ch ',' then q'.tail else q') <:+ skip SPACE_CHARS p := by
        split
        · exact (List.tail_suffix q').trans (part''.trans part')
        · exact part''.trans part'
      generalize (if deref q' = ch ',' then q'.tail else q') = q' at left ⊢
      have shorter'' := left.length_le
      cases room with
      | zero => rw [if_pos (by omega), Rtsp.parse_transports]
      | succ room =>
        rw [if_neg (by omega)]
        exact ih (mt (left.subset ·) free) (by omega) (by omega) (by simp only; omega)

end

/-- The transports that follow the last one of the array stay as they are. -/
theorem parse_transports_index (env : Env) {room : Nat} (msg : RTSPMessageHeader)
    (lower_transport p : List Byte) (index : msg.nb_transports + room = RTSP_MAX_TRANSPORTS) :
    let parsed := Rtsp.parse_transports env room msg lower_transport p
    parsed.nb_transports ≤ RTSP_MAX_TRANSPORTS ∧
      ∀ i, RTSP_MAX_TRANSPORTS ≤ i → parsed.transports[i]? = msg.transports[i]? := by
  induction room generalizing msg lower_transport p with
  | zero => exact ⟨by simp only [Rtsp.parse_transports]; omega, fun _ _ => rfl⟩
  | succ room ih =>
    simp only [Rtsp.parse_transports]
    split
    · exact ⟨by omega, fun _ _ => rfl⟩
    · generalize Rtsp.transport_protocol _ lower_transport (skip SPACE_CHARS p) = protocol
      obtain ⟨th, lower_transport, q⟩ := protocol
      simp only
      generalize Rtsp.transport_parameters env _ _ _ = field
      obtain ⟨th, q'⟩ := field
      simp only
      obtain ⟨bound, kept⟩ := ih
        { msg with
          transports := msg.transports.set msg.nb_transports th
          nb_transports := msg.nb_transports + 1 }
        lower_transport (if deref q' = ch ',' then q'.tail else q') (by simp only; omega)
      refine ⟨bound, fun i beyond => ?_⟩
      rw [kept i beyond, List.getElem?_set_ne (by omega)]

/-- No header value makes the cursor leave the string, the index leave the array, or a loop
go on, and every pass of the parameter loop moves the cursor on. -/
theorem transport_in_bounds (env : Env) (msg : RTSPMessageHeader)
    (lower_transport memory : List Byte) :
    let p := cstring memory
    let fuel := p.length + RTSP_MAX_TRANSPORTS
    let parsed := Rtsp.rtsp_parse_transport env msg lower_transport p
    rtsp_parse_transport fuel env msg lower_transport p = some parsed ∧
      parsed.nb_transports ≤ RTSP_MAX_TRANSPORTS ∧
      (∀ i, RTSP_MAX_TRANSPORTS ≤ i → parsed.transports[i]? = msg.transports[i]?) ∧
      ∀ th q, q <:+ p → deref q ≠ 0 → deref q ≠ ch ',' →
        ∃ th' q', parameterPass fuel env th q = some (th', q') ∧ q' <:+ q ∧
          q'.length < q.length := by
  intro p fuel parsed
  have free : 0 ∉ p := notMem_cstring memory
  have room : 0 + RTSP_MAX_TRANSPORTS = RTSP_MAX_TRANSPORTS := rfl
  obtain ⟨bound, kept⟩ :=
    parse_transports_index env { msg with nb_transports := 0 } lower_transport p room
  refine ⟨?_, bound, kept, ?_⟩
  · exact parse_transports_eq env free (by simp [fuel, RTSP_MAX_TRANSPORTS])
      (show 7 + 1 ≤ fuel by simp [fuel, RTSP_MAX_TRANSPORTS]) rfl
  · intro th q part some_ comma
    have shorter := part.length_le
    have free : 0 ∉ q := mt (part.subset ·) free
    have enough : q.length < fuel := by
      simp only [fuel, RTSP_MAX_TRANSPORTS]
      omega
    have pass := parameterPass_eq env th free enough
    have advances := passed_advances env th (mt (deref_zero free).mpr some_) comma
    exact ⟨(passed env th q).1, (passed env th q).2, pass, advances⟩

/-- A value of separators only: the parameter without a name is passed. -/
theorem malformed_in_bounds :
    let memory := bytes "/;=-,;" ++ [0]
    let fuel := (cstring memory).length + RTSP_MAX_TRANSPORTS
    (∃ parsed, rtsp_parse_transport fuel .blank .zero [] (cstring memory) = some parsed ∧
      parsed.nb_transports ≤ RTSP_MAX_TRANSPORTS) ∧
    ∃ th' q', parameterPass fuel .blank .zero (bytes "=-,;") = some (th', q') ∧ q'.length < 4 := by
  intro memory fuel
  obtain ⟨parsed, bound, -, progress⟩ := transport_in_bounds .blank .zero [] memory
  obtain ⟨th', q', pass, -, shorter⟩ :=
    progress .zero (bytes "=-,;") (by decide) (by decide) (by decide)
  exact ⟨⟨_, parsed, bound⟩, th', q', pass, shorter⟩

end TestIOCP.Rtsp.Cursor
