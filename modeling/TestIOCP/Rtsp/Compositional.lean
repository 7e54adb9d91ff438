import TestIOCP.Rtsp.Transports

/-! When a transport field depends on its specification alone. -/
namespace TestIOCP.Rtsp
open CString

section
variable {α β γ : Type} {step : α → β → α} (get : α → γ) (sets : β → Prop)

/-- Steps that either set a part of a state, whatever it was, or leave it alone, lead to the
same part exactly when one of them sets it or it was the same before. -/
theorem foldl_part (set : ∀ a a' b, sets b → get (step a b) = get (step a' b))
    (keep : ∀ a b, ¬ sets b → get (step a b) = get a) (bs : List β) (a a' : α) :
    get (bs.foldl step a) = get (bs.foldl step a') ↔ (∃ b ∈ bs, sets b) ∨ get a = get a' := by
  induction bs generalizing a a' with
  | nil => simp
  | cons b bs ih =>
    have first : (∃ c ∈ b :: bs, sets c) ↔ sets b ∨ ∃ c ∈ bs, sets c := by simp
    rw [List.foldl_cons, List.foldl_cons, ih, first]
    by_cases here : sets b
    · exact iff_of_true (.inr (set a a' b here)) (.inl (.inl here))
    · rw [keep a b here, keep a' b here]
      simp [here]

end

/-- The parts of a field that a parameter assigns to. -/
inductive Part where
  | port
  | client_port
  | server_port
  | interleaved
  | ttl
  | destination (i : Nat)
  | source (i : Nat)

namespace Assignment

/-- An assignment to a part. One to an array writes its first bytes only. -/
def Sets : Part → Assignment → Prop
  | .port, .port _ _ => True
  | .client_port, .client_port _ _ => True
  | .server_port, .server_port _ _ => True
  | .interleaved, .interleaved _ _ => True
  | .ttl, .ttl _ => True
  | .destination i, .destination addr => i < addr.length
  | .source i, .source buf => i < (buf.take 65).length + 1
  | _, _ => False

end Assignment

namespace RTSPTransportField

/-- The value of a part. -/
def part (th : RTSPTransportField) : Part → Int × Int
  | .port => (th.port_min, th.port_max)
  | .client_port => (th.client_port_min, th.client_port_max)
  | .server_port => (th.server_port_min, th.server_port_max)
  | .interleaved => (th.interleaved_min, th.interleaved_max)
  | .ttl => (th.ttl, 0)
  | .destination i => ((th.destination.get i).toNat, 0)
  | .source i => ((th.source.get i).toNat, 0)

end RTSPTransportField

theorem get_copy {n : Nat} (b : Buffer n) (s : List Byte) (i : Nat) :
    (b.copy s).get i = if i < n ∧ i < s.length then s.getD i 0 else b.get i := by
  have size := b.size
  simp only [Buffer.copy, Buffer.get, List.getD_eq_getElem?_getD, List.getElem?_take]
  by_cases inside : i < n
  · simp only [inside, true_and, if_true]
    split
    · rename_i early
      rw [List.getElem?_append_left early]
    · rename_i late
      rw [List.getElem?_append_right (by omega), List.getElem?_drop]
      congr 2
      omega
  · simp only [inside, false_and, if_false]
    rw [List.getElem?_eq_none (by omega)]

theorem buffer_eq_iff {n : Nat} {a b : Buffer n} : a = b ↔ ∀ i, a.get i = b.get i := by
  constructor
  · rintro rfl i
    rfl
  · intro same
    have sizes := a.size.trans b.size.symm
    apply Buffer.ext
    apply List.ext_getElem sizes
    intro i left right
    simpa [Buffer.get, List.getD_eq_getElem?_getD, left, right] using same i

/-- A copy decides about the bytes that it reaches, and about no others. -/
theorem get_copy_reached {n : Nat} (b b' : Buffer n) {s : List Byte} {i : Nat}
    (reached : i < s.length) :
    (b.copy s).get i = (b'.copy s).get i := by
  rw [get_copy, get_copy]
  split
  · rfl
  · rename_i outside
    have beyond : n ≤ i := Nat.not_lt.mp fun inside => outside ⟨inside, reached⟩
    simp [Buffer.get, b.size, b'.size, beyond]

theorem get_copy_left {n : Nat} (b : Buffer n) {s : List Byte} {i : Nat} (left : ¬ i < s.length) :
    (b.copy s).get i = b.get i := by
  rw [get_copy, if_neg fun reached => left reached.2]

namespace Assignment

/-- An assignment sets its part to a value of its own. -/
theorem apply_sets {p : Part} {a : Assignment} (th th' : RTSPTransportField) (sets : a.Sets p) :
    (a.apply th).part p = (a.apply th').part p := by
  cases a with
  | destination addr =>
    cases p with
    | destination i =>
      exact congrArg (fun c : Byte => ((c.toNat : Int), (0 : Int))) (get_copy_reached _ _ sets)
    | port | client_port | server_port | interleaved | ttl | source => cases sets
  | source buf =>
    cases p with
    | source i =>
      have reached : i < (buf.take (66 - 1) ++ [0]).length := by simpa [Sets] using sets
      exact congrArg (fun c : Byte => ((c.toNat : Int), (0 : Int))) (get_copy_reached _ _ reached)
    | port | client_port | server_port | interleaved | ttl | destination => cases sets
  | port | client_port | server_port | interleaved | multicast | ttl | mode_record | nothing =>
    cases p <;> first | rfl | cases sets

/-- And leaves the other parts alone. -/
theorem apply_keeps {p : Part} {a : Assignment} (th : RTSPTransportField) (other : ¬ a.Sets p) :
    (a.apply th).part p = th.part p := by
  cases a with
  | destination addr =>
    cases p with
    | destination i =>
      exact congrArg (fun c : Byte => ((c.toNat : Int), (0 : Int))) (get_copy_left _ other)
    | port | client_port | server_port | interleaved | ttl | source => rfl
  | source buf =>
    cases p with
    | source i =>
      have left : ¬ i < (buf.take (66 - 1) ++ [0]).length := by simpa [Sets] using other
      exact congrArg (fun c : Byte => ((c.toNat : Int), (0 : Int))) (get_copy_left _ left)
    | port | client_port | server_port | interleaved | ttl | destination => rfl
  | multicast =>
    simp only [apply]
    split
    · cases p <;> rfl
    · rfl
  | port | client_port | server_port | interleaved | ttl | mode_record | nothing =>
    cases p <;> first | rfl | exact absurd trivial other

theorem apply_mode_record {a : Assignment} {th : RTSPTransportField} (set : th.mode_record = true) :
    (a.apply th).mode_record = true := by
  cases a with
  | multicast =>
    simp only [apply]
    split <;> exact set
  | mode_record => rfl
  | _ => exact set

theorem apply_transport (a : Assignment) (th : RTSPTransportField) : (a.apply th).transport =
    th.transport := by
  cases a with
  | multicast =>
    simp only [apply]
    split <;> rfl
  | _ => rfl

/-- TCP stays TCP, and nothing else becomes it. -/
theorem apply_lower (a : Assignment) (th : RTSPTransportField) :
    (a.apply th).lower_transport = .TCP ↔ th.lower_transport = .TCP := by
  cases a with
  | multicast =>
    simp only [apply]
    split
    · rename_i udp
      simp [udp]
    · rfl
  | _ => rfl

theorem apply_lower_congr (a : Assignment) {th th' : RTSPTransportField}
    (same : th.lower_transport = th'.lower_transport) :
    (a.apply th).lower_transport = (a.apply th').lower_transport := by
  cases a with
  | multicast =>
    simp only [apply, same]
    split
    · rfl
    · exact same
  | _ => exact same

end Assignment

section
variable (as : List Assignment) {th th' : RTSPTransportField}

theorem foldl_mode_record (set : th.mode_record = true) :
    (as.foldl Assignment.apply th).mode_record = true := by
  induction as generalizing th with
  | nil => exact set
  | cons a as ih => exact ih (Assignment.apply_mode_record set)

theorem foldl_transport : (as.foldl Assignment.apply th).transport = th.transport := by
  induction as generalizing th with
  | nil => rfl
  | cons a as ih => rw [List.foldl_cons, ih, Assignment.apply_transport]

theorem foldl_lower : (as.foldl Assignment.apply th).lower_transport = .TCP ↔
    th.lower_transport = .TCP := by
  induction as generalizing th with
  | nil => rfl
  | cons a as ih => rw [List.foldl_cons, ih, Assignment.apply_lower]

theorem foldl_lower_congr (same : th.lower_transport = th'.lower_transport) :
    (as.foldl Assignment.apply th).lower_transport =
      (as.foldl Assignment.apply th').lower_transport := by
  induction as generalizing th th' with
  | nil => exact same
  | cons a as ih => exact ih (Assignment.apply_lower_congr a same)

end

/-- A field is its parts, its mode, its transport and its lower transport. -/
theorem field_eq_iff {th th' : RTSPTransportField} : th = th' ↔ (∀ p, th.part p = th'.part p) ∧
    th.mode_record = th'.mode_record ∧ th.transport = th'.transport ∧
    th.lower_transport = th'.lower_transport := by
  constructor
  · rintro rfl
    exact ⟨fun p => rfl, rfl, rfl, rfl⟩
  · rintro ⟨parts, mode, transport, lower⟩
    obtain ⟨port_min, port_max⟩ := Prod.mk.inj (parts .port)
    obtain ⟨client_port_min, client_port_max⟩ := Prod.mk.inj (parts .client_port)
    obtain ⟨server_port_min, server_port_max⟩ := Prod.mk.inj (parts .server_port)
    obtain ⟨interleaved_min, interleaved_max⟩ := Prod.mk.inj (parts .interleaved)
    obtain ⟨ttl, -⟩ := Prod.mk.inj (parts .ttl)
    have destination : th.destination = th'.destination := by
      refine buffer_eq_iff.mpr fun i => ?_
      obtain ⟨same, -⟩ := Prod.mk.inj (parts (.destination i))
      exact UInt8.toNat_inj.mp (Int.ofNat_inj.mp same)
    have source : th.source = th'.source := by
      refine buffer_eq_iff.mpr fun i => ?_
      obtain ⟨same, -⟩ := Prod.mk.inj (parts (.source i))
      exact UInt8.toNat_inj.mp (Int.ofNat_inj.mp same)
    cases th
    cases th'
    simp_all

/-- A specification decides about a part of its field, or the part is still zero. -/
structure Determined (env : Env) (th : RTSPTransportField)
    (lower_transport s : List Byte) : Prop where
  parts : ∀ p, (∃ a ∈ assignments env (parametersOf s), a.Sets p) ∨ th.part p = (0, 0)
  protocol : (transportOf s).isSome = true ∨
    th.transport = .RTP ∧ ¬ av_strcaseeq lower_transport (bytes "TCP") = true

/-- What the first Transport line of a request makes of a specification. -/
def textual (env : Env) (s : List Byte) : RTSPTransportField :=
  specified env .zero [] s

theorem get_zero (n i : Nat) : (Buffer.zero n).get i = 0 := by
  simp only [Buffer.zero, Buffer.get, List.getD_eq_getElem?_getD, List.getElem?_replicate]
  split <;> rfl

theorem zero_part (p : Part) : RTSPTransportField.zero.part p = (0, 0) := by
  cases p with
  | destination i => exact congrArg (fun c : Byte => ((c.toNat : Int), (0 : Int))) (get_zero 128 i)
  | source i => exact congrArg (fun c : Byte => ((c.toNat : Int), (0 : Int))) (get_zero 66 i)
  | port | client_port | server_port | interleaved | ttl => rfl

/-- The lower transport that a specification of an unknown protocol finds in the buffer. -/
theorem lowerAfter_known {s : List Byte} (known : (transportOf s).isSome = true)
    (lower_transport lower_transport' : List Byte) :
    lowerAfter lower_transport s = lowerAfter lower_transport' s := by
  rw [lowerAfter, lowerAfter, if_pos known, if_pos known]

theorem lowerAfter_unknown {s : List Byte} (unknown : ¬ (transportOf s).isSome = true)
    (lower_transport : List Byte) : lowerAfter lower_transport s = lower_transport := by
  rw [lowerAfter, if_neg unknown]

/-- The field is what the text makes of a zero one exactly when the text decides about it. -/
theorem specified_eq_iff (env : Env) (th : RTSPTransportField) (lower_transport s : List Byte) :
    specified env th lower_transport s = textual env s ↔ Determined env th lower_transport s := by
  have parts (th th' : RTSPTransportField) (p : Part) :
      ((assignments env (parametersOf s)).foldl Assignment.apply th).part p =
          ((assignments env (parametersOf s)).foldl Assignment.apply th').part p ↔
        (∃ a ∈ assignments env (parametersOf s), a.Sets p) ∨ th.part p = th'.part p :=
    foldl_part (fun th => th.part p) (Assignment.Sets p)
      (fun th th' a sets => Assignment.apply_sets th th' sets)
        (fun th a other => Assignment.apply_keeps th other) _ _ _
  have lower (th th' : RTSPTransportField)
      (th_lower : th.lower_transport = .TCP ∨ th.lower_transport = .UDP)
      (th'_lower : th'.lower_transport = .TCP ∨ th'.lower_transport = .UDP) :
      ((assignments env (parametersOf s)).foldl Assignment.apply th).lower_transport =
          ((assignments env (parametersOf s)).foldl Assignment.apply th').lower_transport ↔
        th.lower_transport = th'.lower_transport := by
    constructor
    · intro same
      have tcp : th.lower_transport = .TCP ↔ th'.lower_transport = .TCP := by
        rw [← foldl_lower (assignments env (parametersOf s)), same, foldl_lower]
      rcases th_lower with here | here
      · rw [here, tcp.mp here]
      · rcases th'_lower with there | there
        · rw [there, tcp.mpr there]
        · rw [here, there]
    · exact foldl_lower_congr _
  have udp_or_tcp (text : List Byte) :
      (if av_strcaseeq text (bytes "TCP") = true then RTSPLowerTransport.TCP else .UDP) = .TCP ∨
        (if av_strcaseeq text (bytes "TCP") = true then RTSPLowerTransport.TCP else
            .UDP) = .UDP := by
    split
    · exact .inl rfl
    · exact .inr rfl
  rw [textual, specified, specified, field_eq_iff, foldl_mode_record _ rfl, foldl_mode_record _ rfl,
    foldl_transport, foldl_transport, lower _ _ (udp_or_tcp _) (udp_or_tcp _)]
  simp only [parts, true_and]
  by_cases known : (transportOf s).isSome = true
  · obtain ⟨transport, found⟩ := Option.isSome_iff_exists.mp known
    simp only [lowerAfter_known known lower_transport [], found, Option.getD_some, and_true]
    constructor
    · intro same
      refine ⟨fun p => ?_, .inl known⟩
      rw [← zero_part p]
      exact same p
    · intro determined p
      have here := determined.parts p
      rw [← zero_part p] at here
      exact here
  · have none_ : transportOf s = none := by simpa using known
    have empty : ¬ av_strcaseeq [] (bytes "TCP") = true := by decide
    simp only [lowerAfter_unknown known, none_, Option.getD_none, empty]
    constructor
    · rintro ⟨same, transport, tcp⟩
      refine ⟨fun p => ?_, .inr ⟨transport, fun named => ?_⟩⟩
      · rw [← zero_part p]
        exact same p
      · rw [if_pos named] at tcp
        cases tcp
    · intro determined
      obtain ⟨transport, tcp⟩ := determined.protocol.resolve_left known
      refine ⟨fun p => ?_, transport, if_neg tcp⟩
      have here := determined.parts p
      rw [← zero_part p] at here
      exact here

/-- Every field is what the text of its specification makes of it. -/
def Compositional (env : Env) (msg : RTSPMessageHeader) (lower_transport : List Byte)
    (specs : List (List Byte)) : Prop :=
  let after := rtsp_parse_transport env msg lower_transport (headerText specs)
  after.nb_transports = specs.length ∧
    ∀ i s, specs[i]? = some s → after.transports.getD i .zero = textual env s

/-- A header is read as its text alone says exactly when each specification decides about
everything that earlier lines and earlier specifications have left. -/
theorem compositional_iff (env : Env) (msg : RTSPMessageHeader) (lower_transport : List Byte)
    (specs : List (List Byte)) (size : msg.transports.length = RTSP_MAX_TRANSPORTS)
    (few : specs.length ≤ RTSP_MAX_TRANSPORTS) (all : ∀ s ∈ specs, Specification s) :
    Compositional env msg lower_transport specs ↔ ∀ i s, specs[i]? = some s →
      Determined env (msg.transports.getD i .zero)
        (lowerBefore lower_transport (specs.take i)) s := by
  obtain ⟨number, fields, -⟩ := parse_transports_spec env all few { msg with nb_transports := 0 }
    (by simp only [size]; omega) lower_transport
  simp only [Nat.zero_add] at number fields
  constructor
  · rintro ⟨-, same⟩ i s found
    have here := same i s found
    rwa [rtsp_parse_transport, fields i s found, specified_eq_iff] at here
  · intro determined
    refine ⟨number, fun i s found => ?_⟩
    rw [rtsp_parse_transport, fields i s found, specified_eq_iff]
    exact determined i s found

theorem specification_udp : Specification (bytes "RTP/AVP;client_port=1-2") :=
  ⟨⟨bytes "RTP", bytes "AVP;client_port=1-2", by decide, by decide,
    ch 'R', by decide, by decide⟩, by decide⟩

theorem specification_interleaved : Specification (bytes "RTP/AVP/TCP;interleaved=2-3") :=
  ⟨⟨bytes "RTP", bytes "AVP/TCP;interleaved=2-3", by decide, by decide,
    ch 'R', by decide, by decide⟩, by decide⟩

/-- What a line has left in the record and in its buffer is written over by a line whose
specifications set the same parameters. -/
theorem compositional_repeated :
    let earlier := rtsp_parse_transport .blank .zero []
      (bytes "RTP/AVP;client_port=5-6,RTP/AVP/TCP;interleaved=7-8")
    earlier.transports.getD 0 .zero ≠ .zero ∧ earlier.transports.getD 1 .zero ≠ .zero ∧
      Compositional .blank earlier (bytes "TCP")
        [bytes "RTP/AVP;client_port=1-2", bytes "RTP/AVP/TCP;interleaved=2-3"] := by
  intro earlier
  have first : earlier.transports.getD 0 .zero =
      { RTSPTransportField.zero with
        client_port_min := 5
        client_port_max := 6
        mode_record := true } := by
    decide +kernel
  have second : earlier.transports.getD 1 .zero =
      { RTSPTransportField.zero with
        interleaved_min := 7
        interleaved_max := 8
        mode_record := true
        lower_transport := .TCP } := by
    decide +kernel
  have ports : assignments .blank (parametersOf (bytes "RTP/AVP;client_port=1-2")) =
      [.client_port 1 2] := by
    decide +kernel
  have channels : assignments .blank (parametersOf (bytes "RTP/AVP/TCP;interleaved=2-3")) =
      [.interleaved 2 3] := by
    decide +kernel
  refine ⟨by rw [first]; decide, by rw [second]; decide,
    (compositional_iff .blank earlier _ _ (by decide +kernel) (by decide) ?_).mpr ?_⟩
  · intro s inside
    rcases List.mem_cons.mp inside with rfl | inside
    · exact specification_udp
    · obtain rfl := List.mem_singleton.mp inside
      exact specification_interleaved
  · intro i s found
    match i with
    | 0 =>
      obtain rfl : bytes "RTP/AVP;client_port=1-2" = s := by simpa using found
      refine ⟨fun p => ?_, .inl (by decide)⟩
      rw [ports, first]
      cases p with
      | client_port => exact .inl ⟨_, List.mem_singleton_self _, trivial⟩
      | destination i => exact .inr (zero_part (.destination i))
      | source i => exact .inr (zero_part (.source i))
      | port | server_port | interleaved | ttl => exact .inr rfl
    | 1 =>
      obtain rfl : bytes "RTP/AVP/TCP;interleaved=2-3" = s := by simpa using found
      refine ⟨fun p => ?_, .inl (by decide)⟩
      rw [channels, second]
      cases p with
      | interleaved => exact .inl ⟨_, List.mem_singleton_self _, trivial⟩
      | destination i => exact .inr (zero_part (.destination i))
      | source i => exact .inr (zero_part (.source i))
      | port | client_port | server_port | ttl => exact .inr rfl
    | i + 2 => simp at found

theorem specification_tcp : Specification (bytes "RTP/AVP/TCP") :=
  ⟨⟨bytes "RTP", bytes "AVP/TCP", by decide, by decide, ch 'R', by decide, by decide⟩, by decide⟩

theorem specification_unknown : Specification (bytes "foo/bar") :=
  ⟨⟨bytes "foo", bytes "bar", by decide, by decide, ch 'f', by decide, by decide⟩, by decide⟩

/-- A protocol that the server does not know gets the lower transport of the specification
before it, and a field keeps the ports of an earlier Transport line. -/
theorem not_compositional :
    (¬ ∀ (env : Env) (msg : RTSPMessageHeader) (lower_transport : List Byte)
      (specs : List (List Byte)),
      msg.transports.length = RTSP_MAX_TRANSPORTS → specs.length ≤ RTSP_MAX_TRANSPORTS →
      (∀ s ∈ specs, Specification s) → Compositional env msg lower_transport specs) ∧
    let first := rtsp_parse_transport .blank .zero [] (bytes "RTP/AVP;client_port=1-2")
    ((rtsp_parse_transport .blank first [] (bytes "RTP/AVP")).transports.getD 0
        .zero).client_port_min = 1 := by
  constructor
  · intro compositional
    have all : ∀ s ∈ [bytes "RTP/AVP/TCP", bytes "foo/bar"], Specification s := by
      intro s inside
      rcases List.mem_cons.mp inside with rfl | inside
      · exact specification_tcp
      · obtain rfl := List.mem_singleton.mp inside
        exact specification_unknown
    obtain ⟨-, same⟩ := compositional .blank .zero [] _ rfl (by decide) all
    have lower := congrArg (·.lower_transport) (same 1 (bytes "foo/bar") rfl)
    revert lower
    decide +kernel
  · decide +kernel

end TestIOCP.Rtsp
