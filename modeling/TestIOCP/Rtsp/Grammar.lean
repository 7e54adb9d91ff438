import TestIOCP.Rtsp.CommandLine

/-! The request lines of each state, and parse_command_line as their recogniser. -/
namespace TestIOCP.Rtsp
open CString

/-- The methods that a request may name in a state, with their codes. -/
def methods : RTSPClientState → List (List Byte × RTSPMethod)
  | .IDLE => [(bytes "ANNOUNCE", .ANNOUNCE), (bytes "OPTIONS", .OPTIONS)]
  | .PAUSED => [(bytes "OPTIONS", .OPTIONS), (bytes "RECORD", .RECORD), (bytes "SETUP", .SETUP)]
  | .STREAMING =>
    [(bytes "PAUSE", .PAUSE), (bytes "OPTIONS", .OPTIONS), (bytes "TEARDOWN", .TEARDOWN)]
  | .SEEKING => []

/-- A line is a request of a method for a URI in a state. -/
structure Grammatical (state : RTSPClientState) (line : List Byte) (method : List Byte)
    (methodcode : RTSPMethod) (uri : List Byte) : Prop where
  text : ∃ tail, line = method ++ ch ' ' :: (uri ++ ch ' ' :: (bytes "RTSP/1.0" ++ tail))
  method_word : ch ' ' ∉ method
  method_fits : method.length ≤ 9
  uri_word : ch ' ' ∉ uri
  uri_fits : uri.length ≤ 499
  named : (method, methodcode) ∈ methods state

theorem methods_known (state : RTSPClientState) : methods state ⊆ methodNames := by
  cases state <;> decide

/-- The filter of a state lets through the methods of that state. -/
theorem allowed_iff {state : RTSPClientState} {method : List Byte} {methodcode : RTSPMethod}
    (known : (method, methodcode) ∈ methodNames) :
    allowed state methodcode = true ↔ (method, methodcode) ∈ methods state := by
  simp only [methodNames, List.mem_cons, Prod.mk.injEq, List.not_mem_nil, or_false] at known
  cases state <;>
    rcases known with named | named | named | named | named | named | named | named |
      named | named | named <;>
    obtain ⟨rfl, rfl⟩ := named <;>
    decide

theorem methodOf_eq {method : List Byte} {methodcode : RTSPMethod}
    (known : (method, methodcode) ∈ methodNames) : methodOf method = methodcode := by
  simp only [methodNames, List.mem_cons, Prod.mk.injEq, List.not_mem_nil, or_false] at known
  rcases known with named | named | named | named | named | named | named | named |
    named | named | named
  all_goals
    obtain ⟨rfl, rfl⟩ := named
    decide

namespace Grammatical
variable {state : RTSPClientState} {line method uri : List Byte} {methodcode : RTSPMethod}

/-- A line of the grammar is split by the first two blanks, as parse_command_line splits it. -/
theorem accepted (grammatical : Grammatical state line method methodcode uri) :
    (∃ tail, line = requestLine method uri tail) ∧ Accepted state method uri ∧
      methodOf method = methodcode := by
  have known := methods_known state grammatical.named
  have code := methodOf_eq known
  have method_allowed := (allowed_iff known).mpr grammatical.named
  refine ⟨grammatical.text, ?_, code⟩
  exact ⟨grammatical.method_word, grammatical.method_fits, grammatical.uri_word,
    grammatical.uri_fits, code.symm ▸ method_allowed⟩

theorem parse_eq (grammatical : Grammatical state line method methodcode uri) (free : 0 ∉ line)
    (uri₀ : Buffer 500) (method₀ : Buffer 10) (methodcode₀ : RTSPMethod) :
    parse_command_line state line uri₀ method₀ methodcode₀ =
      ⟨0, uri₀.store uri, method₀.store method, methodcode⟩ := by
  obtain ⟨⟨tail, rfl⟩, accepted, rfl⟩ := grammatical.accepted
  exact accepted.parse_eq (fun inside => free (List.mem_append_left _ inside)) _ _ _

/-- The two words of a line of the grammar have no NUL, as the line has none. -/
theorem words_free (grammatical : Grammatical state line method methodcode uri)
    (free : 0 ∉ line) : 0 ∉ method ∧ 0 ∉ uri := by
  obtain ⟨tail, rfl⟩ := grammatical.text
  constructor
  · intro inside
    exact free (List.mem_append_left _ inside)
  · intro inside
    apply free
    apply List.mem_append_right
    apply List.mem_cons_of_mem
    exact List.mem_append_left _ inside

end Grammatical

theorem Accepted.grammatical {state : RTSPClientState} {method uri : List Byte}
    (accepted : Accepted state method uri) (tail : List Byte) :
    Grammatical state (requestLine method uri tail) method (methodOf method) uri := by
  have method_allowed := accepted.method_allowed
  have known : (method, methodOf method) ∈ methodNames := by
    apply methodOf_known
    intro unknown
    rw [unknown] at method_allowed
    cases state <;> simp [allowed] at method_allowed
  exact ⟨⟨tail, rfl⟩, accepted.method_word, accepted.method_fits, accepted.uri_word,
    accepted.uri_fits, (allowed_iff known).mp method_allowed⟩

/-- parse_command_line accepts exactly the lines of the grammar of the state, and
leaves the two words of an accepted line in the arrays of its caller. -/
theorem accepts_iff_grammatical (state : RTSPClientState) (memory : List Byte)
    (uri₀ : Buffer 500) (method₀ : Buffer 10) (methodcode₀ : RTSPMethod) :
    let command := parse_command_line state (cstring memory) uri₀ method₀ methodcode₀
    (command.ret = 0 ↔
      ∃ method methodcode uri, Grammatical state (cstring memory) method methodcode uri) ∧
    ∀ method methodcode uri, Grammatical state (cstring memory) method methodcode uri →
      command.method.Holds method ∧ command.uri.Holds uri ∧
        command.methodcode = methodcode := by
  have free := notMem_cstring memory
  constructor
  · constructor
    · intro parsed
      obtain ⟨method, uri, tail, text, accepted⟩ := accepted_of_parse free parsed
      rw [text]
      exact ⟨method, methodOf method, uri, accepted.grammatical tail⟩
    · rintro ⟨method, methodcode, uri, grammatical⟩
      rw [grammatical.parse_eq free]
  · intro method methodcode uri grammatical
    obtain ⟨method_free, uri_free⟩ := grammatical.words_free free
    have method_fits := grammatical.method_fits
    have uri_fits := grammatical.uri_fits
    rw [grammatical.parse_eq free]
    exact ⟨⟨method_free, Buffer.keeps_store _ (by omega)⟩,
      ⟨uri_free, Buffer.keeps_store _ (by omega)⟩, rfl⟩

/-- An idle server takes OPTIONS for any URI that fits. -/
theorem accepts_options :
    let line := bytes "OPTIONS rtsp://a/b RTSP/1.0"
    let command := parse_command_line .IDLE (cstring (line ++ [0])) (.zero _) (.zero _) .UNKNOWN
    command.ret = 0 ∧ command.method.Holds (bytes "OPTIONS") ∧
      command.uri.Holds (bytes "rtsp://a/b") ∧ command.methodcode = .OPTIONS := by
  intro line command
  have grammatical : Grammatical .IDLE (cstring (line ++ [0])) (bytes "OPTIONS") .OPTIONS
      (bytes "rtsp://a/b") :=
    ⟨⟨[], by decide⟩, by decide, by decide, by decide, by decide, by decide⟩
  have both := accepts_iff_grammatical .IDLE (line ++ [0]) (.zero _) (.zero _) .UNKNOWN
  exact ⟨both.1.mpr ⟨_, _, _, grammatical⟩, both.2 _ _ _ grammatical⟩

end TestIOCP.Rtsp
