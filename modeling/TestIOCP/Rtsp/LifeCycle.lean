import TestIOCP.Rtsp.Answer

/-! The life of an RTSP session. The handlers of SETUP, PLAY and TEARDOWN move the state
on, but parse_command_line lets none of their methods in before it has moved. -/
namespace TestIOCP.Rtsp
open CString

/-- A header that announces a body of n bytes. -/
def contentLength (n : Nat) : List Byte :=
  bytes "Content-Length: " ++ unsignedText n

/-- A request with its body in a chunk of its own, and what the system knows then. -/
structure Call where
  env : Env
  request : Request
  body : List Byte := []

namespace Call

structure WellFormed (call : Call) : Prop where
  request : call.request.WellFormed
  body : call.body ≠ [] → contentLength call.body.length ∈ call.request.headers

def reply (call : Call) (r : RtspServer) : RtspServer × List Reply :=
  ReadedDataProcess call.env r (call.request.text ++ call.body)

end Call

/-- The server after some requests. -/
def converse (r : RtspServer) (calls : List Call) : RtspServer :=
  calls.foldl (fun r call => (call.reply r).1) r

/-- A session: the requests that move the state, and what is asked before each of them. -/
structure LifeCycle where
  asked₀ : List Call
  announce : Call
  asked₁ : List Call
  setup : Call
  asked₂ : List Call
  start : Call
  asked₃ : List Call
  teardown : Call

/-- The transports that a header line lists. -/
def transportsOf (env : Env) (readpos : Nat) (line : List Byte) : List RTSPTransportField :=
  match av_stristart line (bytes "Transport:") with
  | none => []
  | some p =>
    let msg := rtsp_parse_transport env .zero (env.lower_transport readpos) p
    msg.transports.take msg.nb_transports

/-- A request that offers a transport which the server can use. -/
def Call.Offers (call : Call) : Prop :=
  ∃ line ∈ call.request.headers, ∃ readpos, ∃ th ∈ transportsOf call.env readpos line,
    th.lower_transport = .UDP ∨ th.lower_transport = .TCP

def Call.Asks (call : Call) (method : String) : Prop :=
  call.WellFormed ∧ call.request.method = bytes method

namespace LifeCycle

structure WellFormed (c : LifeCycle) : Prop where
  asked : ∀ call ∈ c.asked₀ ++ c.asked₁ ++ c.asked₂ ++ c.asked₃, call.Asks "OPTIONS"
  announce : c.announce.Asks "ANNOUNCE"
  setup : c.setup.Asks "SETUP" ∧ c.setup.Offers
  start : c.start.Asks "RECORD" ∨ c.start.Asks "PLAY"
  teardown : c.teardown.Asks "TEARDOWN"

def beforeSetup (c : LifeCycle) : List Call :=
  c.asked₀ ++ c.announce :: c.asked₁

def beforeStart (c : LifeCycle) : List Call :=
  c.beforeSetup ++ c.setup :: c.asked₂

def beforeTeardown (c : LifeCycle) : List Call :=
  c.beforeStart ++ c.start :: c.asked₃

/-- One request moves the state and is answered with success. -/
structure Moves (r : RtspServer) (call : Call) (source target : RTSPClientState) : Prop where
  before : r.m_RtspState = source
  after : (call.reply r).1.m_RtspState = target
  answered : ∃ reply, (call.reply r).2 = [reply] ∧ reply.code = RTSP_STATUS_OK

/-- What the session should do. -/
structure Completes (c : LifeCycle) (r : RtspServer) : Prop where
  setup : Moves (converse r c.beforeSetup) c.setup .IDLE .PAUSED
  start : Moves (converse r c.beforeStart) c.start .PAUSED .STREAMING
  teardown : Moves (converse r c.beforeTeardown) c.teardown .STREAMING .IDLE

end LifeCycle

theorem Idle.reply {r : RtspServer} (idle : Idle r.toSession) (call : Call) :
    Idle (call.reply r).1.toSession := by
  have same := congrArg Prod.fst
    (readedDataProcess_spec call.env r (call.request.text ++ call.body))
  simp only at same
  rw [Call.reply, same]
  exact idle.process_each _ _ _ _

theorem Idle.converse {r : RtspServer} (idle : Idle r.toSession) (calls : List Call) :
    Idle (converse r calls).toSession := by
  induction calls generalizing r with
  | nil => exact idle
  | cons call calls ih => exact ih (idle.reply call)

/-- The server stays idle and does not answer. -/
structure Stalls (r : RtspServer) (call : Call) : Prop where
  before : r.m_RtspState = .IDLE
  after : (call.reply r).1.m_RtspState = .IDLE
  silent : (call.reply r).2 = []

namespace Waits
variable {r : RtspServer} {call : Call}

theorem of_fresh (fresh : Fresh r) : Waits r.toSession :=
  ⟨.of_fresh fresh, fresh.anaPhase⟩

/-- A request without a body leaves the server waiting for the next one. -/
theorem reply (waits : Waits r.toSession) (wellFormed : call.request.WellFormed)
    (bodiless : call.body = []) :
    Waits (call.reply r).1.toSession ∧ (call.reply r).2 = call.request.answer := by
  rw [Call.reply, bodiless, List.append_nil]
  exact waits.request call.env wellFormed

theorem converse (waits : Waits r.toSession) {calls : List Call}
    (wellFormed : ∀ call ∈ calls, call.request.WellFormed ∧ call.body = []) :
    Waits (converse r calls).toSession := by
  induction calls generalizing r with
  | nil => exact waits
  | cons call calls ih =>
    simp only [List.forall_mem_cons] at wellFormed
    exact ih (waits.reply wellFormed.1.1 wellFormed.1.2).1 wellFormed.2

/-- Only OPTIONS is answered. -/
theorem stalls (waits : Waits r.toSession) (wellFormed : call.request.WellFormed)
    (bodiless : call.body = [])
    (other : call.request.method ≠ bytes "OPTIONS") : Stalls r call := by
  obtain ⟨after, replies⟩ := waits.reply wellFormed bodiless
  refine ⟨waits.idle.state, after.idle.state, ?_⟩
  rw [replies, Request.answer, if_neg fun answered => other answered.1]

end Waits

namespace LifeCycle
variable {c : LifeCycle}

def calls (c : LifeCycle) : List Call :=
  c.beforeTeardown ++ [c.teardown]

theorem WellFormed.request (wellFormed : c.WellFormed) :
    ∀ call ∈ c.calls, call.request.WellFormed := by
  intro call inside
  have asked := wellFormed.asked call
  simp only [calls, beforeTeardown, beforeStart, beforeSetup, List.mem_append, List.mem_cons,
    List.not_mem_nil, or_false] at inside asked
  rcases inside with (((inside | rfl | inside) | rfl | inside) | rfl | inside) | rfl
  · exact (asked (by simp [inside])).1.request
  · exact wellFormed.announce.1.request
  · exact (asked (by simp [inside])).1.request
  · exact wellFormed.setup.1.1.request
  · exact (asked (by simp [inside])).1.request
  · exact wellFormed.start.elim (·.1.request) (·.1.request)
  · exact (asked (by simp [inside])).1.request
  · exact wellFormed.teardown.1.request

/-- In a session without bodies the requests that should move the state are not answered. -/
theorem WellFormed.stalls (wellFormed : c.WellFormed) (bodiless : ∀ call ∈ c.calls, call.body = [])
    {r : RtspServer} (fresh : Fresh r) :
    Stalls (converse r c.beforeSetup) c.setup ∧ Stalls (converse r c.beforeStart) c.start ∧
      Stalls (converse r c.beforeTeardown) c.teardown := by
  have waits {calls : List Call} (part : calls <+: c.calls) : Waits (converse r calls).toSession :=
    (Waits.of_fresh fresh).converse fun call inside =>
      ⟨wellFormed.request call (part.subset inside), bodiless call (part.subset inside)⟩
  have refused {call : Call} {method : String} {calls : List Call}
      (part : calls ++ [call] <+: c.calls)
      (asks : call.Asks method) (other : bytes method ≠ bytes "OPTIONS") :
      Stalls (converse r calls) call :=
    (waits ((List.prefix_append _ _).trans part)).stalls asks.1.request
      (bodiless call (part.subset (by simp))) (asks.2 ▸ other)
  have start : c.beforeStart ++ [c.start] <+: c.calls := by
    simp [calls, beforeTeardown, List.prefix_append_right_inj]
  have setup : c.beforeSetup ++ [c.setup] <+: c.calls := by
    simp [calls, beforeTeardown, beforeStart, List.prefix_append_right_inj]
  refine ⟨refused setup wellFormed.setup.1 (by decide), ?_,
    refused (List.prefix_refl _) wellFormed.teardown (by decide)⟩
  rcases wellFormed.start with asks | asks
  · exact refused start asks (by decide)
  · exact refused start asks (by decide)

/-- No session ever completes, well formed or not: SETUP leads nowhere. -/
theorem never_completes (c : LifeCycle) (r : RtspServer) (fresh : Fresh r) : ¬ c.Completes r := by
  intro completes
  have idle := ((Idle.of_fresh fresh).converse c.beforeSetup).reply c.setup
  have paused := completes.setup.after
  rw [idle.state] at paused
  cases paused

/-- A session as the Public header of the server suggests it. -/
def simple : LifeCycle where
  asked₀ := [{ env := .blank, request := ask "OPTIONS" }]
  announce := { env := .blank, request := ask "ANNOUNCE" }
  asked₁ := []
  setup := { env := .blank, request := { ask "SETUP" with
    headers := [bytes "CSeq: 1", bytes "Transport: RTP/AVP;unicast;client_port=8000-8001"] } }
  asked₂ := []
  start := { env := .blank, request := ask "RECORD" }
  asked₃ := []
  teardown := { env := .blank, request := ask "TEARDOWN" }

theorem wellFormed_simple : simple.WellFormed := by
  have transport : Header (bytes "Transport: RTP/AVP;unicast;client_port=8000-8001") :=
    ⟨⟨bytes "Transport", bytes " RTP/AVP;unicast;client_port=8000-8001", by decide, by decide⟩,
      by decide, by decide⟩
  have asks {method : String} (known : methodOf (bytes method) ≠ .UNKNOWN) :
      Call.Asks { env := .blank, request := ask method } method :=
    ⟨⟨wellFormed_ask known, fun body => absurd rfl body⟩, rfl⟩
  have setup : (ask "SETUP").WellFormed := wellFormed_ask (by decide)
  refine ⟨?_, asks (by decide),
    ⟨⟨⟨⟨setup.method, setup.uri, ?_⟩, fun body => absurd rfl body⟩, rfl⟩, ?_⟩,
    .inl (asks (by decide)), asks (by decide)⟩
  · intro call inside
    obtain rfl := List.mem_singleton.mp inside
    exact asks (by decide)
  · intro line inside
    rcases List.mem_cons.mp inside with rfl | inside
    · exact setup.headers _ List.mem_cons_self
    · obtain rfl := List.mem_singleton.mp inside
      exact transport
  · refine ⟨_, List.mem_cons_of_mem _ List.mem_cons_self, 0, ?_⟩
    exact (by decide +kernel : ∃ th ∈ transportsOf .blank 0
      (bytes "Transport: RTP/AVP;unicast;client_port=8000-8001"),
      th.lower_transport = .UDP ∨ th.lower_transport = .TCP)

theorem simple_never_completes : ¬ simple.Completes blank :=
  never_completes simple blank fresh_blank

/-- ANNOUNCE, SETUP, RECORD and TEARDOWN on a new server: SETUP finds it idle and is refused. -/
theorem setup_refused : ¬ ∀ c : LifeCycle, c.WellFormed → ∀ r, Fresh r → c.Completes r := by
  intro completes
  have paused := (completes simple wellFormed_simple blank fresh_blank).setup.after
  have idle : (simple.setup.reply (converse blank simple.beforeSetup)).1.m_RtspState = .IDLE := by
    decide +kernel
  rw [idle] at paused
  cases paused

end LifeCycle

end TestIOCP.Rtsp
