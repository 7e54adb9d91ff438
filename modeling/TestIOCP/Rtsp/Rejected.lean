import TestIOCP.Rtsp.Carried
import TestIOCP.Rtsp.Reassembly

/-! Requests that are rejected. Between requests a server is the same for everything that
comes later whatever method it noted last. -/
namespace TestIOCP.Rtsp
open CString

/-- Sessions that differ in the noted method at most, and only between requests. -/
structure Like (r₁ r₂ : Session) : Prop where
  others : r₁ = { r₂ with methodcode := r₁.methodcode }
  code : r₂.m_nAnaPhase ≠ 0 → r₁.methodcode = r₂.methodcode

namespace Like
variable {r₁ r₂ : Session}

theorem refl (r : Session) : Like r r :=
  ⟨rfl, fun _ => rfl⟩

theorem of_waiting {r : Session} (waiting : r.m_nAnaPhase = 0) (methodcode : RTSPMethod) :
    Like { r with methodcode } r :=
  ⟨rfl, fun busy => absurd waiting busy⟩

theorem same_of_busy (like : Like r₁ r₂) (busy : r₂.m_nAnaPhase ≠ 0) : r₁ = r₂ := by
  rw [like.others, like.code busy]

/-- The noted method plays no part in reading a request line. -/
theorem parse (state : RTSPClientState) (line : List Byte) (uri : Buffer 500) (method : Buffer 10)
    (methodcode methodcode' : RTSPMethod) :
    let one := parse_command_line state line uri method methodcode
    let other := parse_command_line state line uri method methodcode'
    one.ret = other.ret ∧ one.uri = other.uri ∧ one.method = other.method ∧
      (one.ret = 0 → one.methodcode = other.methodcode) := by
  simp only [parse_command_line]
  split
  · simp
  · split
    · simp
    · split
      · simp
      · split
        · simp
        · split
          · simp
          · split <;> simp

/-- One line keeps the sessions alike and is answered alike. -/
theorem process_line (like : Like r₁ r₂) (env : Env) (v : Locals) (readpos linesize : Nat)
    (line : List Byte) :
    Like (process_line env r₁ v readpos linesize line).1
      (process_line env r₂ v readpos linesize line).1 ∧
      (process_line env r₁ v readpos linesize line).2 =
        (process_line env r₂ v readpos linesize line).2 := by
  by_cases waiting : r₂.m_nAnaPhase = 0
  · have others := like.others
    generalize r₁.methodcode = methodcode at others
    subst others
    simp only [Rtsp.process_line]
    split
    · obtain ⟨ret, uri, method, code⟩ :=
        parse r₂.m_RtspState line v.uri v.method methodcode r₂.methodcode
      rw [← ret, ← uri, ← method]
      split
      · rename_i accepted
        rw [code accepted]
        exact ⟨refl _, rfl⟩
      · exact ⟨⟨rfl, fun busy => absurd waiting busy⟩, rfl⟩
    · simp only [if_neg (show ¬ r₂.m_nAnaPhase = 1 by simp [waiting])]
      exact ⟨of_waiting waiting methodcode, trivial⟩
  · rw [like.same_of_busy waiting]
    exact ⟨refl _, rfl⟩

end Like

/-- Servers that also carry the same bytes. -/
structure Interchangeable (r₁ r₂ : RtspServer) : Prop where
  like : Like r₁.toSession r₂.toSession
  carry : r₁.carry = r₂.carry

theorem carry_cleared_congr {r₁ r₂ : RtspServer} (same : r₁.carry = r₂.carry) :
    r₁.cleared.carry = r₂.cleared.carry := by
  have size : r₁.m_nTempDataSize = r₂.m_nTempDataSize := congrArg Prod.fst same
  simp only [RtspServer.cleared, size]
  split
  · exact same
  · rfl

namespace Interchangeable
variable {r₁ r₂ : RtspServer}

theorem refl (r : RtspServer) : Interchangeable r r :=
  ⟨.refl _, rfl⟩

/-- read_line finds the same line for both of them. -/
theorem read_line (same : Interchangeable r₁ r₂) (data : List Byte) (readpos : Nat) :
    let one := Rtsp.read_line r₁ data readpos
    let other := Rtsp.read_line r₂ data readpos
    Interchangeable one.server other.server ∧ one.ret = other.ret ∧
      (one.ret = 0 → one.readpos = other.readpos ∧ one.linelen = other.linelen ∧
        one.server.m_LineBuf.string = other.server.m_LineBuf.string) := by
  intro one other
  obtain ⟨session₁, found₁⟩ := read_line_spec r₁ data readpos
  obtain ⟨session₂, found₂⟩ := read_line_spec r₂ data readpos
  have carry₁ := read_line_carry r₁ data readpos
  have carry₂ := read_line_carry r₂ data readpos
  have like : Like one.server.toSession other.server.toSession := by
    rw [session₁, session₂]
    exact same.like
  cases ran : ({} : Line).run (data.drop readpos) with
  | none =>
    rw [ran] at found₁ found₂ carry₁ carry₂
    have failed : one.ret ≠ 0 := by
      rw [found₁]
      decide
    exact ⟨⟨like, carry₁.trans carry₂.symm⟩, found₁.trans found₂.symm, fun zero =>
      absurd zero failed⟩
  | some answer =>
    obtain ⟨line, rest⟩ := answer
    rw [ran] at found₁ found₂ carry₁ carry₂
    obtain ⟨ret₁, linelen₁, keeps₁, position₁⟩ := found₁
    obtain ⟨ret₂, linelen₂, keeps₂, position₂⟩ := found₂
    refine ⟨⟨like, ?_⟩, ret₁.trans ret₂.symm, fun _ => ⟨?_, ?_, ?_⟩⟩
    · exact carry₁.trans ((carry_cleared_congr same.carry).trans carry₂.symm)
    · exact Nat.add_right_cancel (position₁.trans position₂.symm)
    · exact linelen₁.trans linelen₂.symm
    · exact keeps₁.string_eq.trans keeps₂.string_eq.symm

theorem process_lines (same : Interchangeable r₁ r₂) (env : Env) (data : List Byte)
    (fuel : Nat) (v : Locals)
    (readpos : Nat) :
    Interchangeable (process_lines env data fuel r₁ v readpos).1
      (process_lines env data fuel r₂ v readpos).1 ∧
      (process_lines env data fuel r₁ v readpos).2 =
        (process_lines env data fuel r₂ v readpos).2 := by
  induction fuel generalizing r₁ r₂ v readpos with
  | zero => exact ⟨same, rfl⟩
  | succ fuel ih =>
    obtain ⟨read, ret, found⟩ := same.read_line data readpos
    simp only [Rtsp.process_lines, ← ret]
    split
    · exact ⟨read, rfl⟩
    · rename_i complete
      have zero : (Rtsp.read_line r₁ data readpos).ret = 0 := by
        obtain ⟨-, spec⟩ := read_line_spec r₁ data readpos
        split at spec
        · exact spec.1
        · rw [spec] at complete
          exact absurd (by decide) complete
      obtain ⟨place, linelen, string⟩ := found zero
      rw [← place, ← linelen, ← string]
      generalize (Rtsp.read_line r₁ data readpos).readpos = place
      generalize (Rtsp.read_line r₁ data readpos).linelen = linesize
      generalize (Rtsp.read_line r₁ data readpos).server.m_LineBuf.string = line
      obtain ⟨like, results⟩ := read.like.process_line env v place linesize line
      cases one : Rtsp.process_line env (Rtsp.read_line r₁ data readpos).server.toSession v
        place linesize line
      cases other : Rtsp.process_line env (Rtsp.read_line r₂ data readpos).server.toSession v
        place linesize line
      rw [one, other] at like results
      simp only at like results
      subst results
      split
      · exact ⟨⟨like, read.carry⟩, rfl⟩
      · have next : Interchangeable { (Rtsp.read_line r₁ data readpos).server with toSession := _ }
            { (Rtsp.read_line r₂ data readpos).server with toSession := _ } := ⟨like, read.carry⟩
        obtain ⟨after, others⟩ := ih next _ place
        exact ⟨after, congrArg (HAppend.hAppend _) others⟩

/-- Later chunks are processed alike. -/
theorem receive (same : Interchangeable r₁ r₂) (chunks : List (Env × List Byte)) :
    Interchangeable (receive r₁ chunks).1 (receive r₂ chunks).1 ∧
      (receive r₁ chunks).2 = (receive r₂ chunks).2 := by
  induction chunks generalizing r₁ r₂ with
  | nil => exact ⟨same, rfl⟩
  | cons chunk chunks ih =>
    obtain ⟨env, data⟩ := chunk
    obtain ⟨here, replies⟩ := same.process_lines env data (data.length + 1) ⟨env.uri, env.method⟩ 0
    obtain ⟨after, others⟩ := ih here
    exact ⟨after, congrArg₂ (· ++ ·) replies others⟩

end Interchangeable

/-- A request whose request line the server rejects, with headers that have their colon
before their first space. -/
structure Rejected (env : Env) (r : RtspServer) (command : List Byte)
    (headers : List (List Byte)) : Prop where
  negative : (parse_command_line r.m_RtspState (cstring command) env.uri env.method
    r.methodcode).ret < 0
  fields : ∀ line ∈ headers, ∃ name value, line = name ++ ch ':' :: value ∧ ch ' ' ∉ name
  command_plain : Plain command
  headers_plain : ∀ line ∈ headers, Plain line

namespace Rejected
variable {env : Env} {r : RtspServer} {command : List Byte} {headers : List (List Byte)}

theorem refused (rejected : Rejected env r command headers) :
    ∀ line ∈ command :: (headers ++ [[]]), ¬ AcceptedLine r.m_RtspState line := by
  intro line inside
  rcases List.mem_cons.mp inside with rfl | inside
  · rintro ⟨method, uri, tail, text, accepted⟩
    have negative := rejected.negative
    have free : 0 ∉ requestLine method uri tail := text ▸ notMem_cstring line
    have method_free : 0 ∉ method := fun inside => free (List.mem_append_left _ inside)
    rw [text, accepted.parse method_free] at negative
    exact absurd negative (by decide)
  · rcases List.mem_append.mp inside with header | blank
    · obtain ⟨name, value, rfl, word⟩ := rejected.fields line header
      exact not_accepted_of_colon word
    · obtain rfl := List.mem_singleton.mp blank
      exact not_accepted_empty _

theorem plain (rejected : Rejected env r command headers) :
    ∀ line ∈ command :: (headers ++ [[]]), Plain line := by
  intro line inside
  rcases List.mem_cons.mp inside with rfl | inside
  · exact rejected.command_plain
  · rcases List.mem_append.mp inside with header | blank
    · exact rejected.headers_plain line header
    · obtain rfl := List.mem_singleton.mp blank
      exact ⟨by simp, by simp⟩

/-- The server only notes another method. -/
theorem process (rejected : Rejected env r command headers) (waiting : r.m_nAnaPhase = 0)
    (nothing : r.m_nTempDataSize = 0) :
    let result := ReadedDataProcess env r (linesText (command :: (headers ++ [[]])))
    (∃ methodcode, result.1.toSession = { r.toSession with methodcode }) ∧ result.2 = [] ∧
      result.1.carry = r.carry := by
  intro result
  have lines := lines_texts rejected.plain
  have refused : ∀ line ∈ ({} : Line).lines (linesText (command :: (headers ++ [[]]))),
      ¬ AcceptedLine r.m_RtspState line.1 := by
    intro line inside
    exact rejected.refused line.1 (by rw [← lines]; exact List.mem_map_of_mem inside)
  obtain ⟨methodcode, quiet⟩ := process_each_quiet env
    (linesText (command :: (headers ++ [[]]))).length ⟨env.uri, env.method⟩ waiting refused
  have spec := readedDataProcess_spec env r (linesText (command :: (headers ++ [[]])))
  rw [Session.process, quiet] at spec
  refine ⟨⟨methodcode, congrArg Prod.fst spec⟩, congrArg Prod.snd spec, ?_⟩
  obtain ⟨line, finished⟩ := lines_finished (by simp) rejected.plain
  exact readedDataProcess_finished env nothing finished

end Rejected

/-- What is left of a request: the fields that decide about the later ones. -/
structure SameAfter (r₁ r₂ : RtspServer) : Prop where
  m_RtspState : r₁.m_RtspState = r₂.m_RtspState
  m_nAnaPhase : r₁.m_nAnaPhase = r₂.m_nAnaPhase
  m_RtspReplyMessage : r₁.m_RtspReplyMessage = r₂.m_RtspReplyMessage
  session_id : r₁.session_id = r₂.session_id
  carry : r₁.carry = r₂.carry

theorem Interchangeable.sameAfter {r₁ r₂ : RtspServer} (same : Interchangeable r₁ r₂) :
    SameAfter r₁ r₂ := by
  have others := same.like.others
  constructor
  · exact congrArg (·.m_RtspState) others
  · exact congrArg (·.m_nAnaPhase) others
  · exact congrArg (·.m_RtspReplyMessage) others
  · exact congrArg (·.session_id) others
  · exact same.carry

/-- A rejected request is not answered, changes nothing, and makes no difference later. -/
theorem rejected_inert (env : Env) (r : RtspServer) (command : List Byte)
    (headers : List (List Byte))
    (waiting : r.m_nAnaPhase = 0) (nothing : r.m_nTempDataSize = 0)
    (rejected : Rejected env r command headers) :
    let result := ReadedDataProcess env r (linesText (command :: (headers ++ [[]])))
    result.2 = [] ∧ SameAfter result.1 r ∧ ∀ chunks : List (Env × List Byte),
      (receive result.1 chunks).2 = (receive r chunks).2 ∧
        SameAfter (receive result.1 chunks).1 (receive r chunks).1 := by
  intro result
  obtain ⟨⟨methodcode, session⟩, silent, carry⟩ := rejected.process waiting nothing
  have same : Interchangeable result.1 r := by
    constructor
    · rw [session]
      exact .of_waiting waiting methodcode
    · exact carry
  refine ⟨silent, same.sameAfter, fun chunks => ?_⟩
  obtain ⟨after, replies⟩ := same.receive chunks
  exact ⟨replies, after.sameAfter⟩

theorem play_rejected : Rejected .blank blank (bytes "PLAY rtsp://h/ RTSP/1.0")
    [bytes "CSeq: 1"] := by
  constructor
  · decide +kernel
  · intro line inside
    obtain rfl := List.mem_singleton.mp inside
    exact ⟨bytes "CSeq", bytes " 1", by decide, by decide⟩
  · exact ⟨by decide, by decide⟩
  · intro line inside
    obtain rfl := List.mem_singleton.mp inside
    exact ⟨by decide, by decide⟩

theorem play_rejected_inert :
    let result := ReadedDataProcess .blank blank
      (linesText (bytes "PLAY rtsp://h/ RTSP/1.0" :: ([bytes "CSeq: 1"] ++ [[]])))
    result.2 = [] ∧ SameAfter result.1 blank ∧ ∀ chunks : List (Env × List Byte),
      (receive result.1 chunks).2 = (receive blank chunks).2 ∧
        SameAfter (receive result.1 chunks).1 (receive blank chunks).1 :=
  rejected_inert .blank blank _ _ rfl rfl play_rejected

end TestIOCP.Rtsp
