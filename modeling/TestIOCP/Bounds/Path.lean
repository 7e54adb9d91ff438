import TestIOCP.Bounds.Accesses
import TestIOCP.Rtsp.Answer
import TestIOCP.Rtsp.Decimal
import TestIOCP.Tcp.Connecter
import TestIOCP.Tcp.Worker
import TestIOCP.Tcp.Parts
import TestIOCP.Udp.Receiver

/-! The way of the bytes from a receive to a reply: the reads that are posted, the chunks
that they bring to the objects of CRtspServer, and the replies that are written. Each of
the three classes has its own buffers, and all of them are RECVBUFSIZE bytes with the
reference count in the first four. -/
namespace TestIOCP.Bounds
open CString Program Rtsp

variable {R O F α : Type}

/-- The buffer of WSARecv is as long as m_nBufSize says. -/
def udpAccesses : Udp.Op R O → List Access
  | .clearRef _ | .addRef _ | .releaseRef _ => [⟨.allocation, 0, 4⟩]
  | .setDataBuf _ _ m_nBufSize => [⟨.allocation, 4, m_nBufSize⟩]
  | _ => []

def tcpAccesses : Tcp.Op F → List Access
  | .memcpy _ size => [⟨.allocation, 4, size⟩]
  | .post _ _ _ (some _) len => [⟨.allocation, 4, len⟩]
  | _ => []

/-- No run of the call leaves the buffers. -/
def UdpSafe (p : Udp.Call R O α) : Prop :=
  p.Every fun op => ∀ a ∈ udpAccesses op, a.InRange

def TcpSafe (p : Tcp.Call F α) : Prop :=
  p.Every fun op => ∀ a ∈ tcpAccesses op, a.InRange

/-- Whatever is in the lists, the receive that is posted goes four bytes beyond the buffer. -/
theorem udpRead_outOfRange (r : R) : ¬ UdpSafe (Udp.read r : Udp.Call R O Int) := by
  intro safe
  -- a run that finds buffer 0 and request 0 in the lists
  have posts := ((((safe.2 (some 0)).2 ()).2 (some 0)).2 ()).1
  exact absurd (posts ⟨.allocation, 4, RECVBUFSIZE⟩ List.mem_cons_self) (by decide)

section
variable {op : Tcp.Op F}

theorem silent (nothing : tcpAccesses op = []) : TcpSafe (Tcp.perform op) := by
  refine .perform ?_
  rw [nothing]
  exact fun _ inside => nomatch inside

theorem takeBuf_safe : TcpSafe (Tcp.takeBuf : Tcp.Call F (Option Tcp.Buf)) :=
  Tcp.takeBuf_every (by simp [tcpAccesses]) (by simp [tcpAccesses]) (by simp [tcpAccesses])

theorem takeReq_safe (m_pObserver : Option Tcp.Obj) :
    TcpSafe (Tcp.takeReq m_pObserver : Tcp.Call F (Option Tcp.Req)) :=
  Tcp.takeReq_every (by simp [tcpAccesses]) (by simp [tcpAccesses]) (by simp [tcpAccesses])

end

/-- Read and Write of the TCP classes stay in the buffer if the size leaves room for the
reference count. -/
theorem transfer_safe [Tcp.Counted F] (w : Tcp.Obj) (type : OperateType)
    (observer : Option Tcp.Obj) {size : Nat}
    (noBuf noReq : Int) (c : Engine.Counter) (fits : 4 + size ≤ RECVBUFSIZE) :
    TcpSafe (Tcp.transfer w type observer size noBuf noReq c : Tcp.Call F Int) := by
  have one : ∀ a ∈ [(⟨.allocation, 4, size⟩ : Access)], a.InRange := by
    refine List.forall_mem_singleton.mpr ?_
    simp only [Access.InRange, Memory.size]
    omega
  refine takeBuf_safe.bind fun b => ?_
  cases b with
  | none => exact (silent rfl).bind fun _ => trivial
  | some b =>
    refine (takeReq_safe observer).bind fun q => ?_
    cases q with
    | none => exact (silent rfl).bind fun _ => trivial
    | some q =>
      refine (silent rfl).bind fun _ => ?_
      split
      on_goal 1 => refine .bind (.perform one) fun _ => ?_
      all_goals
        refine (silent rfl).bind fun this => .bind (.perform one) fun outcome => ?_
        cases outcome with
        | failed =>
          exact (silent rfl).bind fun _ => (silent rfl).bind fun _ =>
            (silent rfl).bind fun _ => trivial
        | pending | success => exact (silent rfl).bind fun _ => trivial

theorem av_strlcat_length {dst : List Byte} {n : Nat} (bound : dst.length ≤ n)
    (src : List Byte) (size : Nat) :
    (av_strlcat dst src size).length ≤ n + src.length := by
  simp only [av_strlcat]
  split
  · omega
  · simp only [List.length_append, List.length_take]
    omega

/-- Around its headers a reply has the status line, CSeq, Server and an empty line. -/
theorem reply_length (extracontent : List Byte) (seq : BitVec 16) {reply : Reply}
    (sent : reply ∈ (rtsp_send_reply RTSP_STATUS_OK extracontent seq).toList) :
    reply.message.length ≤ extracontent.length + 70 := by
  have found : status_messages.lookup RTSP_STATUS_OK = some (bytes "OK") := by decide
  simp only [rtsp_send_reply, found, Option.map_some, Option.toList_some,
    List.mem_singleton] at sent
  have digits : (unsignedText seq.toNat).length ≤ 5 :=
    unsignedText_length (by decide) (seq.isLt.trans (by decide))
  have status : (bytes "RTSP/1.0 " ++ unsignedText RTSP_STATUS_OK ++ ch ' ' :: bytes "OK" ++
      bytes "\r\n").length ≤ 17 := by
    decide
  have cseq : (bytes "CSeq: ").length = 6 ∧ (bytes "\r\n").length = 2 := by decide
  have server : (bytes "Server: Beijing Cti Streaming Server\r\n").length = 38 := by decide
  have whole := av_strlcat_length (av_strlcat_length (av_strlcat_length (av_strlcat_length status
    (bytes "CSeq: " ++ unsignedText seq.toNat ++ bytes "\r\n") 4096)
    (bytes "Server: Beijing Cti Streaming Server\r\n") 4096) extracontent 4096) (bytes "\r\n") 4096
  rw [sent]
  generalize av_strlcat _ (bytes "\r\n") 4096 = message at whole ⊢
  refine whole.trans ?_
  simp only [List.length_append, cseq, server]
  omega

/-- All that a reachable session sends are replies to OPTIONS. -/
theorem process_line_replies {r : Session} (idle : Idle r) (env : Env) (v : Locals) (readpos : Nat)
    (line : List Byte)
    {reply : Reply} (sent : reply ∈ (process_line env r v readpos line.length (cstring line)).2.2) :
    reply.message.length ≤ public_line.length + 70 := by
  rcases idle.phase with waiting | busy
  · by_cases accepted : AcceptedLine r.m_RtspState line
    · obtain ⟨method, uri, tail, text, accepted⟩ := accepted
      obtain ⟨v', same⟩ := process_line_accepted env v readpos waiting text accepted
      rw [same] at sent
      cases sent
    · obtain ⟨methodcode, v', same⟩ := process_line_refused env v readpos waiting accepted
      rw [same] at sent
      cases sent
  · by_cases blank : line = []
    · subst blank
      rw [List.length_nil, process_line_blank _ _ readpos busy] at sent
      rcases idle.asked busy with code | code
      · simp only [dispatch, code] at sent
        cases sent
      · simp only [dispatch, code] at sent
        exact reply_length _ _ sent
    · rw [process_line_header _ _ readpos busy blank] at sent
      cases sent

theorem process_each_replies {r : Session} (idle : Idle r) (env : Env) (size : Nat) (v : Locals)
    (lines : List (List Byte × List Byte)) :
    ∀ reply ∈ (process_each env size r v lines).2, reply.message.length ≤
      public_line.length + 70 := by
  induction lines generalizing r v with
  | nil => exact fun _ none_ => nomatch none_
  | cons line lines ih =>
    simp only [process_each]
    exact List.forall_mem_append.mpr ⟨fun reply sent =>
      process_line_replies idle env v _ line.1 sent,
      ih (idle.process_line env v _ line.1) _⟩

/-- The reads of the three classes, and the chunks that a read brings to an object. -/
inductive Entry where
  | udpRead (r : Nat)
  | workerRead (w : Tcp.Obj)
  | connecterRead (w : Tcp.Obj)
  | chunk (w : Tcp.Obj) (env : Env) (data : List Byte)

abbrev Servers := Tcp.Obj → RtspServer

def next (s : Servers) : Entry → Servers
  | .chunk w env data => Function.update s w (ReadedDataProcess env (s w) data).1
  | _ => s

/-- All accesses are in range. -/
def Safe (s : Servers) : Entry → Prop
  | .udpRead r => UdpSafe (Udp.read r : Udp.Call Nat Nat Int)
  | .workerRead w => TcpSafe (Tcp.Worker.read w)
  | .connecterRead w => TcpSafe (Tcp.Connecter.read w)
  | .chunk w env data => (∀ a ∈ readedDataProcessAccesses env (s w) data, a.InRange) ∧
      ∀ reply ∈ (ReadedDataProcess env (s w) data).2,
        TcpSafe (Tcp.Worker.write w reply.message.length)

/-- No receiver reads, a chunk leaves a byte of what was posted, and it does not go on with
a line that the chunk before has left unfinished. -/
def Harmless (s : Servers) : Entry → Prop
  | .udpRead _ => False
  | .workerRead _ | .connecterRead _ => True
  | .chunk w _ data => data.length < RECVBUFSIZE - 4 ∧ carried (s w) = 0

/-- Each step of a run has a property. -/
def Throughout (P : Servers → Entry → Prop) : Servers → List Entry → Prop
  | _, [] => True
  | s, e :: rest => P s e ∧ Throughout P (next s e) rest

theorem next_idle {s : Servers} (idle : ∀ w, Idle (s w).toSession) (e : Entry) : ∀ w,
    Idle (next s e w).toSession := by
  cases e with
  | udpRead r => exact idle
  | workerRead w => exact idle
  | connecterRead w => exact idle
  | chunk v env data =>
    intro w
    by_cases same : w = v
    · subst same
      have after : (ReadedDataProcess env (s w) data).1.toSession =
          ((s w).toSession.process env data).1 :=
        congrArg Prod.fst (readedDataProcess_spec env (s w) data)
      simp only [next, Function.update_self, after]
      exact (idle w).process_each _ _ _ _
    · simpa only [next, Function.update_of_ne same] using idle w

theorem safe_iff {s : Servers} (idle : ∀ w, Idle (s w).toSession) (e : Entry) : Safe s e ↔
    Harmless s e := by
  cases e with
  | udpRead r => exact iff_false_intro (udpRead_outOfRange r)
  | workerRead w => exact iff_of_true (transfer_safe _ _ _ _ _ _ (by decide)) trivial
  | connecterRead w => exact iff_of_true (transfer_safe _ _ _ _ _ _ (by decide)) trivial
  | chunk w env data =>
    have replies : ∀ reply ∈ (ReadedDataProcess env (s w) data).2,
        TcpSafe (Tcp.Worker.write w reply.message.length) := by
      intro reply sent
      have spec := congrArg Prod.snd (readedDataProcess_spec env (s w) data)
      simp only at spec
      rw [spec] at sent
      have small := process_each_replies (idle w) _ _ _ _ reply sent
      refine transfer_safe _ _ _ _ _ _ ((Nat.add_le_add_left small 4).trans (by decide))
    exact (and_iff_left replies).trans (readedDataProcess_inRange_iff env (s w) data)

/-- The path stays in its buffers in exactly the harmless runs of new objects. -/
theorem in_range_iff {s : Servers} (new : ∀ w, Fresh (s w)) (events : List Entry) :
    Throughout Safe s events ↔ Throughout Harmless s events := by
  have idle (w : Tcp.Obj) : Idle (s w).toSession := .of_fresh (new w)
  clear new
  induction events generalizing s with
  | nil => exact Iff.rfl
  | cons e rest ih => exact and_congr (safe_iff idle e) (ih (next_idle idle e))

instance (s : Servers) : (e : Entry) → Decidable (Harmless s e)
  | .udpRead _ => .isFalse id
  | .workerRead _ | .connecterRead _ => .isTrue trivial
  | .chunk w _ data => inferInstanceAs
    (Decidable (data.length < RECVBUFSIZE - 4 ∧ carried (s w) = 0))

def throughoutDecidable (P : Servers → Entry → Prop) [∀ s e, Decidable (P s e)] :
    (s : Servers) → (events : List Entry) → Decidable (Throughout P s events)
  | _, [] => .isTrue trivial
  | s, e :: rest => @instDecidableAnd _ _ _ (throughoutDecidable P (next s e) rest)

instance (s : Servers) (events : List Entry) : Decidable (Throughout Harmless s events) :=
  throughoutDecidable Harmless s events

/-- A request in two chunks, the first of which ends with its line. -/
def cutAtLine : List Entry :=
  [.connecterRead 1, .workerRead 0,
    .chunk 0 .blank (bytes "OPTIONS rtsp://h/ RTSP/1.0\r\n"), .workerRead 0,
    .chunk 0 .blank (bytes "CSeq: 2\r\n\r\n")]

theorem in_range_after_line : Throughout Safe (fun _ => blank) cutAtLine :=
  (in_range_iff (fun _ => fresh_blank) cutAtLine).mpr (by decide +kernel)

/-- A chunk as long as the read that brings it, and one that finishes a line. -/
def full : List Entry := [.chunk 0 .blank (List.replicate (RECVBUFSIZE - 4) 65)]

def cutInLine : List Entry := [.chunk 0 .blank (bytes "OPTIONS "),
    .chunk 0 .blank (bytes "rtsp://h/ RTSP/1.0\r\n")]

theorem out_of_range : ¬ Throughout Safe (fun _ => blank) [.udpRead 0] ∧
    ¬ Throughout Safe (fun _ => blank) full ∧
    ¬ Throughout Safe (fun _ => blank) cutInLine := by
  refine ⟨fun safe => udpRead_outOfRange 0 safe.1, fun safe => ?_, fun safe => ?_⟩
  · have short := ((readedDataProcess_inRange_iff _ _ _).mp safe.1.1).1
    rw [List.length_replicate] at short
    exact Nat.lt_irrefl _ short
  · have nothing := ((readedDataProcess_inRange_iff _ _ _).mp safe.2.1.1).2
    exact absurd nothing (by decide +kernel)

end TestIOCP.Bounds
