import TestIOCP.Rtsp.Decimal
import TestIOCP.Rtsp.Pipelined

/-! The sequence number on its way from a CSeq header to the reply. -/
namespace TestIOCP.Rtsp
open CString

/-- The value of the CSeq header of a message. -/
def cseqHeader (message : List Byte) : Option (List Byte) :=
  ((message.splitOn LF).findSome? fun line => av_strstart line (bytes "CSeq: ")).map
    (·.takeWhile (· ≠ CR))

theorem av_strlcat_extends (dst src : List Byte) (size : Nat) :
    dst <+: av_strlcat dst src size := by
  simp only [av_strlcat]
  split
  · exact List.prefix_refl dst
  · exact List.prefix_append _ _

/-- The status line of a success. -/
def statusLine : List Byte :=
  bytes "RTSP/1.0 200 OK\r"

/-- A reply starts with the status line and the sequence number. -/
theorem reply_start {extracontent : List Byte} {seq : BitVec 16} {reply : Reply}
    (sent : reply ∈ (rtsp_send_reply RTSP_STATUS_OK extracontent seq).toList) :
    ∃ more, reply.message = statusLine ++ LF ::
      (bytes "CSeq: " ++ unsignedText seq.toNat ++ [CR] ++ LF :: more) := by
  have found : status_messages.lookup RTSP_STATUS_OK = some (bytes "OK") := by decide
  simp only [rtsp_send_reply, found, Option.map_some, Option.toList_some,
    List.mem_singleton] at sent
  have status : bytes "RTSP/1.0 " ++ unsignedText RTSP_STATUS_OK ++ ch ' ' ::
      bytes "OK" ++ bytes "\r\n" =
      statusLine ++ [LF] := by decide
  have short : (unsignedText seq.toNat).length ≤ 5 := by
    have below : seq.toNat < 10 ^ 5 := seq.isLt.trans (by decide)
    simpa [unsignedText] using (Nat.length_toDigits_le_iff (by decide) (by decide)).mpr below
  have lengths : statusLine.length = 16 ∧ (bytes "CSeq: ").length = 6 ∧
    (bytes "\r\n").length = 2 := by decide
  have numbered : av_strlcat (statusLine ++ [LF])
      (bytes "CSeq: " ++ unsignedText seq.toNat ++ bytes "\r\n") 4096 =
      statusLine ++ [LF] ++ (bytes "CSeq: " ++ unsignedText seq.toNat ++ bytes "\r\n") := by
    simp only [av_strlcat, List.length_append, lengths, List.length_singleton]
    rw [if_neg (by decide), List.take_of_length_le]
    simp only [List.length_append, lengths]
    omega
  rw [status, numbered] at sent
  obtain ⟨more, rest⟩ := (av_strlcat_extends _
      (bytes "Server: Beijing Cti Streaming Server\r\n") 4096).trans
    ((av_strlcat_extends _ extracontent 4096).trans (av_strlcat_extends _ (bytes "\r\n") 4096))
  refine ⟨more, ?_⟩
  rw [sent]
  simp only
  rw [← rest]
  have ending : bytes "\r\n" = [CR] ++ [LF] := by decide
  simp [ending]

theorem cseqHeader_reply {extracontent : List Byte} {seq : BitVec 16} {reply : Reply}
    (sent : reply ∈ (rtsp_send_reply RTSP_STATUS_OK extracontent seq).toList) :
    cseqHeader reply.message = some (unsignedText seq.toNat) := by
  obtain ⟨more, message⟩ := reply_start sent
  have digit : ∀ c ∈ unsignedText seq.toNat, c ≠ LF ∧ c ≠ CR := by
    intro c inside
    have digit := digits_unsignedText _ c inside
    constructor <;>
    · rintro rfl
      exact absurd digit (by decide)
  have first : LF ∉ statusLine := by decide
  have second : LF ∉ bytes "CSeq: " ++ unsignedText seq.toNat ++ [CR] := by
    have name : LF ∉ bytes "CSeq: " := by decide
    simp only [List.mem_append, not_or]
    exact ⟨⟨name, fun inside => (digit LF inside).1 rfl⟩, by decide⟩
  have other : av_strstart statusLine (bytes "CSeq: ") = none := by decide
  have named : av_strstart (bytes "CSeq: " ++ unsignedText seq.toNat ++ [CR]) (bytes "CSeq: ") =
      some (unsignedText seq.toNat ++ [CR]) := by
    rw [av_strstart_iff, List.append_assoc]
  have number : (unsignedText seq.toNat ++ [CR]).takeWhile (· ≠ CR) = unsignedText seq.toNat := by
    rw [List.takeWhile_append_of_pos fun c inside => by simpa using (digit c inside).2]
    simp
  rw [cseqHeader, message, List.splitOn_append_cons_self, List.splitOn_eq_singleton first,
    List.splitOn_append_cons_self, List.splitOn_eq_singleton second]
  simp only [List.singleton_append, List.findSome?_cons, other, named, Option.map_some, number]

/-- Every handler passes the number of the request. -/
theorem dispatchCalls_seq (r : Session) (uri : List Byte) :
    ∀ call ∈ dispatchCalls r uri, call.code = RTSP_STATUS_OK ∧
      call.seq = r.m_RtspReplyMessage.seq := by
  intro call made
  cases code : r.methodcode with
  | SETUP =>
    simp only [dispatchCalls, code, setupCalls] at made
    split at made
    · cases made
    · split at made
      · cases made
      · obtain rfl := List.mem_singleton.mp made
        exact ⟨rfl, rfl⟩
  | OPTIONS | PLAY | TEARDOWN =>
    simp only [dispatchCalls, code] at made
    obtain rfl := List.mem_singleton.mp made
    exact ⟨rfl, rfl⟩
  | DESCRIBE | ANNOUNCE | PAUSE | GET_PARAMETER | SET_PARAMETER | REDIRECT | RECORD | UNKNOWN =>
    simp only [dispatchCalls, code] at made
    cases made

/-- What the reply to a request says. -/
theorem cseqHeader_dispatch {r : Session} {uri : List Byte} {reply : Reply}
    (sent : reply ∈ (dispatch r uri).2) :
    cseqHeader reply.message = some
      (unsignedText (BitVec.ofInt 16 r.m_RtspReplyMessage.seq).toNat) := by
  rw [dispatch_calls] at sent
  obtain ⟨call, made, sent⟩ := List.mem_flatMap.mp sent
  obtain ⟨code, seq⟩ := dispatchCalls_seq r uri call made
  rw [ReplyCall.send, code, seq] at sent
  exact cseqHeader_reply sent

/-- The header record after some header lines, each with the position after it. -/
def fill (env : Env) (msg : RTSPMessageHeader) (headers : List (Nat × List Byte)) :
    RTSPMessageHeader :=
  headers.foldl (fun msg h => parse_nocommand_line env msg (env.lower_transport h.1)
    (cstring h.2)) msg

/-- A session that reads header lines. -/
def Session.filled (r : Session) (env : Env) (headers : List (Nat × List Byte)) : Session :=
  { r with m_RtspReplyMessage := fill env r.m_RtspReplyMessage headers }

theorem fill_seq (env : Env) (msg : RTSPMessageHeader) (headers : List (Nat × List Byte)) :
    (fill env msg headers).seq = seqOf msg.seq (headers.map Prod.snd) := by
  induction headers generalizing msg with
  | nil => rfl
  | cons h headers ih =>
    rw [fill, List.foldl_cons, ← fill, ih, parse_nocommand_line_seq, seqOf, seqOf, List.map_cons,
      List.foldl_cons]

def cseqLine (n : Nat) : List Byte :=
  bytes "CSeq: " ++ unsignedText n

theorem cseqText_cseqLine (n : Nat) : cseqText (cseqLine n) = some (ch ' ' :: unsignedText n) := by
  have digits := digits_unsignedText n
  have free : 0 ∉ cseqLine n := by
    have name : 0 ∉ bytes "CSeq: " := by decide
    simp only [cseqLine, List.mem_append, not_or]
    exact ⟨name, fun inside => absurd (digits 0 inside) (by decide)⟩
  have text : bytes "CSeq: " = bytes "CSeq:" ++ [ch ' '] := by decide
  rw [cseqText, cstring_of_notMem free, cseqLine, text, List.append_assoc]
  rfl

/-- The number of the last CSeq line is the number of the request. -/
theorem seq_cseqLine (env : Env) (msg : RTSPMessageHeader) (before after : List (Nat × List Byte))
    (readpos : Nat) {n : Nat} (fits : n ≤ 2 ^ 31 - 1) (last : ∀ h ∈ after, cseqText h.2 = none) :
    (fill env msg (before ++ (readpos, cseqLine n) :: after)).seq = n := by
  have none_ : (after.map Prod.snd).filterMap cseqText = [] := by
    rw [List.filterMap_eq_nil_iff]
    intro line inside
    obtain ⟨h, among, rfl⟩ := List.mem_map.mp inside
    exact last h among
  rw [fill_seq, seqOf_cseq]
  simp only [List.map_append, List.map_cons, List.filterMap_append, List.filterMap_cons,
    cseqText_cseqLine,
    none_, List.getLast?_concat]
  exact strtol_unsignedText fits

/-- The reply repeats the number of the request exactly when it has 16 bits. -/
theorem echoed_iff (env : Env) (r : Session) (uri : List Byte)
    (before after : List (Nat × List Byte))
    (readpos n : Nat) (fits : n ≤ 2 ^ 31 - 1) (last : ∀ h ∈ after, cseqText h.2 = none) :
    ∀ reply ∈ (dispatch (r.filled env (before ++ (readpos, cseqLine n) :: after)) uri).2,
      cseqHeader reply.message = some (unsignedText n) ↔ n < 65536 := by
  intro reply sent
  have number := seq_cseqLine env r.m_RtspReplyMessage before after readpos fits last
  have converted : (BitVec.ofInt 16 (n : Int)).toNat = n % 65536 := by
    rw [BitVec.toNat_ofInt]
    omega
  rw [cseqHeader_dispatch sent, Session.filled, number, converted, Option.some.injEq,
    unsignedText_inj]
  omega

/-- A session that has received the request line of OPTIONS. -/
def options : Session :=
  { blank.toSession with methodcode := .OPTIONS, m_nAnaPhase := 1 }

theorem echoed_seven :
    ∃ reply, (dispatch (options.filled .blank ([] ++ (0, cseqLine 7) :: [])) []).2 = [reply] ∧
      (cseqHeader reply.message = some (unsignedText 7) ↔ 7 < 65536) := by
  have answered : ((dispatch (options.filled .blank ([] ++ (0, cseqLine 7) :: [])) []).2).length =
      1 := by
    decide +kernel
  obtain ⟨reply, one⟩ := List.length_eq_one_iff.mp answered
  have inside : reply ∈ (dispatch (options.filled .blank ([] ++ (0, cseqLine 7) :: [])) []).2 := by
    rw [one]
    exact List.mem_singleton_self reply
  exact ⟨reply, one, echoed_iff .blank options [] [] [] 0 7 (by decide)
    (fun _ none_ => nomatch none_) reply inside⟩

/-- The number 65536 comes back as zero. -/
theorem not_echoed : ¬ ∀ (env : Env) (r : Session) (uri : List Byte)
    (before after : List (Nat × List Byte))
    (readpos n : Nat), n ≤ 2 ^ 31 - 1 → (∀ h ∈ after, cseqText h.2 = none) →
    ∀ reply ∈ (dispatch (r.filled env (before ++ (readpos, cseqLine n) :: after)) uri).2,
      cseqHeader reply.message = some (unsignedText n) := by
  intro echoed
  have same := echoed .blank options [] [] [] 0 65536 (by decide) (fun _ none_ => nomatch none_)
  revert same
  decide +kernel

end TestIOCP.Rtsp
