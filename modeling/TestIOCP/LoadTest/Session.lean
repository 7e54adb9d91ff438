import TestIOCP.LoadTest.Packs
import TestIOCP.Transition

/-! One connection of the load test and the server of G-TcpServerDemoDlg.cpp, which sends
everything back. Both ways the bytes keep their order, and come in pieces of any length. -/
namespace TestIOCP.LoadTest
open CString Frames

/-- What the server posts when it has got something, the first data of a connection included. -/
def GTcpSvr_OnReceived (m_bIsPing : Bool) (pBuf : List Byte) : List Byte :=
  if m_bIsPing then pBuf else []

/-- What is known of a connection since it was opened: start is the connection before that,
sent what it posted, arrived how many bytes of that the server has got, returned what the
server posted, and received how many bytes of that have come back. -/
structure Session where
  tool : CServerTestTool
  connection : CConnection
  m_bIsPing : Bool
  online : Bool
  start : CConnection
  sent : List (List Byte)
  arrived : Nat
  returned : List Byte
  received : Nat
  deriving DecidableEq

inductive Event where
  | setSendParam (tool : CServerTestTool)
  | connected (unPerHandle : BitVec 32)
  | disconnected (unFlag : BitVec 32)
  | sended (unLen : BitVec 32)
  /-- The box of the server dialog is clicked. -/
  | ping (m_bIsPing : Bool)
  /-- The server gets up to n bytes. -/
  | arrived (n : Nat)
  /-- Up to n bytes come back, into a buffer with some memory beyond. -/
  | received (n : Nat) (beyond : List Byte)
  | pass (dwTickCount : BitVec 32) (connected : Bool)
  | switch (connected : Bool)

namespace Session

/-- The next bytes that come back. -/
def piece (s : Session) (n : Nat) : List Byte :=
  (s.returned.drop s.received).take n

def posts (s : Session) (result : Option (CConnection × List (List Byte))) : Option Session :=
  result.map fun (c, packs) => { s with connection := c, sent := s.sent ++ packs }

/-- No session where the process has ended. -/
def next (s : Session) : Env × Event → Option Session
  | (_, .setSendParam tool) => some { s with tool }
  | (env, .connected unPerHandle) =>
    (s.connection.OnConnected env s.tool unPerHandle).map fun (c, packs) =>
      { s with
        connection := c
        online := true
        start := s.connection
        sent := packs
        arrived := 0
        returned := []
        received := 0 }
  | (env, .disconnected unFlag) =>
    (s.posts (s.connection.OnDisconnected env s.tool unFlag)).map fun s =>
      { s with online := unFlag = 3 }
  | (env, .sended unLen) => s.posts (s.connection.OnSended env s.tool unLen)
  | (_, .ping m_bIsPing) => some { s with m_bIsPing }
  | (_, .arrived n) =>
    let pBuf := (s.sent.flatten.drop s.arrived).take n
    some { s with
      arrived := s.arrived + pBuf.length
      returned := s.returned ++ GTcpSvr_OnReceived s.m_bIsPing pBuf }
  | (env, .received n beyond) =>
    (s.posts (s.connection.OnReceive env s.tool (s.piece n) beyond)).map fun t =>
      { t with received := s.received + (s.piece n).length }
  | (env, .pass dwTickCount connected) =>
    s.posts (s.connection.sendThreadPass env s.tool dwTickCount connected)
  | (env, .switch connected) => s.posts (s.connection.sendThreadSwitch env s.tool connected)

def system : Transition.System Session (Env × Event) where
  initial s := ∃ env unInlineTime, sizeofPackHead ≤ s.tool.m_unSendPacketSize.toNat ∧
    s.connection = .new env s.tool.m_unSendPacketSize unInlineTime ∧ s.online = false
  next := next

/-- The part of a pack that a piece leaves is short enough to be kept. -/
def Short (s : Session) (n : Nat) : Prop :=
  ∀ saved ∈ s.connection.m_pBufSave, saved.length + (s.piece n).length ≤ 1024 * 1024

/-- The part of a pack that there is after a piece. -/
def part (s : Session) (n : Nat) : List Byte :=
  (cut s.sent (s.received + (s.piece n).length)).2

/-- The dialog admits no smaller packs, a connection has its events while it is open, the
server sends back what it gets, and pieces end where the head of a pack can be seen. -/
def Orderly (s : Session) : Env × Event → Prop
  | (_, .setSendParam tool) => 28 ≤ tool.m_unSendPacketSize.toNat
  | (_, .ping _) => True
  | (_, .arrived _) => s.online = true ∧ s.m_bIsPing = true
  | (_, .connected _) => s.online = false
  | (_, .received n beyond) => s.online = true ∧ s.Short n ∧ Legible (s.part n) beyond
  | _ => s.online = true

instance (s : Session) : (l : Env × Event) → Decidable (s.Orderly l)
  | (_, .setSendParam tool) => inferInstanceAs (Decidable (28 ≤ tool.m_unSendPacketSize.toNat))
  | (_, .ping _) => .isTrue trivial
  | (_, .arrived _) => inferInstanceAs (Decidable (s.online = true ∧ s.m_bIsPing = true))
  | (_, .connected _) => inferInstanceAs (Decidable (s.online = false))
  | (_, .received n beyond) =>
    inferInstanceAs (Decidable (s.online = true ∧
      (∀ saved ∈ s.connection.m_pBufSave,
        saved.length + (s.piece n).length ≤ 1024 * 1024) ∧ Legible (s.part n) beyond))
  | (_, .disconnected _) | (_, .sended _) | (_, .pass _ _) | (_, .switch _) =>
    inferInstanceAs (Decidable (s.online = true))

/-- The packs that have come back whole are counted, and what there is of the next is kept. -/
structure Counting (s : Session) : Prop where
  numbered : Numbered 0 s.sent
  index : s.connection.m_unIndexSend = sendIndex s.sent.length
  within : s.arrived ≤ s.sent.flatten.length
  echoed : s.returned = s.sent.flatten.take s.arrived
  behind : s.received ≤ s.returned.length
  tally : Tally s.start s.connection (cut s.sent s.received).1
  kept : s.connection.m_pBufSave = CConnection.keep (cut s.sent s.received).2

structure Sound (s : Session) : Prop where
  room : sizeofPackHead ≤ s.tool.m_unSendPacketSize.toNat
  prepared : s.connection.Prepared
  counting : s.online = true → s.Counting

variable {s t : Session} {env : Env}

theorem Sound.initial (first : system.initial s) : s.Sound := by
  obtain ⟨env, unInlineTime, room, new, offline⟩ := first
  refine ⟨room, ?_, fun online => by rw [offline] at online; cases online⟩
  rw [new]
  exact ⟨room, fun pack => HeapAlloc_length⟩

/-- The parameters and the boxes of the dialogs do not matter. -/
theorem Counting.unchanged (counting : s.Counting) (connection : t.connection = s.connection)
    (start : t.start = s.start) (sent : t.sent = s.sent) (arrived : t.arrived = s.arrived)
    (returned : t.returned = s.returned) (received : t.received = s.received) : t.Counting := by
  obtain ⟨numbered, index, within, echoed, behind, tally, kept⟩ := counting
  constructor <;> simp only [connection, start, sent, arrived, returned, received] <;> assumption

/-- What the server gets goes back after what it got before. -/
theorem Counting.arrived (counting : s.Counting) (ping : s.m_bIsPing = true) (n : Nat) :
    Counting { s with
      arrived := s.arrived + ((s.sent.flatten.drop s.arrived).take n).length
      returned := s.returned ++
        GTcpSvr_OnReceived s.m_bIsPing ((s.sent.flatten.drop s.arrived).take n) } := by
  obtain ⟨numbered, index, within, echoed, behind, tally, kept⟩ := counting
  refine ⟨numbered, index, ?_, ?_, ?_, tally, kept⟩
  · simp only [List.length_take, List.length_drop]
    omega
  · rw [GTcpSvr_OnReceived, if_pos ping, echoed, List.take_add, List.length_take,
      ← List.take_take, List.take_length]
  · rw [List.length_append]
    exact behind.trans (Nat.le_add_right _ _)

theorem Counting.received_le (counting : s.Counting) :
    s.received ≤ s.sent.flatten.length := by
  have behind := counting.behind
  rw [counting.echoed, List.length_take] at behind
  omega

/-- A piece is the next part of what was sent. -/
theorem Counting.piece_eq (counting : s.Counting) (n : Nat) :
    (s.sent.flatten.drop s.received).take (s.piece n).length = s.piece n := by
  have front : s.piece n <+: s.sent.flatten.drop s.received := by
    refine (List.take_prefix _ _).trans (List.IsPrefix.drop ?_ _)
    rw [counting.echoed]
    exact List.take_prefix _ _
  exact (List.prefix_iff_eq_take.mp front).symm

theorem length_piece (s : Session) (n : Nat) :
    (s.piece n).length ≤ s.returned.length - s.received := by
  rw [piece, List.length_take, List.length_drop]
  omega

theorem Counting.reached_le (counting : s.Counting) (n : Nat) :
    s.received + (s.piece n).length ≤ s.sent.flatten.length := by
  have behind := counting.behind
  have length := s.length_piece n
  rw [counting.echoed, List.length_take] at behind length
  omega

/-- Packs that are posted come after all that is counted or kept. -/
theorem Counting.posts (counting : s.Counting) {c : CConnection} {packs : List (List Byte)}
    (numbered : Numbered s.sent.length packs)
    (index : c.m_unIndexSend = sendIndex (s.sent.length + packs.length))
    (keeps : CConnection.Keeps s.connection c) :
    Counting { s with connection := c, sent := s.sent ++ packs } := by
  have before := cut_append s.sent numbered.ne_nil counting.received_le
  refine ⟨numbered_append.mpr ⟨counting.numbered, by rwa [Nat.zero_add]⟩, ?_, ?_, ?_,
    counting.behind, ?_, ?_⟩
  · rw [List.length_append]
    exact index
  · rw [List.flatten_append, List.length_append]
    exact counting.within.trans (Nat.le_add_right _ _)
  · rw [List.flatten_append, List.take_append_of_le_length counting.within]
    exact counting.echoed
  · rw [before]
    exact ⟨keeps.recvBytes.trans counting.tally.recvBytes,
      keeps.crcError.trans counting.tally.crcError,
      keeps.indexError.trans counting.tally.indexError,
      keeps.indexRecv.trans counting.tally.indexRecv⟩
  · rw [before]
    exact keeps.kept.trans counting.kept

theorem Sound.posts (sound : s.Sound) (online : s.online = true)
    {result : Option (CConnection × List (List Byte))}
    (posted : CConnection.Posts s.sent.length s.connection result) :
    ∃ t, s.posts result = some t ∧ t.Sound ∧ t.online = true := by
  obtain ⟨c, packs, rfl, numbered, index, prepared, keeps⟩ := posted
  exact ⟨_, rfl, ⟨sound.room, prepared, fun _ =>
    (sound.counting online).posts numbered index keeps⟩, online⟩

theorem Sound.connected (sound : s.Sound) (unPerHandle : BitVec 32) :
    ∃ t, s.next (env, .connected unPerHandle) = some t ∧ t.Sound := by
  obtain ⟨c, packs, opened, numbered, index, prepared, keeps⟩ :=
    CConnection.OnConnected_posts env sound.room sound.prepared unPerHandle
  have nothing : cut packs 0 = ([], []) := cut_append [] numbered.ne_nil (Nat.zero_le _)
  refine ⟨{ s with
    connection := c
    online := true
    start := s.connection
    sent := packs
    arrived := 0
    returned := []
    received := 0 }, by rw [next, opened]; rfl, sound.room, prepared,
    fun _ => ⟨numbered, ?_, Nat.zero_le _, rfl, Nat.zero_le _, ?_, ?_⟩⟩
  · rw [index, Nat.zero_add]
  · rw [nothing]
    exact ⟨keeps.recvBytes.trans (BitVec.add_zero _).symm, keeps.crcError,
      keeps.indexError.trans (BitVec.add_zero _).symm, keeps.indexRecv⟩
  · rw [nothing]
    exact keeps.kept

/-- The packs that have not come back whole. -/
def left (s : Session) : List (List Byte) :=
  s.sent.drop (cut s.sent s.received).1.length

/-- How far into these the stream has come after a piece. -/
def reach (s : Session) (n : Nat) : Nat :=
  (cut s.sent s.received).2.length + (s.piece n).length

theorem Counting.kept_piece (counting : s.Counting) (n : Nat) :
    (cut s.sent s.received).2 ++ s.piece n = s.left.flatten.take (s.reach n) := by
  rw [left, reach, ← cut_resume, counting.piece_eq]

theorem merged_some (counting : s.Counting) {n : Nat} (short : s.Short n) {c : CConnection}
    (same : c.m_pBufSave = s.connection.m_pBufSave) :
    c.merged (s.piece n) = some (some (s.left.flatten.take (s.reach n))) := by
  have kept := counting.kept
  rw [← counting.kept_piece, CConnection.merged, same]
  rw [Short, kept] at short
  rw [kept]
  by_cases none_ : (cut s.sent s.received).2 = []
  · rw [CConnection.keep, if_pos none_, none_]
    rfl
  · rw [CConnection.keep, if_neg none_] at short ⊢
    have below := short _ rfl
    have length : (BitVec.ofNat 32 (cut s.sent s.received).2.length +
        BitVec.ofNat 32 (s.piece n).length).toNat =
        (cut s.sent s.received).2.length + (s.piece n).length := by
      rw [← BitVec.ofNat_add, BitVec.toNat_ofNat]
      omega
    simp only [length]
    rw [if_neg (by omega), if_pos le_rfl]

variable (env) in
/-- What OnReceive takes apart is what is left of the stream, as far as it has come. -/
theorem Sound.onReceive (sound : s.Sound) (online : s.online = true) {n : Nat}
    (short : s.Short n) (beyond : List Byte) :
    ∃ c packs, CConnection.Posts s.sent.length s.connection (some (c, packs)) ∧
      s.connection.OnReceive env s.tool (s.piece n) beyond =
        (CConnection.takePacks env beyond ((s.left.flatten.take (s.reach n)).length + 1)
          { c with m_pBufSave := none } (s.left.flatten.take (s.reach n))).map
          fun (c, kept) => ({ c with m_pBufSave := kept }, packs) := by
  have counting := sound.counting online
  obtain ⟨c, packs, posted, rest⟩ :=
    CConnection.answer_posts env sound.room sound.prepared counting.index
  have keeps := rest.2.2.2
  refine ⟨c, packs, ⟨c, packs, rfl, rest⟩, ?_⟩
  simp only [CConnection.OnReceive, posted, merged_some counting short keeps.kept,
    Option.bind_eq_bind, Option.bind_some]
  cases CConnection.takePacks env beyond ((s.left.flatten.take (s.reach n)).length + 1)
    { c with m_pBufSave := none } (s.left.flatten.take (s.reach n)) <;> rfl

theorem part_eq (s : Session) (n : Nat) : s.part n = (cut s.left (s.reach n)).2 := by
  rw [part, cut_add]
  rfl

theorem length_stream (fs : List (List Byte)) (m : Nat) :
    (cut fs m).1.flatten.length + (cut fs m).2.length = min m fs.flatten.length := by
  rw [← List.length_append, cut_stream, List.length_take]

theorem Counting.reach_le (counting : s.Counting) (n : Nat) :
    s.reach n ≤ s.left.flatten.length := by
  have before := length_stream s.sent s.received
  have here := counting.reached_le n
  have whole : s.sent.flatten.length =
      (cut s.sent s.received).1.flatten.length + s.left.flatten.length := by
    have front := List.prefix_iff_eq_append.mp (cut_front s.sent s.received)
    have lengths := congrArg (fun packs : List (List Byte) => packs.flatten.length) front
    simpa only [left, List.flatten_append, List.length_append] using lengths.symm
  rw [reach]
  omega

variable (env) in
/-- The packs that a piece completes are counted before the part of the next one is looked at. -/
theorem Sound.onReceive_whole (sound : s.Sound) (online : s.online = true) {n : Nat}
    (short : s.Short n) (beyond : List Byte) :
    ∃ c packs c' passes, CConnection.Posts s.sent.length s.connection (some (c, packs)) ∧
      Tally s.start c' (cut s.sent (s.received + (s.piece n).length)).1 ∧
      CConnection.Receives c c' ∧
      s.connection.OnReceive env s.tool (s.piece n) beyond =
        (CConnection.takePacks env beyond (passes + 1) c' (s.part n)).map
          fun (c, kept) => ({ c with m_pBufSave := kept }, packs) := by
  have counting := sound.counting online
  obtain ⟨c, packs, posts, received⟩ := sound.onReceive env online short beyond
  have keeps : CConnection.Keeps s.connection c := by
    obtain ⟨_, _, same, _, _, _, keeps⟩ := posts
    cases same
    exact keeps
  have numbered : Numbered (cut s.sent s.received).1.length s.left := by
    have rest := counting.numbered.drop (cut_front s.sent s.received).length_le
    rwa [Nat.zero_add] at rest
  have tally : Tally s.start { c with m_pBufSave := none } (cut s.sent s.received).1 :=
    ⟨keeps.recvBytes.trans counting.tally.recvBytes,
      keeps.crcError.trans counting.tally.crcError,
      keeps.indexError.trans counting.tally.indexError,
      keeps.indexRecv.trans counting.tally.indexRecv⟩
  have within := counting.reach_le n
  have few : (cut s.left (s.reach n)).1.length ≤ (s.left.flatten.take (s.reach n)).length := by
    have front := List.prefix_iff_eq_append.mp (cut_front s.left (s.reach n))
    rw [← front, numbered_append] at numbered
    have counted := numbered.1.length_le
    rw [← cut_stream, List.length_append]
    omega
  obtain ⟨c', tally', receives, go_on⟩ := CConnection.takePacks_whole env beyond
    numbered tally within
    ((s.left.flatten.take (s.reach n)).length - (cut s.left (s.reach n)).1.length + 1)
  refine ⟨c, packs, c', (s.left.flatten.take (s.reach n)).length -
    (cut s.left (s.reach n)).1.length, posts, ?_,
    ⟨receives.index, receives.head, receives.size⟩, ?_⟩
  · rw [cut_add]
    exact tally'
  · rw [received, part_eq, ← go_on]
    congr 2
    omega

variable (env) in
/-- A piece that ends where the head of a pack can be seen. -/
theorem Sound.received (sound : s.Sound) (online : s.online = true) {n : Nat} (short : s.Short n)
    {beyond : List Byte} (legible : Legible (s.part n) beyond) :
    ∃ t, s.next (env, .received n beyond) = some t ∧ t.Sound ∧ t.online = true := by
  have counting := sound.counting online
  obtain ⟨c, packs, c', passes, ⟨_, _, same, numbered, index, prepared, keeps⟩, tally, receives,
    received⟩ := sound.onReceive_whole env online short beyond
  cases same
  have here := counting.reached_le n
  have before := cut_append s.sent numbered.ne_nil here
  rw [CConnection.takePacks_legible env legible] at received
  have prepared' := receives.prepared prepared
  refine ⟨{ s with
    connection := { c' with m_pBufSave := CConnection.keep (s.part n) }
    sent := s.sent ++ packs
    received := s.received + (s.piece n).length }, by rw [next, received]; rfl, ⟨sound.room,
    ⟨prepared'.room, prepared'.length⟩, fun _ => ⟨?_, ?_, ?_, ?_, ?_, ?_, ?_⟩⟩, online⟩
  · exact numbered_append.mpr ⟨counting.numbered, by rwa [Nat.zero_add]⟩
  · rw [List.length_append]
    exact receives.index.trans index
  · rw [List.flatten_append, List.length_append]
    exact counting.within.trans (Nat.le_add_right _ _)
  · rw [List.flatten_append, List.take_append_of_le_length counting.within]
    exact counting.echoed
  · have behind := counting.behind
    have length := s.length_piece n
    show s.received + (s.piece n).length ≤ s.returned.length
    omega
  · rw [before]
    exact ⟨tally.recvBytes, tally.crcError, tally.indexError, tally.indexRecv⟩
  · rw [before]
    rfl

/-- A step that is in order is possible, and keeps the counters right. -/
theorem Sound.step (sound : s.Sound) {l : Env × Event} (orderly : s.Orderly l) :
    ∃ t, s.next l = some t ∧ t.Sound := by
  obtain ⟨env, e⟩ := l
  have posted {result : Option (CConnection × List (List Byte))} (online : s.online = true)
      (posts : CConnection.Posts s.sent.length s.connection result) :
      ∃ t, s.posts result = some t ∧ t.Sound := by
    obtain ⟨t, next, sound', -⟩ := sound.posts online posts
    exact ⟨t, next, sound'⟩
  cases e with
  | setSendParam tool =>
    have room : 28 ≤ tool.m_unSendPacketSize.toNat := orderly
    exact ⟨_, rfl, (show sizeofPackHead ≤ 28 by decide).trans room, sound.prepared,
      fun online => (sound.counting online).unchanged rfl rfl rfl rfl rfl rfl⟩
  | connected unPerHandle => exact sound.connected unPerHandle
  | disconnected unFlag =>
    obtain ⟨t, next_, sound', online⟩ := sound.posts orderly
      (CConnection.OnDisconnected_posts env sound.room sound.prepared
        (sound.counting orderly).index unFlag)
    refine ⟨{ t with online := unFlag = 3 }, by rw [next, next_]; rfl, sound'.room,
      sound'.prepared, fun _ => ?_⟩
    exact (sound'.counting online).unchanged rfl rfl rfl rfl rfl rfl
  | sended unLen =>
    exact posted orderly (CConnection.OnSended_posts env sound.room sound.prepared
      (sound.counting orderly).index unLen)
  | ping m_bIsPing =>
    exact ⟨_, rfl, sound.room, sound.prepared,
      fun online => (sound.counting online).unchanged rfl rfl rfl rfl rfl rfl⟩
  | arrived n =>
    obtain ⟨online, ping⟩ := orderly
    exact ⟨_, rfl, sound.room, sound.prepared, fun _ => (sound.counting online).arrived ping n⟩
  | received n beyond =>
    obtain ⟨online, short, legible⟩ := orderly
    obtain ⟨t, next, sound', -⟩ := sound.received env online short legible
    exact ⟨t, next, sound'⟩
  | pass dwTickCount connected =>
    exact posted orderly (CConnection.sendThreadPass_posts env sound.room sound.prepared
      (sound.counting orderly).index dwTickCount connected)
  | switch connected =>
    exact posted orderly (CConnection.sendThreadSwitch_posts env sound.room sound.prepared
      (sound.counting orderly).index connected)

/-- A piece that ends with eight bytes of a pack shows its head, whatever lies beyond. -/
theorem Counting.legible (counting : s.Counting) {n : Nat} (long : unLen + 4 ≤ (s.part n).length)
    (beyond : List Byte) : Legible (s.part n) beyond := by
  have some_ : s.part n ≠ [] := by
    intro none_
    rw [none_] at long
    cases long
  obtain ⟨pack, here, front, part⟩ := cut_next some_
  have shown := legible_of_long (counting.numbered.pack here) long part beyond
  rwa [show s.part n = pack.take (s.part n).length from front]

/-- Elsewhere the part of the pack is lost, or the process ends. -/
theorem Sound.lost (sound : s.Sound) (online : s.online = true) {n : Nat} (short : s.Short n)
    {beyond : List Byte} (inside : (s.part n).length + beyond.length < 2 ^ 32)
    (illegible : ¬ Legible (s.part n) beyond) {t : Session}
    (taken : s.next (env, .received n beyond) = some t) : ¬ t.Counting := by
  have counting := sound.counting online
  have few : (s.part n).length < unLen + 4 := by
    by_contra long
    exact illegible (counting.legible (not_lt.mp long) beyond)
  obtain ⟨c, packs, c', passes, ⟨_, _, same, numbered, -⟩, -, -, received⟩ :=
    sound.onReceive_whole env online short beyond
  cases same
  have here := counting.reached_le n
  rcases CConnection.takePacks_illegible env c' illegible few inside passes with
    ended | dropped
  · rw [next, received, ended] at taken
    cases taken
  · rw [dropped] at received
    rw [next, received] at taken
    cases taken
    intro counting'
    have kept : none = CConnection.keep (cut (s.sent ++ packs)
      (s.received + (s.piece n).length)).2 := counting'.kept
    have some_ : s.part n ≠ [] := fun none_ => illegible (.inl none_)
    rw [cut_append s.sent numbered.ne_nil here, ← part, CConnection.keep, if_neg some_] at kept
    cases kept

end Session

open Session

def quietEnv : Env where
  GetTickCount _ := 5
  this := 0x00401000
  granted := true
  content _ := 0xCD

/-- A connection that sends the next pack when one has been sent. -/
def unopened : Session where
  tool := ⟨2, 1000, 1, 28⟩
  connection := .new quietEnv 28 0
  m_bIsPing := true
  online := false
  start := .new quietEnv 28 0
  sent := []
  arrived := 0
  returned := []
  received := 0

def firstPack : List Byte :=
  [0xF1, 0xFF, 0xFF, 0x1F, 28, 0, 0, 0, 0x54, 0x04, 0, 0, 1, 0, 0, 0, 0, 0x10, 0x40, 0, 5, 0, 0, 0,
    0xCD, 0xCD, 0xCD, 0xCD]

def secondPack : List Byte :=
  [0xF1, 0xFF, 0xFF, 0x1F, 28, 0, 0, 0, 0xDE, 0x02, 0, 0, 2, 0, 0, 0, 0, 0x10, 0x40, 0, 5, 0, 0, 0,
    0xCD, 0xCD, 0xCD, 0xCD]

def opened : Session :=
  { unopened with
    connection := { unopened.connection with
      m_unIndexRecv := 1
      m_unIndexSend := 1
      m_unSendTickCount := 5
      m_unConnectTickCount := 5
      m_unPerHandle := 1
      m_pPackHead := some firstPack }
    online := true
    sent := [firstPack] }

def posted : Session :=
  { opened with
    connection := { opened.connection with
      m_unSendBytes := 28
      m_unIndexSend := 2
      m_pPackHead := some secondPack }
    sent := [firstPack, secondPack] }

def echoed : Session :=
  { posted with
    arrived := 56
    returned := firstPack ++ secondPack }

/-- The second pack has come back up to its ninth byte. -/
def halfway : Session :=
  { echoed with
    connection := { echoed.connection with
      m_unTime := 1
      m_unRecvBytes := 28
      m_unIndexRecv := 2
      m_pBufSave := some (secondPack.take 9) }
    received := 37 }

def complete : Session :=
  { halfway with
    connection := { halfway.connection with
      m_unRecvBytes := 56
      m_unIndexRecv := 3
      m_pBufSave := none }
    received := 56 }

end TestIOCP.LoadTest
