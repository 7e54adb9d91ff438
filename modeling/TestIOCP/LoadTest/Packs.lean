import Mathlib.Tactic.Ring
import TestIOCP.Frames
import TestIOCP.LoadTest.Connection

/-! The packs that a connection posts, and what OnReceive makes of them when they come back,
cut anywhere. -/
namespace TestIOCP.LoadTest
open CString Frames

/-! ### Words in memory -/

theorem length_le32 (x : BitVec 32) : (le32 x).length = 4 := rfl

theorem load32_append {memory : List Byte} {at_ : Nat} {x : BitVec 32}
    (loaded : load32 memory at_ = some x) (more : List Byte) :
    load32 (memory ++ more) at_ = some x := by
  rw [load32] at loaded ⊢
  split at loaded
  · rename_i a b c d rest here
    have inside : at_ ≤ memory.length := by
      by_contra outside
      rw [List.drop_of_length_le (by omega)] at here
      cases here
    rw [List.drop_append_of_le_length inside, here]
    exact loaded
  · cases loaded

theorem load32_of_le {memory : List Byte} {at_ : Nat} (room : at_ + 4 ≤ memory.length) :
    ∃ x, load32 memory at_ = some x := by
  have length : 4 ≤ (memory.drop at_).length := by
    rw [List.length_drop]
    omega
  rw [load32]
  match memory.drop at_, length with
  | a :: b :: c :: d :: rest, _ => exact ⟨_, rfl⟩

theorem load32_le32 (x : BitVec 32) (front back : List Byte) :
    load32 (front ++ le32 x ++ back) front.length = some x := by
  have word : (front ++ le32 x ++ back).drop front.length = le32 x ++ back := by
    rw [List.append_assoc, List.drop_left]
  rw [load32, word]
  simp only [le32, List.cons_append, List.nil_append, Option.some.injEq]
  apply BitVec.eq_of_toNat_eq
  have bound := x.isLt
  simp only [BitVec.toNat_ofNat, Nat.toUInt8, UInt8.toNat_ofNat']
  omega

/-- What a store does to some memory. -/
structure Stored (memory : List Byte) (at_ : Nat) (x : BitVec 32) (memory' : List Byte) : Prop where
  length : memory'.length = memory.length
  here : load32 memory' at_ = some x
  apart : ∀ i, i + 4 ≤ at_ ∨ at_ + 4 ≤ i → load32 memory' i = load32 memory i
  after : memory'.drop (at_ + 4) = memory.drop (at_ + 4)

theorem take_drop_load {memory memory' : List Byte} {i : Nat}
    (same : (memory'.drop i).take 4 = (memory.drop i).take 4) :
    load32 memory' i = load32 memory i := by
  rw [load32, load32]
  generalize memory'.drop i = a, memory.drop i = b at same
  rcases a with _ | ⟨x, _ | ⟨y, _ | ⟨z, _ | ⟨w, a⟩⟩⟩⟩ <;>
    rcases b with _ | ⟨x', _ | ⟨y', _ | ⟨z', _ | ⟨w', b⟩⟩⟩⟩ <;>
    simp_all

theorem store32_some {memory : List Byte} {at_ : Nat} (room : at_ + 4 ≤ memory.length)
    (x : BitVec 32) : ∃ memory', store32 memory at_ x = some memory' ∧
      Stored memory at_ x memory' := by
  have front : (memory.take at_).length = at_ := by
    rw [List.length_take]
    omega
  have word := length_le32 x
  have after : (memory.take at_ ++ le32 x ++ memory.drop (at_ + 4)).drop (at_ + 4) =
      memory.drop (at_ + 4) := by
    rw [List.drop_append_of_le_length (by rw [List.length_append, front, word]),
      List.drop_of_length_le (by rw [List.length_append, front, word]), List.nil_append]
  refine ⟨_, if_pos room, ?_, ?_, ?_, after⟩
  · simp only [List.length_append, front, word, List.length_drop]
    omega
  · have here := load32_le32 x (memory.take at_) (memory.drop (at_ + 4))
    rwa [front] at here
  · intro i apart
    refine take_drop_load (List.ext_getElem? fun j => ?_)
    simp only [List.getElem?_take, List.getElem?_drop, List.getElem?_append, List.length_append,
      front, word]
    split
    · rcases apart with before | behind
      · rw [if_pos (by omega), if_pos (by omega), if_pos (by omega)]
      · rw [if_neg (by omega)]
        congr 1
        omega
    · rfl

theorem GetCRC_some {memory : List Byte} {len : BitVec 32} (room : len.toNat ≤ memory.length) :
    ∃ sum, GetCRC memory len = some sum ∧ ∀ more, GetCRC (memory ++ more) len = some sum := by
  refine ⟨_, if_pos room, fun more => ?_⟩
  rw [GetCRC, if_pos (by rw [List.length_append]; omega), List.take_append_of_le_length room]

/-! ### Packs -/

/-- The number of the k-th pack of a connection; none has number 0. -/
def sendIndex : Nat → BitVec 32
  | 0 => 0
  | k + 1 => if sendIndex k + 1 = 0 then 1 else sendIndex k + 1

/-- A pack as SendPack posts it. -/
structure IsPack (pack : List Byte) (index : BitVec 32) : Prop where
  size : sizeofPackHead ≤ pack.length
  fits : pack.length < 2 ^ 32
  flag : load32 pack unHeadFlag = some HEAD_FLAG
  len : load32 pack unLen = some (BitVec.ofNat 32 pack.length)
  crc : ∃ sum, GetCRC (pack.drop unIndex) (BitVec.ofNat 32 pack.length - 12) = some sum ∧
    load32 pack unCRC = some sum
  index : load32 pack unIndex = some index

/-- Packs that are numbered in turn, after k others. -/
def Numbered : Nat → List (List Byte) → Prop
  | _, [] => True
  | k, pack :: packs => IsPack pack (sendIndex (k + 1)) ∧ Numbered (k + 1) packs

theorem numbered_append {k : Nat} {packs more : List (List Byte)} :
    Numbered k (packs ++ more) ↔ Numbered k packs ∧ Numbered (k + packs.length) more := by
  induction packs generalizing k with
  | nil => simp [Numbered]
  | cons pack packs ih =>
    rw [List.cons_append, Numbered, Numbered, ih, and_assoc, List.length_cons, Nat.add_assoc,
      Nat.add_comm 1]

theorem Numbered.drop {k : Nat} {packs : List (List Byte)} (numbered : Numbered k packs)
    {n : Nat} (within : n ≤ packs.length) : Numbered (k + n) (packs.drop n) := by
  rw [← List.take_append_drop n packs, numbered_append, List.length_take,
    Nat.min_eq_left within] at numbered
  exact numbered.2

theorem Numbered.pack {k i : Nat} {packs : List (List Byte)} {pack : List Byte}
    (numbered : Numbered k packs) (here : packs[i]? = some pack) :
    IsPack pack (sendIndex (k + i + 1)) := by
  induction packs generalizing k i with
  | nil => cases here
  | cons first packs ih =>
    cases i with
    | zero => exact Option.some.inj here ▸ numbered.1
    | succ i =>
      have later := ih numbered.2 here
      rwa [Nat.add_right_comm k 1 i, Nat.add_assoc k i 1] at later

theorem Numbered.ne_nil {k : Nat} {packs : List (List Byte)} (numbered : Numbered k packs) :
    ∀ pack ∈ packs, pack ≠ [] := by
  induction packs generalizing k with
  | nil => exact fun pack inside => absurd inside List.not_mem_nil
  | cons pack packs ih =>
    refine List.forall_mem_cons.mpr ⟨?_, ih numbered.2⟩
    rintro rfl
    exact absurd numbered.1.size (by decide)

theorem Numbered.length_le {k : Nat} {packs : List (List Byte)} (numbered : Numbered k packs) :
    packs.length ≤ packs.flatten.length := by
  induction packs generalizing k with
  | nil => exact le_rfl
  | cons pack packs ih =>
    have size : 24 ≤ pack.length := numbered.1.size
    have rest := ih numbered.2
    rw [List.flatten_cons, List.length_append, List.length_cons]
    omega

/-- The length of a pack without what its sum leaves out. -/
theorem summed_length {n : Nat} (size : sizeofPackHead ≤ n) (fits : n < 2 ^ 32) :
    (BitVec.ofNat 32 n - 12).toNat = n - 12 := by
  have least : 24 ≤ n := size
  have twelve : (12 : BitVec 32).toNat = 12 := rfl
  rw [BitVec.toNat_sub, BitVec.toNat_ofNat, twelve]
  omega

/-! ### Sending -/

theorem HeapAlloc_length {env : Env} {size : BitVec 32} {pack : List Byte}
    (given : pack ∈ HeapAlloc env size) : pack.length = size.toNat := by
  rw [HeapAlloc] at given
  split at given
  · rw [← Option.some.inj given, List.length_map, List.length_range]
  · cases given

namespace CConnection

/-- The buffer of a connection has the length that is noted for it, which has room for a head. -/
structure Prepared (c : CConnection) : Prop where
  room : sizeofPackHead ≤ c.m_unPackSize.toNat
  length : ∀ pack ∈ c.m_pPackHead, pack.length = c.m_unPackSize.toNat

/-- What was received is not changed. -/
structure Keeps (c c' : CConnection) : Prop where
  recvBytes : c'.m_unRecvBytes = c.m_unRecvBytes
  crcError : c'.m_unCRCError = c.m_unCRCError
  indexError : c'.m_unIndexError = c.m_unIndexError
  indexRecv : c'.m_unIndexRecv = c.m_unIndexRecv
  kept : c'.m_pBufSave = c.m_pBufSave

theorem Keeps.refl (c : CConnection) : Keeps c c := ⟨rfl, rfl, rfl, rfl, rfl⟩

theorem Keeps.trans {c c' c'' : CConnection} (first : Keeps c c') (second : Keeps c' c'') :
    Keeps c c'' :=
  ⟨second.recvBytes.trans first.recvBytes, second.crcError.trans first.crcError,
    second.indexError.trans first.indexError, second.indexRecv.trans first.indexRecv,
    second.kept.trans first.kept⟩

/-- A call that posts packs, numbered in turn after k others. -/
def Posts (k : Nat) (c : CConnection) (result : Option (CConnection × List (List Byte))) : Prop :=
  ∃ c' packs, result = some (c', packs) ∧ Numbered k packs ∧
    c'.m_unIndexSend = sendIndex (k + packs.length) ∧ c'.Prepared ∧ Keeps c c'

theorem Posts.nothing {k : Nat} {c c' : CConnection} (prepared : c'.Prepared)
    (index : c'.m_unIndexSend = sendIndex k) (keeps : Keeps c c') : Posts k c (some (c', [])) :=
  ⟨c', [], rfl, trivial, index, prepared, keeps⟩

theorem Posts.after {k : Nat} {c c' : CConnection} (keeps : Keeps c c')
    {result : Option (CConnection × List (List Byte))} (posts : Posts k c' result) :
    Posts k c result := by
  obtain ⟨c'', packs, same, numbered, index, prepared, keeps'⟩ := posts
  exact ⟨c'', packs, same, numbered, index, prepared, keeps.trans keeps'⟩

variable (env : Env) {c : CConnection}

theorem stamp_some (tick : BitVec 32) {pack : List Byte} {k : Nat}
    (room : sizeofPackHead ≤ pack.length) (length : pack.length = c.m_unPackSize.toNat)
    (index : c.m_unIndexSend = sendIndex k) :
    ∃ c' pack', c.stamp env tick pack = some (c', pack') ∧ IsPack pack' (sendIndex (k + 1)) ∧
      pack'.length = pack.length ∧ c'.m_pPackHead = some pack' ∧
      c'.m_unPackSize = c.m_unPackSize ∧ c'.m_unIndexSend = sendIndex (k + 1) ∧ Keeps c c' := by
  have size : 24 ≤ pack.length := room
  have fits : pack.length < 2 ^ 32 := length ▸ c.m_unPackSize.isLt
  have noted : c.m_unPackSize = BitVec.ofNat 32 pack.length := by
    rw [length, BitVec.ofNat_toNat, BitVec.setWidth_eq]
  -- every field lies in the first 24 bytes, and a store keeps the length
  have inside {memory : List Byte} {field : Nat} (length : memory.length = pack.length)
      (early : field ≤ 20) : field + 4 ≤ memory.length := by omega
  obtain ⟨p₁, eq₁, s₁⟩ := store32_some (inside rfl (by decide : unHeadFlag ≤ 20)) HEAD_FLAG
  have length₁ := s₁.length
  obtain ⟨p₂, eq₂, s₂⟩ := store32_some (inside length₁ (by decide : unLen ≤ 20)) c.m_unPackSize
  have length₂ := s₂.length.trans length₁
  obtain ⟨p₃, eq₃, s₃⟩ := store32_some (inside length₂ (by decide : pOwner ≤ 20)) env.this
  have length₃ := s₃.length.trans length₂
  obtain ⟨p₄, eq₄, s₄⟩ := store32_some (inside length₃ (by decide : unIndex ≤ 20))
    (sendIndex (k + 1))
  have length₄ := s₄.length.trans length₃
  obtain ⟨p₅, eq₅, s₅⟩ := store32_some (inside length₄ (by decide : unTickCount ≤ 20)) tick
  have length₅ := s₅.length.trans length₄
  have covered : (c.m_unPackSize - 12).toNat ≤ (p₅.drop 12).length := by
    rw [noted, summed_length room fits, List.length_drop, length₅]
  obtain ⟨sum, crc, -⟩ := GetCRC_some covered
  obtain ⟨p₆, eq₆, s₆⟩ := store32_some (inside length₅ (by decide : unCRC ≤ 20)) sum
  have length₆ : p₆.length = pack.length := s₆.length.trans length₅
  have next : (if c.m_unIndexSend + 1 = 0 then 1 else c.m_unIndexSend + 1) =
      sendIndex (k + 1) := by rw [index, sendIndex]
  have pack_ : IsPack p₆ (sendIndex (k + 1)) := by
    refine ⟨length₆ ▸ room, length₆ ▸ fits, ?_, ?_, ⟨sum, ?_, s₆.here⟩, ?_⟩
    · rw [s₆.apart _ (by decide), s₅.apart _ (by decide), s₄.apart _ (by decide),
        s₃.apart _ (by decide), s₂.apart _ (by decide), s₁.here]
    · rw [s₆.apart _ (by decide), s₅.apart _ (by decide), s₄.apart _ (by decide),
        s₃.apart _ (by decide), s₂.here, noted, length₆]
    · rw [length₆, ← noted]
      exact (congrArg (GetCRC · _) s₆.after).trans crc
    · rw [s₆.apart _ (by decide), s₅.apart _ (by decide), s₄.here]
  refine ⟨{ c with
    m_unIndexSend := sendIndex (k + 1)
    m_unSendTickCount := tick
    m_pPackHead := some p₆ }, p₆, ?_, pack_, length₆, rfl, rfl, rfl,
    ⟨rfl, rfl, rfl, rfl, rfl⟩⟩
  simp only [stamp, eq₁, eq₂, eq₃, next, eq₄, eq₅, crc, eq₆, Option.bind_eq_bind,
    Option.bind_some]
  rfl

theorem stamps_posts (i tick : Nat) {k : Nat} {pack : List Byte}
    (room : sizeofPackHead ≤ pack.length) (length : pack.length = c.m_unPackSize.toNat)
    (index : c.m_unIndexSend = sendIndex k) (prepared : c.Prepared) :
    Posts k c (stamps env i tick c pack) := by
  induction i generalizing tick k c pack with
  | zero => exact .nothing prepared index (.refl c)
  | succ i ih =>
    obtain ⟨c₁, pack₁, stamped, pack_, length₁, head, size, index₁, keeps⟩ :=
      stamp_some env (env.GetTickCount tick) room length index
    have length' : pack₁.length = c₁.m_unPackSize.toNat := by rw [length₁, length, size]
    have prepared₁ : c₁.Prepared := by
      refine ⟨size ▸ prepared.room, fun pack same => ?_⟩
      rw [head] at same
      exact Option.some.inj same ▸ length'
    obtain ⟨c₂, packs, rest, numbered, index₂, prepared₂, keeps₂⟩ :=
      ih (tick + 1) (by rw [length₁]; exact room) length' index₁ prepared₁
    refine ⟨c₂, pack₁ :: packs, ?_, ⟨pack_, numbered⟩, ?_, prepared₂, keeps.trans keeps₂⟩
    · simp only [stamps, stamped, rest, Option.bind_eq_bind, Option.bind_some]
      rfl
    · rw [index₂, List.length_cons, Nat.add_assoc, Nat.add_comm 1]

variable {tool : CServerTestTool} {k : Nat}

theorem SendPack_posts (size : sizeofPackHead ≤ tool.m_unSendPacketSize.toNat)
    (prepared : c.Prepared) (index : c.m_unIndexSend = sendIndex k) (unSendCount : BitVec 32) :
    Posts k c (c.SendPack env tool unSendCount) := by
  obtain ⟨c₁, resized⟩ : ∃ c₁, c₁ = (if c.m_unPackSize ≠ tool.m_unSendPacketSize then
      { c with
        m_unPackSize := tool.m_unSendPacketSize
        m_pPackHead := HeapAlloc env tool.m_unSendPacketSize }
    else c) := ⟨_, rfl⟩
  have keeps : Keeps c c₁ := by
    rw [resized]
    split <;> exact ⟨rfl, rfl, rfl, rfl, rfl⟩
  have index₁ : c₁.m_unIndexSend = sendIndex k := by
    rw [resized]
    split <;> exact index
  have prepared₁ : c₁.Prepared := by
    rw [resized]
    split
    · exact ⟨size, fun pack => HeapAlloc_length⟩
    · exact prepared
  rw [SendPack, ← resized]
  cases head : c₁.m_pPackHead with
  | none => exact .nothing prepared₁ index₁ keeps
  | some pack =>
    have length := prepared₁.length pack head
    exact .after keeps (stamps_posts env _ _ (length ▸ prepared₁.room) length index₁ prepared₁)

theorem OnDisconnected_posts (size : sizeofPackHead ≤ tool.m_unSendPacketSize.toNat)
    (prepared : c.Prepared) (index : c.m_unIndexSend = sendIndex k) (unFlag : BitVec 32) :
    Posts k c (c.OnDisconnected env tool unFlag) := by
  have nothing : Posts k c (some (c, [])) := .nothing prepared index (.refl c)
  rw [OnDisconnected]
  split_ifs
  · exact nothing
  · exact .nothing ⟨prepared.room, prepared.length⟩ index ⟨rfl, rfl, rfl, rfl, rfl⟩
  · exact SendPack_posts env size prepared index 1
  · exact nothing
  · exact nothing

theorem OnSended_posts (size : sizeofPackHead ≤ tool.m_unSendPacketSize.toNat)
    (prepared : c.Prepared) (index : c.m_unIndexSend = sendIndex k) (unLen : BitVec 32) :
    Posts k c (c.OnSended env tool unLen) := by
  have keeps : Keeps c { c with m_unSendBytes := c.m_unSendBytes + unLen } :=
    ⟨rfl, rfl, rfl, rfl, rfl⟩
  have prepared' : Prepared { c with m_unSendBytes := c.m_unSendBytes + unLen } :=
    ⟨prepared.room, prepared.length⟩
  rw [OnSended]
  split_ifs
  · exact .after keeps (SendPack_posts env size prepared' index 1)
  · exact .nothing prepared' index keeps

theorem answer_posts (size : sizeofPackHead ≤ tool.m_unSendPacketSize.toNat)
    (prepared : c.Prepared) (index : c.m_unIndexSend = sendIndex k) :
    Posts k c (c.answer env tool) := by
  rw [answer]
  split_ifs
  · exact SendPack_posts env size prepared index 1
  · exact .nothing prepared index (.refl c)

theorem sendThreadPass_posts (size : sizeofPackHead ≤ tool.m_unSendPacketSize.toNat)
    (prepared : c.Prepared) (index : c.m_unIndexSend = sendIndex k) (dwTickCount : BitVec 32)
    (connected : Bool) : Posts k c (c.sendThreadPass env tool dwTickCount connected) := by
  have nothing : Posts k c (some (c, [])) := .nothing prepared index (.refl c)
  rw [sendThreadPass]
  split_ifs
  · exact nothing
  · exact .nothing ⟨prepared.room, prepared.length⟩ index ⟨rfl, rfl, rfl, rfl, rfl⟩
  · exact SendPack_posts env size prepared index _
  · exact nothing

theorem sendThreadSwitch_posts (size : sizeofPackHead ≤ tool.m_unSendPacketSize.toNat)
    (prepared : c.Prepared) (index : c.m_unIndexSend = sendIndex k) (connected : Bool) :
    Posts k c (c.sendThreadSwitch env tool connected) := by
  rw [sendThreadSwitch]
  split_ifs
  · exact SendPack_posts env size prepared index 1
  · exact .nothing prepared index (.refl c)

/-- A connection that is opened starts to count anew. -/
theorem OnConnected_posts (size : sizeofPackHead ≤ tool.m_unSendPacketSize.toNat)
    (prepared : c.Prepared) (unPerHandle : BitVec 32) :
    Posts 0 { c with m_unIndexRecv := 1, m_pBufSave := none }
      (c.OnConnected env tool unPerHandle) := by
  obtain ⟨c₁, noted⟩ : ∃ c₁, c₁ = (if c.m_unConnectTickCount = 0 then
    { c with m_unConnectTickCount := env.GetTickCount 0 } else c) := ⟨_, rfl⟩
  rw [OnConnected, ← noted]
  have prepared₁ : c₁.Prepared := by
    rw [noted]
    split
    · exact ⟨prepared.room, prepared.length⟩
    · exact prepared
  have keeps : Keeps { c with m_unIndexRecv := 1, m_pBufSave := none } { c₁ with
      m_unPerHandle := unPerHandle
      m_unIndexRecv := 1
      m_unIndexSend := 0
      m_pBufSave := none } := by
    rw [noted]
    split <;> exact ⟨rfl, rfl, rfl, rfl, rfl⟩
  have prepared₂ : Prepared { c₁ with
      m_unPerHandle := unPerHandle
      m_unIndexRecv := 1
      m_unIndexSend := 0
      m_pBufSave := none } := ⟨prepared₁.room, prepared₁.length⟩
  split_ifs
  · exact .after keeps (SendPack_posts env size prepared₂ rfl 1)
  · exact .nothing prepared₂ rfl keeps

end CConnection

/-! ### Receiving -/

/-- How many of the first n packs do not have the number that the receiver expects; it does
not leave out 0. -/
def misnumbered : Nat → Nat
  | 0 => 0
  | n + 1 => misnumbered n + if BitVec.ofNat 32 (n + 1) ≠ sendIndex (n + 1) then 1 else 0

/-- What is kept of a pack shows its head, together with the memory that lies beyond. -/
def Legible (kept beyond : List Byte) : Prop :=
  kept = [] ∨ load32 (kept ++ beyond) unHeadFlag = some HEAD_FLAG ∧
    ∃ len ∈ load32 (kept ++ beyond) unLen, kept.length < len.toNat

instance (kept beyond : List Byte) : Decidable (Legible kept beyond) :=
  decidable_of_iff (kept = [] ∨ load32 (kept ++ beyond) unHeadFlag = some HEAD_FLAG ∧
    (load32 (kept ++ beyond) unLen).any (fun len => kept.length < len.toNat) = true)
    (by simp [Legible, Option.any_eq_true])

/-- A part of a pack that holds its flag and its length. -/
theorem legible_of_long {pack : List Byte} {index : BitVec 32} (pack_ : IsPack pack index)
    {n : Nat} (long : unLen + 4 ≤ n) (part : n < pack.length) (beyond : List Byte) :
    Legible (pack.take n) beyond := by
  have same {i : Nat} (inside : i + 4 ≤ n) : load32 (pack.take n) i = load32 pack i := by
    apply take_drop_load
    rw [List.drop_take, List.take_take, Nat.min_eq_left (by omega)]
  have flag := load32_append ((same (i := unHeadFlag) (by simp only [unHeadFlag]; omega)).trans
    pack_.flag) beyond
  have len := load32_append ((same long).trans pack_.len) beyond
  refine .inr ⟨flag, _, len, ?_⟩
  rw [List.length_take, Nat.min_eq_left part.le, BitVec.toNat_ofNat, Nat.mod_eq_of_lt pack_.fits]
  exact part

/-- The counters after some packs, compared with those of an earlier state. -/
structure Tally (start c : CConnection) (whole : List (List Byte)) : Prop where
  recvBytes : c.m_unRecvBytes = start.m_unRecvBytes + BitVec.ofNat 32 whole.flatten.length
  crcError : c.m_unCRCError = start.m_unCRCError
  indexError : c.m_unIndexError = start.m_unIndexError + BitVec.ofNat 32 (misnumbered whole.length)
  indexRecv : c.m_unIndexRecv = BitVec.ofNat 32 (whole.length + 1)

namespace CConnection

/-- What is needed to send is not changed. -/
structure Receives (c c' : CConnection) : Prop where
  index : c'.m_unIndexSend = c.m_unIndexSend
  head : c'.m_pPackHead = c.m_pPackHead
  size : c'.m_unPackSize = c.m_unPackSize

theorem Receives.refl (c : CConnection) : Receives c c := ⟨rfl, rfl, rfl⟩

theorem Receives.trans {c c' c'' : CConnection} (first : Receives c c')
    (second : Receives c' c'') : Receives c c'' :=
  ⟨second.index.trans first.index, second.head.trans first.head, second.size.trans first.size⟩

theorem Receives.prepared {c c' : CConnection} (receives : Receives c c')
    (prepared : c.Prepared) : c'.Prepared :=
  ⟨receives.size ▸ prepared.room, by
    rw [receives.head, receives.size]
    exact prepared.length⟩

theorem counted_receives (c : CConnection) (index len time : BitVec 32) :
    Receives c (c.counted index len time) := ⟨rfl, rfl, rfl⟩

variable (env : Env) {start c : CConnection} (beyond : List Byte)

theorem Tally.counted {whole : List (List Byte)} (tally : Tally start c whole)
    (pack : List Byte) (time : BitVec 32) :
    Tally start (c.counted (sendIndex (whole.length + 1)) (BitVec.ofNat 32 pack.length) time)
      (whole ++ [pack]) where
  recvBytes := by
    rw [CConnection.counted, tally.recvBytes, List.flatten_append, List.length_append,
      BitVec.ofNat_add, ← BitVec.add_assoc, List.flatten_singleton]
  crcError := tally.crcError
  indexError := by
    have numbers : c.m_unIndexError + (if c.m_unIndexRecv ≠ sendIndex (whole.length + 1) then 1
        else 0) = start.m_unIndexError + BitVec.ofNat 32 (misnumbered (whole.length + 1)) := by
      rw [tally.indexError, tally.indexRecv, misnumbered]
      split
      · rw [BitVec.ofNat_add (misnumbered _), ← BitVec.add_assoc]
        rfl
      · rw [Nat.add_zero]
        exact BitVec.add_zero _
    rw [List.length_append, List.length_singleton]
    exact numbers
  indexRecv := by
    have next : c.m_unIndexRecv + 1 = BitVec.ofNat 32 (whole.length + 1 + 1) := by
      rw [tally.indexRecv, BitVec.ofNat_add (whole.length + 1)]
      rfl
    rw [List.length_append, List.length_singleton]
    exact next

/-- A whole pack is counted, and the loop goes on after it. -/
theorem takePacks_pack (c : CConnection) {pack : List Byte} {index : BitVec 32}
    (pack_ : IsPack pack index) (more : List Byte) (passes : Nat) :
    ∃ time, takePacks env beyond (passes + 1) c (pack ++ more) =
      takePacks env beyond passes (c.counted index (BitVec.ofNat 32 pack.length) time) more := by
  have size : 24 ≤ pack.length := pack_.size
  obtain ⟨sum, summed, crc⟩ := pack_.crc
  have inside : unTickCount + 4 ≤ pack.length := by
    rw [unTickCount]
    omega
  obtain ⟨sentAt, tick⟩ := load32_of_le inside
  have room : (BitVec.ofNat 32 pack.length - 12).toNat ≤ (pack.drop unIndex).length := by
    rw [summed_length pack_.size pack_.fits, List.length_drop]
    rfl
  obtain ⟨sum', summed', more_summed⟩ := GetCRC_some room
  obtain rfl : sum' = sum := Option.some.inj (summed'.symm.trans summed)
  have here {i : Nat} {x : BitVec 32} (loaded : load32 pack i = some x) :
      load32 (pack ++ more ++ beyond) i = some x := by
    rw [List.append_assoc]
    exact load32_append loaded _
  have sum_here : GetCRC ((pack ++ more ++ beyond).drop unIndex)
      (BitVec.ofNat 32 pack.length - 12) = some sum' := by
    rw [List.append_assoc, List.drop_append_of_le_length (by simp only [unIndex]; omega)]
    exact more_summed _
  have length : (BitVec.ofNat 32 pack.length).toNat = pack.length := by
    rw [BitVec.toNat_ofNat, Nat.mod_eq_of_lt pack_.fits]
  have some_ : pack ++ more ≠ [] := by
    rintro none_
    rw [(List.append_eq_nil_iff.mp none_).1] at size
    exact absurd size (by decide)
  refine ⟨env.GetTickCount passes - sentAt, ?_⟩
  rw [takePacks, if_neg some_]
  simp only [here pack_.flag, here pack_.len, here crc, here pack_.index, here tick, sum_here,
    Option.bind_eq_bind, Option.bind_some, ne_eq, not_true_eq_false, if_false, length]
  rw [if_neg (by rw [List.length_append]; omega), List.drop_left]

/-- The packs that have come back whole are counted, and the loop goes on with the part of
the next one. -/
theorem takePacks_whole {fs whole : List (List Byte)} (numbered : Numbered whole.length fs)
    (tally : Tally start c whole) {m : Nat} (within : m ≤ fs.flatten.length) (passes : Nat) :
    ∃ c', Tally start c' (whole ++ (cut fs m).1) ∧ Receives c c' ∧
      takePacks env beyond (passes + (cut fs m).1.length) c (fs.flatten.take m) =
        takePacks env beyond passes c' (cut fs m).2 := by
  induction fs generalizing whole c m with
  | nil => exact ⟨c, by rwa [cut, List.append_nil], .refl c, by simp [cut]⟩
  | cons pack fs ih =>
    obtain ⟨pack_, rest⟩ := numbered
    by_cases here : pack.length ≤ m
    · have left : m - pack.length ≤ fs.flatten.length := by
        rw [List.flatten_cons, List.length_append] at within
        omega
      obtain ⟨time, taken⟩ := takePacks_pack env beyond c pack_
        (fs.flatten.take (m - pack.length)) (passes + (cut fs (m - pack.length)).1.length)
      have numbered' : Numbered (whole ++ [pack]).length fs := by
        rwa [List.length_append, List.length_singleton]
      obtain ⟨c', tally', receives, go_on⟩ := ih numbered' (Tally.counted tally pack time) left
      rw [cut_whole fs here]
      refine ⟨c', by rwa [List.append_assoc, List.singleton_append] at tally',
        (counted_receives c _ _ time).trans receives, ?_⟩
      rw [List.flatten_cons, List.take_append, List.take_of_length_le here, List.length_cons,
        ← Nat.add_assoc, taken]
      exact go_on
    · have part := not_le.mp here
      rw [cut_part fs part]
      refine ⟨c, by rwa [List.append_nil], .refl c, ?_⟩
      rw [List.flatten_cons, List.take_append_of_le_length part.le]
      rfl

def keep (kept : List Byte) : Option (List Byte) :=
  if kept = [] then none else some kept

theorem takePacks_legible {beyond kept : List Byte} (legible : Legible kept beyond) (passes : Nat) :
    takePacks env beyond (passes + 1) c kept = some (c, keep kept) := by
  rcases legible with rfl | ⟨flag, len, here, short⟩
  · rfl
  · by_cases none_ : kept = []
    · rw [takePacks, if_pos none_, keep, if_pos none_]
    · rw [takePacks, if_neg none_, keep, if_neg none_]
      simp [flag, Option.mem_def.mp here, short]

/-- A part that does not show its head is lost, or the process ends. -/
theorem takePacks_illegible (c : CConnection) {beyond kept : List Byte}
    (illegible : ¬ Legible kept beyond)
    (short : kept.length < unLen + 4) (inside : kept.length + beyond.length < 2 ^ 32)
    (passes : Nat) :
    takePacks env beyond (passes + 1) c kept = none ∨
      takePacks env beyond (passes + 1) c kept = some (c, none) := by
  obtain ⟨some_, other⟩ := not_or.mp illegible
  rw [takePacks, if_neg some_]
  cases flag : load32 (kept ++ beyond) unHeadFlag with
  | none => exact .inl (by simp [flag])
  | some word =>
    by_cases head : word = HEAD_FLAG
    · subst head
      cases here : load32 (kept ++ beyond) unLen with
      | none => exact .inl (by simp [flag, here])
      | some len =>
        have low : len.toNat ≤ kept.length := by
          by_contra high
          exact other ⟨flag, len, here, not_le.mp high⟩
        have summed : GetCRC ((kept ++ beyond).drop unIndex) (len - 12) = none := by
          have twelve : (12 : BitVec 32).toNat = 12 := rfl
          rw [GetCRC, if_neg]
          rw [List.length_drop, List.length_append, BitVec.toNat_sub, twelve, unIndex]
          rw [unLen] at short
          omega
        simp only [flag, here, Option.bind_eq_bind, Option.bind_some, ne_eq, not_true_eq_false,
          if_false, not_lt.mpr low, summed]
        exact .inl rfl
    · exact .inr (by simp [flag, head])

end CConnection

end TestIOCP.LoadTest
