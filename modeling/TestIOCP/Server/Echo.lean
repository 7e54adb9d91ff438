import TestIOCP.Cells
import TestIOCP.CString
import TestIOCP.Server.Calls

/-! The bytes that CTestIOCPServerDlg answers its clients with. Server.Calls knows the
addresses of the blocks only; here the memory has a byte at every address, and the callees
of ClientStatusNotify and OperateNotify are operations, with any results. -/
namespace TestIOCP.Server.Echo
open Program CString Cells

inductive Op where
  | getMemBlock
  | releaseMemBlock (pdata : Block)
  | memset (pdata : Block)
  | strcat_s (pdatabuf : Block) (text : List Byte)
  | recvData (pclient : Client) (pdatabuf : Block) (buflength : BitVec 32)
  | sendData (pclient : Client) (pdatabuf : Block) (datalength : BitVec 32)
  | closeClient (pclient : Client)

abbrev Res : Op → Type
  | .getMemBlock => Block
  | .recvData _ _ _ | .sendData _ _ _ | .closeClient _ => Int
  | _ => Unit

abbrev Call := Program Op Res

def perform (op : Op) : Call (Res op) := Program.perform op

/-- ClientStatusNotify for a new client. -/
def clientStatusNotify (pclient : Client) : Call Int := do
  let pdata ← perform .getMemBlock
  perform (.memset pdata)
  let ret ← perform (.recvData pclient pdata 4096)
  if ret < 0 then
    let _ ← perform (.closeClient pclient)
    perform (.releaseMemBlock pdata)
  return 0

def reply (pclient : Client) (pdatabuf : Block) (datalength : BitVec 32) : Call Unit := do
  perform (.strcat_s pdatabuf (bytes " server reply"))
  let ret ← perform (.sendData pclient pdatabuf (datalength + 14))
  if ret < 0 then
    let _ ← perform (.closeClient pclient)
    perform (.releaseMemBlock pdatabuf)

/-- Where OperateNotify posts the next read it does what ClientStatusNotify does. -/
def operateNotify (opertype : Int) (pclient : Client) (ret_code : BitVec 32) (pdatabuf : Block)
    (datalength : BitVec 32) : Call Int := do
  if datalength.toInt ≤ 0 then
    perform (.releaseMemBlock pdatabuf)
    let _ ← perform (.closeClient pclient)
    return 0
  if opertype = 0 then
    if ret_code = 0 then
      reply pclient pdatabuf datalength
      let _ ← clientStatusNotify pclient
      return 0
    perform (.releaseMemBlock pdatabuf)
    let _ ← perform (.closeClient pclient)
    return 0
  if opertype = 1 then
    if ret_code ≠ 0 then
      let _ ← perform (.closeClient pclient)
    perform (.releaseMemBlock pdatabuf)
  return 0

/-! ### The calls of Server.Calls -/

/-- The bytes are left out, and a callee is what it performs. -/
def calls : (op : Op) → Server.Call (Res op)
  | .getMemBlock => Server.perform .getMemBlock
  | .releaseMemBlock pdata => Server.perform (.releaseMemBlock pdata)
  | .memset _ | .strcat_s _ _ => return ()
  | .recvData pclient pdatabuf buflength => Server.recvData pclient pdatabuf buflength
  | .sendData pclient pdatabuf datalength => Server.sendData pclient pdatabuf datalength
  | .closeClient pclient => Server.closeClient pclient

theorem translate_ite {p : Prop} [Decidable p] (a b : Call α) :
    (if p then a else b).translate calls =
      if p then a.translate calls else b.translate calls := by
  split <;> rfl

@[simp] theorem clientStatusNotify_calls (c : Client) :
    (clientStatusNotify c).translate calls = Server.clientStatusNotify c := by
  simp only [clientStatusNotify, Server.clientStatusNotify, perform, perform_bind, translate_call,
    translate_ite]
  rfl

@[simp] theorem reply_calls (c : Client) (b : Block) (n : BitVec 32) :
    (reply c b n).translate calls = Server.reply c b n := by
  simp only [reply, Server.reply, perform, perform_bind, translate_call, translate_ite]
  rfl

theorem operateNotify_calls (opertype : Int) (c : Client) (ret_code : BitVec 32) (b : Block)
    (n : BitVec 32) :
    (operateNotify opertype c ret_code b n).translate calls =
      Server.operateNotify opertype c ret_code b n := by
  simp only [operateNotify, Server.operateNotify, translate_bind, translate_ite, perform,
    perform_bind, translate_call, clientStatusNotify_calls, reply_calls]
  rfl

/-! ### What the calls do with the bytes -/

/-- The end of the string is looked for in the array only. A result that does not fit ends
the process, which sets no handler for invalid parameters. -/
def strcat_s (memory : Nat → Byte) (dst size : Nat) (src : List Byte) : Option (Nat → Byte) :=
  let s := cstring (read memory dst size)
  if s.length + src.length < size then some (write memory (dst + s.length) (src ++ [0]))
  else none

/-- A range that a call passes to RecvData or SendData, with the bytes that are there. -/
structure Passed where
  direction : Direction
  pclient : Client
  pdatabuf : Block
  bytes : List Byte
  deriving DecidableEq

def effect (memory : Nat → Byte) : Op → Option ((Nat → Byte) × List Passed)
  | .memset pdata => some (write memory pdata (List.replicate 4096 0), [])
  | .strcat_s pdatabuf text => (strcat_s memory pdatabuf 4096 text).map fun memory => (memory, [])
  | .recvData pclient pdatabuf buflength =>
    some (memory, [⟨.recv, pclient, pdatabuf, read memory pdatabuf buflength.toNat⟩])
  | .sendData pclient pdatabuf datalength =>
    some (memory, [⟨.send, pclient, pdatabuf, read memory pdatabuf datalength.toNat⟩])
  | _ => some (memory, [])

/-- What a call passes until it returns or the process ends; answer is what its operations
return, the first one for 0. -/
def passes (answer : Nat → (op : Op) → Res op) : Call α → Nat → (Nat → Byte) → List Passed
  | .ret _, _, _ => []
  | .call op rest, i, memory =>
    match effect memory op with
    | none => []
    | some (memory, passed) => passed ++ passes answer (rest (answer i op)) (i + 1) memory

def sent (answer : Nat → (op : Op) → Res op) (p : Call α) (memory : Nat → Byte) : List Passed :=
  (passes answer p 0 memory).filter (·.direction = .send)

variable {answer : Nat → (op : Op) → Res op} {memory : Nat → Byte} {i : Nat}

/-- A read is posted for a block of zeros. -/
theorem clientStatusNotify_passes (c : Client) :
    passes answer (clientStatusNotify c) i memory =
      [⟨.recv, c, answer i .getMemBlock, List.replicate 4096 0⟩] := by
  have zeros := read_write memory (answer i .getMemBlock) (List.replicate 4096 (0 : Byte))
  have length : (4096 : BitVec 32).toNat = 4096 := rfl
  rw [List.length_replicate] at zeros
  simp only [clientStatusNotify, perform, perform_bind, passes, effect, List.nil_append, length,
    zeros]
  split <;> rfl

theorem passes_map (p : Call α) (f : α → β) :
    passes answer (p >>= fun a => .ret (f a)) i memory = passes answer p i memory := by
  induction p generalizing i memory with
  | ret a => rfl
  | call op rest ih =>
    simp only [call_bind, passes]
    cases effect memory op with
    | none => rfl
    | some next => exact congrArg (next.2 ++ ·) (ih _)

/-- The answer goes from the start of the block, and 14 bytes further than the data. -/
theorem operateNotify_sent (c : Client) (b : Block) {n : BitVec 32} (positive : 0 < n.toInt) :
    sent answer (operateNotify 0 c 0 b n) memory =
      match strcat_s memory b 4096 (bytes " server reply") with
      | none => []
      | some memory => [⟨.send, c, b, read memory b (n + 14).toNat⟩] := by
  rw [sent, operateNotify, if_neg (by omega), if_pos rfl, if_pos rfl, reply]
  simp only [perform, perform_bind, call_bind, passes, effect]
  cases strcat_s memory b 4096 (bytes " server reply") with
  | none => rfl
  | some memory =>
    have next (i : Nat) : passes answer (clientStatusNotify c >>=
          fun _ => .ret (0 : Int)) i memory =
        [⟨.recv, c, answer i .getMemBlock, List.replicate 4096 0⟩] :=
      (passes_map _ fun _ => 0).trans (clientStatusNotify_passes c)
    simp only [Option.map_some, List.nil_append]
    split
    · simp only [call_bind, perform_bind, passes, effect, List.nil_append, pure_def, next]
      rfl
    · simp only [ret_bind, pure_def, next]
      rfl

/-- Nothing is sent for another completion. -/
theorem operateNotify_silent {opertype : Int} {c : Client} {ret_code : BitVec 32} {b : Block}
    {n : BitVec 32} (other : n.toInt ≤ 0 ∨ opertype ≠ 0 ∨ ret_code ≠ 0) :
    sent answer (operateNotify opertype c ret_code b n) memory = [] := by
  rw [sent, operateNotify]
  simp only [perform, perform_bind, pure_def]
  split
  · rfl
  · rename_i some_
    split
    · rename_i recv
      split
      · rename_i succeeded
        rcases other with nothing | not_recv | failed
        · exact absurd nothing some_
        · exact absurd recv not_recv
        · exact absurd succeeded failed
      · rfl
    · split
      · split
        · rfl
        · rfl
      · rfl

/-! ### The answer -/

/-- A block that was zeros, after a receive. -/
def received (memory : Nat → Byte) (pdatabuf : Block) (payload : List Byte) : Nat → Byte :=
  write (write memory pdatabuf (List.replicate 4096 0)) pdatabuf payload

theorem read_received (memory : Nat → Byte) (b : Block) {payload : List Byte}
    (fits : payload.length ≤ 4096) : read (received memory b payload) b 4096 =
      payload ++ List.replicate (4096 - payload.length) 0 := by
  have zeros := read_write memory b (List.replicate 4096 (0 : Byte))
  generalize before : write memory b (List.replicate 4096 (0 : Byte)) = memory' at zeros
  rw [received, before]
  obtain ⟨rest, size⟩ : ∃ rest, 4096 = payload.length + rest :=
    ⟨4096 - payload.length, by omega⟩
  rw [List.length_replicate, size, read_add, List.replicate_add] at zeros
  have tail := (List.append_inj zeros (by simp)).2
  rw [size, read_add, read_write, read_write_apart (.inr (Nat.le_refl _)), tail,
    Nat.add_sub_cancel_left]

/-- The string that the block starts with ends before the first zero of the data. -/
theorem cstring_received (memory : Nat → Byte) (b : Block) {payload : List Byte}
    (fits : payload.length ≤ 4096) :
    cstring (read (received memory b payload) b 4096) = cstring payload := by
  rw [read_received memory b fits]
  by_cases full : payload.length = 4096
  · simp [full]
  · obtain ⟨rest, size⟩ : ∃ rest, 4096 - payload.length = rest + 1 :=
      ⟨4096 - payload.length - 1, by omega⟩
    rw [size, List.replicate_succ, cstring_nul]

/-- The peer is sent the payload, the text and its terminating zero. An answer that does
not fit in the block is not sent from outside of it. -/
def Replied (answer : Nat → (op : Op) → Res op) (memory : Nat → Byte) (pclient : Client)
    (pdatabuf : Block) (payload : List Byte) : Prop :=
  let passed := sent answer
    (operateNotify 0 pclient 0 pdatabuf (BitVec.ofNat 32 payload.length))
    (received memory pdatabuf payload)
  (∀ p ∈ passed, p.pdatabuf = pdatabuf ∧ p.bytes.length ≤ 4096) ∧
    (payload.length + 14 ≤ 4096 →
      passed = [⟨.send, pclient, pdatabuf, payload ++ (bytes " server reply" ++ [0])⟩])

/-- What is sent when the text goes behind the string. -/
theorem sent_received (answer : Nat → (op : Op) → Res op) (memory : Nat → Byte) (c : Client)
    (b : Block) {payload : List Byte}
    (some_ : payload ≠ []) (fits : payload.length ≤ 4096) :
    sent answer (operateNotify 0 c 0 b (BitVec.ofNat 32 payload.length))
        (received memory b payload) =
      if (cstring payload).length + 13 < 4096 then
        [⟨.send, c, b, read (write (received memory b payload) (b + (cstring payload).length)
          (bytes " server reply" ++ [0])) b (payload.length + 14)⟩]
      else [] := by
  have positive := List.length_pos_iff.mpr some_
  have toNat : (BitVec.ofNat 32 payload.length).toNat = payload.length := by
    rw [BitVec.toNat_ofNat, Nat.mod_eq_of_lt (by omega)]
  have toInt : 0 < (BitVec.ofNat 32 payload.length).toInt := by
    rw [BitVec.toInt_eq_toNat_of_lt (by omega), toNat]
    omega
  have length : (BitVec.ofNat 32 payload.length + 14).toNat = payload.length + 14 := by
    rw [BitVec.toNat_add, toNat, show (14 : BitVec 32).toNat = 14 from rfl,
      Nat.mod_eq_of_lt (by omega)]
  rw [operateNotify_sent c b toInt, strcat_s, cstring_received memory b fits, length]
  have text : (bytes " server reply").length = 13 := rfl
  rw [text]
  by_cases room : (cstring payload).length + 13 < 4096
  · simp only [room, if_true]
  · simp only [room, if_false]

/-- The condition under which the text goes behind the data. -/
def Appended (payload : List Byte) : Prop :=
  if payload.length + 14 ≤ 4096 then 0 ∉ payload else 0 ∉ payload.take 4083

/-- An answer that fits goes behind the data when no zero ends the string before. -/
theorem replied_fitting (answer : Nat → (op : Op) → Res op) (memory : Nat → Byte) (c : Client)
    (b : Block) {payload : List Byte} (some_ : payload ≠ []) (fits : payload.length + 14 ≤ 4096) :
    Replied answer memory c b payload ↔ 0 ∉ payload := by
  have sent := sent_received answer memory c b some_ (by omega)
  have shorter : (cstring payload).length ≤ payload.length :=
    (List.takeWhile_prefix _).length_le
  rw [if_pos (by omega)] at sent
  simp only [Replied, sent, fits, true_imp_iff, List.mem_singleton, forall_eq, true_and,
    length_read, List.cons.injEq, Passed.mk.injEq, and_true]
  constructor
  · intro same inside
    -- The text stands where the first zero was.
    obtain ⟨before, after, rfl, free⟩ := List.eq_append_cons_of_mem inside
    have length : (before ++ 0 :: after).length + 14 =
        before.length + (bytes " server reply" ++ [0]).length + (after.length + 1) := by
      have text : (bytes " server reply" ++ [0]).length = 14 := rfl
      rw [List.length_append, List.length_cons, text]
      omega
    rw [cstring_nul, cstring_of_notMem free, length, read_add, read_write_behind,
      List.append_assoc (Cells.read _ _ _), List.append_assoc before] at same
    have text := (List.append_inj same (length_read _ _ _)).2
    have head : ch ' ' = 0 := Option.some.inj (congrArg List.head? text)
    exact absurd head (by decide)
  · intro free
    rw [cstring_of_notMem free]
    have behind := read_write_behind (received memory b payload) b payload.length
      (bytes " server reply" ++ [0])
    rw [received, read_write] at behind
    exact behind

/-- The text is not appended only when the string takes up the block. -/
theorem replied_overlong (answer : Nat → (op : Op) → Res op) (memory : Nat → Byte) (c : Client)
    (b : Block) {payload : List Byte} (fits : payload.length ≤ 4096)
    (overlong : ¬ payload.length + 14 ≤ 4096) :
    Replied answer memory c b payload ↔ 0 ∉ payload.take 4083 := by
  have some_ : payload ≠ [] := by
    rintro rfl
    exact overlong (by decide)
  have sent := sent_received answer memory c b some_ fits
  simp only [Replied, sent, overlong, false_imp_iff, and_true]
  constructor
  · intro inside zero
    obtain ⟨before, after, same, free⟩ := List.eq_append_cons_of_mem zero
    have short : before.length < 4083 := by
      have length := congrArg List.length same
      simp only [List.length_take, List.length_append, List.length_cons] at length
      omega
    have string : cstring payload = before := by
      rw [← List.take_append_drop 4083 payload, same, List.append_assoc, List.cons_append,
        cstring_nul, cstring_of_notMem free]
    rw [string, if_pos (by omega)] at inside
    have least := (inside _ (List.mem_singleton_self _)).2
    rw [length_read] at least
    exact overlong least
  · intro free
    have long : 4083 ≤ (cstring payload).length := by
      rw [← List.take_append_drop 4083 payload, cstring_append free, List.length_append,
        List.length_take]
      omega
    rw [if_neg (by omega)]
    rintro p ⟨⟩

/-- The peer gets the answer that was meant, and nothing from outside of the block, when
the text is appended where the data ends or not at all. -/
theorem replied_iff (answer : Nat → (op : Op) → Res op) (memory : Nat → Byte) (c : Client)
    (b : Block) {payload : List Byte} (some_ : 1 ≤ payload.length)
    (most : payload.length ≤ 4096) :
    Replied answer memory c b payload ↔ Appended payload := by
  rw [Appended]
  by_cases fits : payload.length + 14 ≤ 4096
  · rw [if_pos fits]
    exact replied_fitting answer memory c b (List.length_pos_iff.mp some_) fits
  · rw [if_neg fits]
    exact replied_overlong answer memory c b most fits

/-- Every call succeeds. -/
def succeeds (_ : Nat) : (op : Op) → Res op
  | .getMemBlock => 8192
  | .recvData _ _ _ | .sendData _ _ _ | .closeClient _ => 0
  | .releaseMemBlock _ | .memset _ | .strcat_s _ _ => ()

theorem replied_hello : Replied succeeds (fun _ => 0) 1 4096 (bytes "hello") :=
  (replied_iff succeeds (fun _ => 0) 1 4096 (by decide) (by decide)).mpr (by
    rw [Appended]
    decide)

/-- A zero byte is overwritten, and behind one at the start of a long payload the text fits
although the answer does not. -/
theorem not_replied :
    ¬ Replied succeeds (fun _ => 0) 1 4096 [0] ∧
      ¬ Replied succeeds (fun _ => 0) 1 4096 (0 :: List.replicate 4089 1) := by
  constructor
  · rw [replied_fitting succeeds _ 1 4096 (by decide) (by decide)]
    decide
  · have length : (0 :: List.replicate 4089 (1 : Byte)).length = 4090 := by
      rw [List.length_cons, List.length_replicate]
    rw [replied_overlong succeeds _ 1 4096 (by omega) (by omega), List.take_succ_cons]
    exact not_not_intro List.mem_cons_self

end TestIOCP.Server.Echo
