import TestIOCP.Serial
import TestIOCP.Server.Contents
import TestIOCP.Server.Discipline

/-! What the calls of the consumer know of their block: a read is posted to a block of
zeros, a piece that it has brought is answered behind its string, and the answer is sent
up to its end. -/
namespace TestIOCP.Server.Contents
open Transition Program CString
open Notices (Connection)

variable {α : Type}

/-- What the consumer makes of a piece that leaves room for it: the text goes behind the
string that the piece starts with. -/
def echo (piece : List Byte) : List Byte :=
  let answer := cstring piece ++ (bytes " server reply" ++ [0])
  answer ++ (piece ++ List.replicate 14 0).drop answer.length

theorem echo_of_notMem {piece : List Byte} (free : 0 ∉ piece) :
    echo piece = piece ++ (bytes " server reply" ++ [0]) := by
  have text : (bytes " server reply" ++ [0]).length = 14 := rfl
  rw [echo, cstring_of_notMem free]
  have none : (piece ++ List.replicate 14 (0 : Byte)).drop
      (piece ++ (bytes " server reply" ++ [0])).length = [] := by
    apply List.drop_eq_nil_of_le
    rw [List.length_append, List.length_append, List.length_replicate, text]
  exact (congrArg _ none).trans (List.append_nil _)

/-- What a block is like of which a call knows something. -/
def Data.Holds : Data → (Nat → Byte) → Prop
  | .unknown, _ => True
  | .zeros, block => Cells.read block 0 4096 = List.replicate 4096 0
  | .piece bytes, block => bytes.length + 14 ≤ 4096 ∧
    Cells.read block 0 4096 = bytes ++ List.replicate (4096 - bytes.length) 0
  | .answer bytes, block => bytes.length + 14 ≤ 4096 ∧
    Cells.read block 0 (bytes.length + 14) = echo bytes

theorem read_take {block : Nat → Byte} {n m : Nat} (short : n ≤ m) :
    Cells.read block 0 n = (Cells.read block 0 m).take n := by
  obtain ⟨k, rfl⟩ := Nat.exists_eq_add_of_le short
  rw [Cells.read_add, List.take_left' (Cells.length_read _ _ _)]

theorem read_drop (block : Nat → Byte) (n m : Nat) :
    Cells.read block n m = (Cells.read block 0 (n + m)).drop n := by
  rw [Cells.read_add, List.drop_left' (Cells.length_read _ _ _), Nat.zero_add]

/-- The text goes behind the string. -/
theorem read_answer {block : Nat → Byte} {piece : List Byte} (room : piece.length + 14 ≤ 4096)
    (content : Cells.read block 0 4096 = piece ++ List.replicate (4096 - piece.length) 0) :
    Cells.read (Cells.write block (0 + (cstring piece).length) (bytes " server reply" ++ [0])) 0
      (piece.length + 14) = echo piece := by
  have text : (bytes " server reply" ++ [0]).length = 14 := rfl
  have front : Cells.read block 0 (piece.length + 14) = piece ++ List.replicate 14 0 := by
    rw [read_take room, content, List.take_length_add_append, List.take_replicate,
      Nat.min_eq_left (by omega)]
  have stands : cstring piece <+: piece := List.takeWhile_prefix _
  simp only [echo]
  generalize bytes " server reply" ++ [0] = answer at text
  generalize cstring piece = s at stands
  obtain ⟨after, rfl⟩ := stands
  have size : (s ++ after).length + 14 = s.length + answer.length + after.length := by
    rw [List.length_append, text]
    omega
  have string : Cells.read block 0 s.length = s := by
    rw [read_take (show s.length ≤ (s ++ after).length + 14 by omega), front, List.append_assoc,
      List.take_left' rfl]
  rw [size, Cells.read_add, Cells.read_write_behind, string,
    Cells.read_write_apart (.inr (by omega)), Nat.zero_add, read_drop, ← size, front,
    List.length_append]

/-- The text is appended, and the answer is what is then sent. -/
theorem strcat_s_holds {block : Nat → Byte} {piece : List Byte}
    (before : (Data.piece piece).Holds block) :
    ∃ block', Echo.strcat_s block 0 4096 (bytes " server reply") = some block' ∧
      (Data.answer piece).Holds block' := by
  obtain ⟨room, content⟩ := before
  have text : (bytes " server reply").length = 13 := rfl
  have string : cstring (Cells.read block 0 4096) = cstring piece := by
    obtain ⟨rest, size⟩ : ∃ rest, 4096 - piece.length = rest + 1 :=
      ⟨4096 - piece.length - 1, by omega⟩
    rw [content, size, List.replicate_succ, cstring_nul]
  have shorter : (cstring piece).length ≤ piece.length := (List.takeWhile_prefix _).length_le
  refine ⟨_, ?_, room, read_answer room content⟩
  rw [Echo.strcat_s, string, text, if_pos (by omega)]

/-- The piece that a call has still to answer. -/
def Data.due : Data → Option (List Byte)
  | .piece bytes | .answer bytes => some bytes
  | .unknown | .zeros => none

/-- What a call may post: a read to a block of zeros, and an answer up to its end. -/
def Fits (l : Local) (c : Client) (length : BitVec 32) : Direction → Prop
  | .recv => (∃ x, l.turn = some x ∧ x.client = c) ∧ l.data = .zeros ∧ length = 4096
  | .send => (∃ x, l.turn = some x ∧ x.client = c) ∧
    ∃ piece, l.data = .answer piece ∧ length.toNat = piece.length + 14

/-- What a call must know of its block for an operation. -/
def Needs (l : Local) : Op → Prop
  | .memset b => l.task.blocks = [b] ∧ l.data.due = none
  | .strcat_s b text => l.task.blocks = [b] ∧ text = bytes " server reply" ∧
    ∃ piece, l.data = .piece piece
  | .op (.post c d r) => ∃ data, l.task.hold = .building r data ∧ l.task.blocks = [data.buf] ∧
    Fits l c data.len d
  | .op .getFreeClient => l.task.hold = .nothing ∧ l.data.due = none
  | .op .getMemBlock | .op (.releaseMemBlock _) => l.data.due = none
  | _ => True

/-- The type of a dequeued record is that of the operation. -/
def Types (l : Local) : (o : Server.Op) → Server.Res o → Prop
  | .operType _, oper_type => oper_type = if l.turn.isSome then 0 else 1
  | _, _ => True

/-- What a call knows after an operation. -/
def Gives (l : Local) : (op : Op) → Res op → Local → Prop
  | .op o, r, l' => (∃ s : Shared, l' = (s.note { l with task := l.task.after o r } o r).2) ∧
    Reads l.task o r ∧ Types l o r
  | .memset _, _, l' => l' = { l with data := .zeros }
  | .strcat_s _ _, _, l' => ∃ piece, l.data = .piece piece ∧ l' = { l with data := .answer piece }

def discipline : Discipline Local Op Res where
  pre := Needs
  post := Gives

/-- A call can end when it has nothing to answer. -/
def Finished (l : Local) : Prop :=
  Done True l.task ∧ l.data.due = none

/-- Operations that have nothing to do with blocks and turns. -/
def Quiet : Server.Op → Prop
  | .getFreeClient | .post _ _ _ | .getMemBlock | .releaseMemBlock _ => False
  | _ => True

variable {l l' : Local} {c : Client} {b : Block} {r : Record} {n : BitVec 32}

theorem note_quiet {o : Server.Op} (quiet : Quiet o) (s : Shared) (l : Local) (r : Server.Res o) :
    s.note l o r = (s, l) := by
  cases o <;> first | exact quiet.elim | rfl

theorem needs_quiet {o : Server.Op} (quiet : Quiet o) : Needs l (.op o) := by
  cases o <;> first | exact quiet.elim | trivial

/-- A part of a call that has nothing to do with blocks and turns. -/
theorem lift_follows {p : Server.Call α} {Q : α → Task → Prop} (every : p.Every Quiet)
    (follows : p.Follows (Server.discipline True) l.task Q) :
    (lift p).Follows discipline l fun a l' =>
      Q a l'.task ∧ l'.turn = l.turn ∧ l'.data = l.data := by
  induction p generalizing l with
  | ret a => exact ⟨follows, rfl, rfl⟩
  | call o rest ih =>
    refine ⟨needs_quiet every.1, ?_⟩
    rintro r l' ⟨⟨s, rfl⟩, reads, -⟩
    rw [note_quiet every.1]
    apply (ih r (every.2 r) (follows.2 r _ ⟨rfl, fun _ => reads⟩)).mono
    exact fun a l' done => done

theorem act_follows {o : Server.Op} {rest : Server.Res o → Call α} {Q : α → Local → Prop}
    (quiet : Quiet o) (after : ∀ r, Reads l.task o r → Types l o r →
      (rest r).Follows discipline { l with task := l.task.after o r } Q) :
    (call (Op.op o) rest).Follows discipline l Q := by
  refine ⟨needs_quiet quiet, ?_⟩
  rintro r l' ⟨⟨s, rfl⟩, reads, types⟩
  rw [note_quiet quiet]
  exact after r reads types

theorem removeRealClient_every (c : Client) : (removeRealClient c).Every Quiet := by
  simp only [removeRealClient, closeStub, Server.perform, perform_bind, call_bind]
  refine ⟨trivial, fun (num : Nat) => ?_⟩
  dsimp only
  split
  · trivial
  · exact ⟨trivial, fun _ => ⟨trivial, fun _ => ⟨trivial, fun _ => ⟨trivial, fun _ => trivial⟩⟩⟩⟩

theorem closeClient_every (c : Client) : (closeClient c).Every Quiet :=
  Every.bind (removeRealClient_every c) fun _ => trivial

/-- What closes a client keeps what the call has. -/
def Keeps (l l' : Local) : Prop :=
  l'.task.hold = l.task.hold ∧ l'.task.blocks = l.task.blocks ∧ l'.turn = l.turn ∧ l'.data = l.data

theorem lift_keeps {p : Server.Call α} (every : p.Every Quiet)
    (follows : p.Follows (Server.discipline True) l.task fun _ l' =>
      l'.hold = l.task.hold ∧ l'.blocks = l.task.blocks) :
    (lift p).Follows discipline l fun _ => Keeps l :=
  (lift_follows every follows).mono
    fun _ _ done => ⟨done.1.1, done.1.2, done.2.1, done.2.2⟩

theorem removeRealClient_keeps (c : Client) :
    (lift (removeRealClient c)).Follows discipline l fun _ => Keeps l :=
  lift_keeps (removeRealClient_every c) (removeRealClient_follows c)

theorem closeClient_keeps (c : Client) :
    (lift (closeClient c)).Follows discipline l fun _ => Keeps l :=
  lift_keeps (closeClient_every c) (closeClient_follows c)

theorem Keeps.finished (keeps : Keeps l l') (done : Finished l) : Finished l' :=
  ⟨⟨keeps.1.trans done.1.1, fun _ => keeps.2.1.trans (done.1.2 trivial)⟩, keeps.2.2.2 ▸ done.2⟩

theorem prepare_every (d : Direction) (b : Block) (n : BitVec 32) : (prepare d b n).Every Quiet :=
  ⟨trivial, fun _ => ⟨trivial, fun _ => ⟨trivial, fun _ => ⟨trivial, fun _ => ⟨trivial, fun _ =>
    trivial⟩⟩⟩⟩⟩

/-- A transfer that fails leaves the block. -/
theorem transfer_fits (d : Direction) (free : l.task.hold = .nothing) (own : l.task.blocks = [b])
    (fits : Fits l c n d) : (lift (transfer d c b n)).Follows discipline l fun ret l' =>
      l'.task.hold = .nothing ∧ l'.task.blocks = (if ret < 0 then [b] else []) ∧
        l'.data.due = none ∧ (d = .send → l'.turn = l.turn) := by
  rw [transfer_parts, lift, translate_bind]
  apply Follows.bind
  apply (lift_follows (prepare_every d b n) (prepare_follows d b n free)).mono
  rintro r l' ⟨⟨hold, blocks⟩, turn, data⟩
  refine ⟨⟨_, hold, blocks.trans own, ?_⟩, ?_⟩
  · cases d with
    | recv => exact ⟨turn ▸ fits.1, data.trans fits.2.1, fits.2.2⟩
    | send =>
      obtain ⟨serves, piece, answer, length⟩ := fits
      exact ⟨turn ▸ serves, piece, data.trans answer, length⟩
  have own' := blocks.trans own
  rintro (_ | (err : Nat)) _ ⟨⟨s, rfl⟩, reads, -⟩
  · apply act_follows (o := .insert c d r) trivial
    rintro _ - -
    cases d with
    | recv => exact ⟨rfl, by simp [Shared.note, Task.after, hold, own'], rfl, by simp⟩
    | send =>
      exact ⟨rfl, by simp [Shared.note, Task.after, hold, own'], rfl, fun _ => turn⟩
  · apply act_follows (o := .releaseIOOperData r) trivial
    rintro _ - -
    have positive : err ≠ 0 := by simpa [Reads] using reads
    have negative : -1 * (err : Int) < 0 := by omega
    cases d with
    | recv =>
      refine ⟨rfl, ?_, ?_, by simp⟩
      · rw [if_pos negative]
        simpa [Shared.note, Task.after] using own'
      · exact (congrArg Data.due data).trans (congrArg Data.due fits.2.1)
    | send =>
      refine ⟨rfl, ?_, rfl, fun _ => turn⟩
      rw [if_pos negative]
      simpa [Shared.note, Task.after] using own'

/-- A block is released, as the last thing that a call does with it. -/
theorem releaseMemBlock_follows {rest : Unit → Call α} {Q : α → Local → Prop}
    (free : l.task.hold = .nothing) (own : l.task.blocks = [b]) (none : l.data.due = none)
    (after : ∀ l', Finished l' → l'.turn = l.turn → (rest ()).Follows discipline l' Q) :
    (call (Op.op (.releaseMemBlock b)) rest).Follows discipline l Q := by
  refine ⟨none, ?_⟩
  rintro _ _ ⟨⟨s, rfl⟩, -, -⟩
  apply after
  · refine ⟨⟨free, fun _ => ?_⟩, rfl⟩
    simp [Shared.note, Task.after, own]
  · rfl

/-- A client is closed and the block released because nothing was posted. -/
theorem giveUp_follows {rest : Int → Unit → Call α} {Q : α → Local → Prop} (c : Client)
    (free : l.task.hold = .nothing) (own : l.task.blocks = [b]) (none : l.data.due = none)
    (after : ∀ ret l', Finished l' → l'.turn = l.turn → (rest ret ()).Follows discipline l' Q) :
    (lift (closeClient c) >>= fun ret => call (Op.op (.releaseMemBlock b)) (rest ret)).Follows
      discipline l Q := by
  apply Follows.bind
  apply (closeClient_keeps c).mono
  rintro ret l' ⟨hold, blocks, turn, data⟩
  apply releaseMemBlock_follows (hold.trans free) (blocks.trans own) (data ▸ none)
  exact fun l'' done turn' => after ret l'' done (turn'.trans turn)

/-- The next read is posted to a block of zeros. -/
theorem clientStatusNotify_follows (done : Finished l)
    (turn : ∃ x, l.turn = some x ∧ x.client = c) :
    (clientStatusNotify c).Follows discipline l fun _ => Finished := by
  simp only [clientStatusNotify, Echo.clientStatusNotify, Echo.perform, perform_bind,
    translate_call, served, act, apply_ite (translate served), recvData]
  refine ⟨done.2, ?_⟩
  rintro (b : Block) _ ⟨⟨s, rfl⟩, -, -⟩
  have own : b :: l.task.blocks = [b] := by rw [done.1.2 trivial]
  refine ⟨⟨own, rfl⟩, ?_⟩
  rintro _ _ rfl
  apply Follows.bind
  refine Follows.mono (transfer_fits .recv done.1.1 own ⟨turn, rfl, rfl⟩) ?_
  rintro ret l' ⟨free, blocks, none, -⟩
  split
  · rename_i failed
    rw [if_pos failed] at blocks
    exact giveUp_follows c free blocks none fun _ l'' done _ => done
  · rename_i posted
    rw [if_neg posted] at blocks
    exact ⟨⟨free, fun _ => blocks⟩, none⟩

theorem reply_follows {piece : List Byte} (free : l.task.hold = .nothing)
    (own : l.task.blocks = [b]) (turn : ∃ x, l.turn = some x ∧ x.client = c)
    (data : l.data = .piece piece) (length : (n + 14).toNat = piece.length + 14) :
    ((Echo.reply c b n).translate served).Follows discipline l fun _ l' =>
      Finished l' ∧ l'.turn = l.turn := by
  simp only [Echo.reply, Echo.perform, Program.perform, call_bind, ret_bind, translate_call,
    translate_ret, served, act, apply_ite (translate served), sendData]
  refine ⟨⟨own, rfl, piece, data⟩, ?_⟩
  rintro _ _ ⟨piece', data', rfl⟩
  obtain rfl : piece = piece' := by simpa [data] using data'
  apply Follows.bind
  refine Follows.mono (transfer_fits .send free own ⟨turn, piece, rfl, length⟩) ?_
  rintro ret l' ⟨free, blocks, none, same⟩
  split
  · rename_i failed
    rw [if_pos failed] at blocks
    exact giveUp_follows c free blocks none fun _ l'' done turn => ⟨done, turn.trans (same rfl)⟩
  · rename_i posted
    rw [if_neg posted] at blocks
    exact ⟨⟨⟨free, fun _ => blocks⟩, none⟩, same rfl⟩

/-- What a call knows of the completion that it handles: a piece to be answered, or nothing
when there is none. -/
def Completed (l : Local) (ret_code n : BitVec 32) : Prop :=
  (∃ piece, l.data = .piece piece ∧ l.turn.isSome ∧ ret_code = 0 ∧ n.toNat = piece.length ∧
    piece ≠ [] ∧ piece.length + 14 ≤ 4096) ∨
  (l.data = .unknown ∧ (l.turn.isSome → ret_code = 0 → n = 0))

theorem release_follows (c : Client) (free : l.task.hold = .nothing) (own : l.task.blocks = [b])
    (none : l.data.due = none) : (call (Op.op (.releaseMemBlock b)) fun _ =>
      lift (closeClient c) >>= fun _ => ret (0 : Int)).Follows discipline l fun _ => Finished := by
  apply releaseMemBlock_follows free own none
  intro l' done _
  apply Follows.bind
  exact (closeClient_keeps c).mono fun _ l'' keeps => keeps.finished done

theorem operateNotify_follows {opertype : Int} {ret_code : BitVec 32}
    (free : l.task.hold = .nothing) (own : l.task.blocks = [b])
    (type : opertype = if l.turn.isSome then 0 else 1)
    (client : ∀ x, l.turn = some x → x.client = c) (completed : Completed l ret_code n) :
    (operateNotify opertype c ret_code b n).Follows discipline l fun _ => Finished := by
  simp only [operateNotify, Echo.operateNotify, Echo.perform, perform_bind, translate_call,
    translate_bind, served, act, apply_ite (translate served), pure_def, translate_ret]
  rcases completed with ⟨piece, data, reading, rfl, length, some_, room⟩ | ⟨data, nothing⟩
  · have positive := List.length_pos_iff.mpr some_
    have toInt : 0 < n.toInt := by
      rw [BitVec.toInt_eq_toNat_of_lt (by omega)]
      omega
    rw [if_pos reading] at type
    rw [if_neg (by omega), if_pos type, if_pos rfl]
    obtain ⟨x, at_⟩ := Option.isSome_iff_exists.mp reading
    have turn : ∃ x, l.turn = some x ∧ x.client = c := ⟨x, at_, client x at_⟩
    have longer : (n + 14).toNat = piece.length + 14 := by
      rw [BitVec.toNat_add, length, show (14 : BitVec 32).toNat = 14 from rfl,
        Nat.mod_eq_of_lt (by omega)]
    apply Follows.bind
    refine Follows.mono (reply_follows free own turn data longer) ?_
    rintro _ l' ⟨done, same⟩
    apply Follows.bind
    exact (clientStatusNotify_follows done (same ▸ turn)).mono fun _ _ done => done
  · have none : l.data.due = none := congrArg Data.due data
    split
    · exact release_follows c free own none
    rename_i some_
    split
    · rename_i recv
      have reading : l.turn.isSome := by
        by_contra sending
        rw [recv, if_neg sending] at type
        cases type
      rw [if_neg]
      · exact release_follows c free own none
      · intro succeeded
        rw [nothing reading succeeded] at some_
        exact some_ (by decide)
    split
    · split
      · exact giveUp_follows c free own none fun _ l' done _ => done
      · exact releaseMemBlock_follows free own none fun l' done _ => done
    · rename_i unread unsent
      split at type
      · exact absurd type unread
      · exact absurd type unsent

theorem releaseListed_every (d : Direction) (c : Client) (r : Record) :
    (releaseListed d c r).Every Quiet := by
  refine ⟨trivial, fun _ => ⟨trivial, fun found => ?_⟩⟩
  cases found
  · trivial
  · exact ⟨trivial, fun _ => trivial⟩

theorem releaseOperData_every (c : Client) (r : Record) : (releaseOperData c r).Every Quiet := by
  refine ⟨trivial, fun reading => ?_⟩
  cases reading with
  | true => exact (releaseListed_every .recv c r).bind fun _ => trivial
  | false =>
    refine ⟨trivial, fun sending => ?_⟩
    cases sending with
    | true => exact (releaseListed_every .send c r).bind fun _ => trivial
    | false =>
      refine ⟨trivial, fun found => ?_⟩
      cases found with
      | true => trivial
      | false => exact ⟨trivial, fun _ => trivial⟩

theorem notify_follows {ret_code transferred : BitVec 32}
    (client : ∀ x, l.turn = some x → x.client = c) (completed : Completed l ret_code transferred) :
    (notify c r ret_code transferred).Follows discipline l fun _ => Finished := by
  simp only [notify, act, perform_bind]
  apply act_follows (o := .operType r) trivial
  rintro oper_type - type
  apply act_follows (o := .buf r) trivial
  rintro b blocks -
  apply Follows.bind
  apply (lift_follows (releaseOperData_every c r) (releaseOperData_follows c rfl)).mono
  rintro _ l' ⟨⟨free, same⟩, turn, data⟩
  apply Follows.bind
  refine Follows.mono (operateNotify_follows free (same.trans blocks) ?_ ?_ ?_) fun _ _ done => done
  · rw [turn]
    exact type
  · exact turn ▸ client
  · rw [Completed, turn, data]
    exact completed

theorem workThread_follows {lasterr : Option (BitVec 32)} {transferred : BitVec 32}
    (client : ∀ x, l.turn = some x → x.client = c)
    (completed : Completed l (lasterr.getD 0) transferred) :
    (workThread lasterr c r transferred).Follows discipline l fun _ => Finished := by
  cases lasterr with
  | some lasterr => exact notify_follows client completed
  | none =>
    simp only [workThread, act, perform_bind]
    apply act_follows (o := .switch r) trivial
    rintro oper_type (type : oper_type = 0 ∨ oper_type = 1) -
    rw [if_pos type]
    exact notify_follows client completed

theorem acceptThread_follows (sAccept : Option Sock) (done : Finished l) :
    (acceptThread sAccept).Follows discipline l fun _ => Finished := by
  simp only [acceptThread, act, perform_bind]
  refine ⟨⟨done.1.1, done.2⟩, ?_⟩
  rintro (c : Client) _ ⟨⟨s, rfl⟩, -, -⟩
  apply act_follows (o := .initClient c sAccept) trivial
  rintro _ - -
  apply act_follows (o := .addRealClient c) trivial
  rintro _ - -
  apply act_follows (o := .createIoCompletionPort sAccept c) trivial
  rintro (ok : Bool) - -
  cases ok with
  | true =>
    apply Follows.bind
    refine Follows.mono (clientStatusNotify_follows ⟨⟨done.1.1, done.1.2⟩, done.2⟩ ?_)
      fun _ _ done => done
    exact ⟨s.current c, rfl, rfl⟩
  | false =>
    apply Follows.bind
    apply (removeRealClient_keeps c).mono
    exact fun _ l' keeps => keeps.finished ⟨⟨done.1.1, done.1.2⟩, done.2⟩

end TestIOCP.Server.Contents
