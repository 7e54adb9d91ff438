import TestIOCP.Server.Buffers
import TestIOCP.Server.Blocks
import TestIOCP.Server.Connections

/-! What is in the blocks in every interleaving of the calls. The blocks of Server.Blocks
belong to one posted operation or one call, so that nobody else writes to them. -/
namespace TestIOCP.Server.Contents
open Transition Program CString
open Notices (Connection)

variable {T : Type} {l l' : Local} {c : Client} {b : Block} {r : Record} {n : BitVec 32}

/-- The buffer of a posted operation is what was passed. -/
structure Lent (s : Shared) (r : Record) : Prop where
  buf : (s.server.records r).buf = (s.passed r).buf
  type : (s.server.records r).oper_type = (s.passed r).direction.oper_type
  bytes : Cells.read (s.contents (s.passed r).buf) 0 (s.passed r).len.toNat = (s.passed r).bytes
  zeros : (s.passed r).direction = .recv →
    (s.passed r).len = 4096 ∧ (s.passed r).bytes = List.replicate 4096 0

/-- What a call knows of its block is so. -/
def Knows (contents : Block → Nat → Byte) (l : Local) : Prop :=
  l.data ≠ .unknown → ∃ b, l.task.blocks = [b] ∧ l.data.Holds (contents b)

/-- The type that the record of a completion has. -/
def Typed (s : Shared) (l : Local) : Prop :=
  ∀ r, l.task.hold = .dequeued r →
    (s.server.records r).oper_type = if l.turn.isSome then 0 else 1

structure Lending (s : Shared) (own : T → Local) : Prop where
  lent : ∀ p ∈ s.server.pending, Lent s p.record
  knows : ∀ t, Knows s.contents (own t)
  typed : ∀ t, Typed s (own t)

/-- Without the contents. -/
def tasks (own : T → Local) (t : T) : Task :=
  (own t).task

variable {s s' : Shared} {own : T → Local} {t : T}

/-- What is written down of the streams leaves the blocks. -/
theorem Lending.congr (inv : Lending s own) (server : s'.server = s.server)
    (contents : s'.contents = s.contents) (passed : s'.passed = s.passed) : Lending s' own := by
  refine ⟨fun p inside => ?_, contents ▸ inv.knows, fun t r at_ => server ▸ inv.typed t r at_⟩
  obtain ⟨buf, type, bytes, zeros⟩ := inv.lent p (server ▸ inside)
  constructor
  · rw [server, passed, buf]
  · rw [server, passed, type]
  · rw [contents, passed, bytes]
  · rw [passed]
    exact zeros

/-- A block of a call is nobody else's. -/
theorem apart_pending (accounts : Accounts s.server (tasks own)) (has : b ∈ (own t).task.blocks)
    {p : Posted} (inside : p ∈ s.server.pending) : (s.server.records p.record).buf ≠ b := by
  rintro rfl
  have here : BlockAt s.server (tasks own) (.call t) (s.server.records p.record).buf := has
  have there : BlockAt s.server (tasks own) (.posted p.record) (s.server.records p.record).buf :=
    ⟨List.mem_map_of_mem inside, rfl⟩
  exact accounts.banked.place.elsewhere here (by simp) there

theorem apart_other (accounts : Accounts s.server (tasks own)) (has : b ∈ (own t).task.blocks)
    {u : T} (other : u ≠ t) : b ∉ (own u).task.blocks := by
  intro there
  have here : BlockAt s.server (tasks own) (.call t) b := has
  have there : BlockAt s.server (tasks own) (.call u) b := there
  exact accounts.banked.place.elsewhere here (by simpa using other) there

/-- The record has an operation that is pending or whose type is not read. -/
def Busy (s : Server.Shared) (own : T → Task) (r : Record) : Prop :=
  r ∈ s.pending.map Posted.record ∨ ∃ u, (own u).hold = .dequeued r

variable [DecidableEq T]

/-- A step of one call, which changes blocks of its own only. -/
theorem Lending.next (inv : Lending s own) (accounts : Accounts s'.server
      (tasks (Function.update own t l)))
    (records : ∀ r, Busy s.server (tasks own) r → s'.server.records r = s.server.records r)
    (lent : ∀ p ∈ s'.server.pending, Lent s' p.record ∨
      p ∈ s.server.pending ∧ s'.passed p.record = s.passed p.record)
    (contents : ∀ b, b ∉ l.task.blocks → s'.contents b = s.contents b)
    (knows : Knows s'.contents l) (typed : Typed s' l) :
    Lending s' (Function.update own t l) := by
  constructor
  · intro p inside
    rcases lent p inside with now | ⟨before, passed⟩
    · exact now
    · obtain ⟨buf, type, bytes, zeros⟩ := inv.lent p before
      have same := records p.record (.inl (List.mem_map_of_mem before))
      have untouched :
          s'.contents (s.passed p.record).buf = s.contents (s.passed p.record).buf := by
        refine contents _ fun mine => ?_
        have has : (s.passed p.record).buf ∈ (Function.update own t l t).task.blocks := by
          simpa using mine
        exact apart_pending accounts has inside ((congrArg _ same).trans buf)
      refine ⟨?_, ?_, ?_, ?_⟩
      · rw [passed, same, buf]
      · rw [passed, same, type]
      · rw [passed, untouched, bytes]
      · rw [passed]
        exact zeros
  · intro u
    by_cases same : u = t
    · subst same
      simpa using knows
    · rw [Function.update_of_ne same]
      intro known
      obtain ⟨b, has, holds⟩ := inv.knows u known
      refine ⟨b, has, ?_⟩
      rw [contents]
      · exact holds
      · intro mine
        have mine : b ∈ (Function.update own t l t).task.blocks := by simpa using mine
        refine apart_other accounts mine same ?_
        rw [Function.update_of_ne same, has]
        exact List.mem_singleton_self b
  · intro u
    by_cases same : u = t
    · subst same
      simpa using typed
    · rw [Function.update_of_ne same]
      intro r at_
      rw [records r (.inr ⟨u, at_⟩)]
      exact inv.typed u r at_

/-- A step leaves the records of operations that it does not complete. -/
theorem records_spared {s : Server.Shared} {own : T → Task} (accounts : Accounts s own)
    {o : Server.Op} {choice : Choice} (needs : Server.Needs (own t) o)
    (prompt : Prompt s own t o choice) (busy : Busy s own r) :
    (s.perform choice o).1.records r = s.records r := by
  have apart {r' : Record} (writes : (own t).hold.writes r')
      (unread : (own t).hold ≠ .dequeued r') : r ≠ r' := by
    rintro rfl
    rcases busy with pending | ⟨u, at_⟩
    · obtain ⟨p, inside, same⟩ := List.mem_map.mp pending
      exact accounts.records.unposted_unpending writes p inside same
    · by_cases same : u = t
      · exact unread (same ▸ at_)
      · exact accounts.records.exclusive writes same (by rw [at_]; rfl)
  cases o with
  | memset r' =>
    have at_ : (own t).hold = .obtained r' := needs
    exact Function.update_of_ne (apart (.inl (by rw [at_]; rfl)) (by simp [at_])) _ _
  | store r' field =>
    rcases needs with ⟨data, at_⟩ | ⟨at_, -⟩
    · exact Function.update_of_ne (apart (.inl (by rw [at_]; rfl)) (by simp [at_])) _ _
    · exact Function.update_of_ne (apart (.inr (by rw [at_]; rfl)) (by simp [at_])) _ _
  | findErase c d r' =>
    have at_ : (own t).hold = .handling r' := needs
    simp only [Server.Shared.perform]
    split
    · exact Function.update_of_ne (apart (.inr (by rw [at_]; rfl)) (by simp [at_])) _ _
    · rfl
  | drain c d =>
    have outside : r ∉ (s.clients c).list d := by
      intro listed
      rcases busy with pending | ⟨u, at_⟩
      · obtain ⟨p, inside, same⟩ := List.mem_map.mp pending
        exact prompt.1 r listed p inside same
      · exact prompt.2 r listed u at_
    exact if_neg outside
  | post c d r' =>
    simp only [Server.Shared.perform]
    split
    · rfl
    · split
      · rfl
      · split <;> rfl
  | closeSocket c =>
    simp only [Server.Shared.perform]
    split <;> rfl
  | createIoCompletionPort sock c =>
    simp only [Server.Shared.perform]
    split
    · rfl
    · split <;> rfl
  | _ => rfl

/-- Only a post changes what is pending. -/
theorem perform_pending {s : Server.Shared} {o : Server.Op} (choice : Choice)
    (other : ∀ c d r, o ≠ .post c d r) : (s.perform choice o).1.pending = s.pending := by
  cases o with
  | post c d r => exact absurd rfl (other c d r)
  | findErase c d r =>
    simp only [Server.Shared.perform]
    split <;> rfl
  | closeSocket c =>
    simp only [Server.Shared.perform]
    split <;> rfl
  | createIoCompletionPort sock c =>
    simp only [Server.Shared.perform]
    split
    · rfl
    · split <;> rfl
  | _ => rfl

@[simp] theorem tasks_update (own : T → Local) (t : T) (l : Local) :
    tasks (Function.update own t l) = Function.update (tasks own) t l.task := by
  funext u
  by_cases same : u = t
  · subst same
    simp [tasks]
  · simp [tasks, same]

/-- What the server needs for an operation of its own. -/
structure Allowed (s : Server.Shared) (own : T → Task) (t : T) (o : Server.Op)
    (choice : Choice) : Prop where
  needs : Server.Needs (own t) o
  owns : Owns (own t) o
  prompt : Prompt s own t o choice

theorem Allowed.accounts {s : Server.Shared} {own : T → Task} {o : Server.Op} {choice : Choice}
    (allowed : Allowed s own t o choice) (accounts : Accounts s own) :
    Accounts (s.perform choice o).1
        (Function.update own t ((own t).after o (s.perform choice o).2)) ∧
      Reads (own t) o (s.perform choice o).2 := by
  obtain ⟨⟨banked, fields⟩, reads⟩ := accounts.step allowed.needs allowed.owns allowed.prompt
  exact ⟨⟨accounts.records.step allowed.needs allowed.prompt.1, banked, fields⟩, reads⟩

/-- Only an event dequeues a record. -/
theorem after_dequeued {l : Task} {o : Server.Op} {res : Server.Res o}
    (at_ : (l.after o res).hold = .dequeued r) : l.hold = .dequeued r := by
  cases o with
  | store r' field =>
    simp only [Task.after] at at_
    split at at_
    · cases at_
    · exact at_
  | post c d r' =>
    simp only [Task.after] at at_
    split at at_
    · cases at_
    · exact at_
  | switch r' =>
    simp only [Task.after] at at_
    split at at_
    · exact at_
    · cases at_
  | erase c d r' =>
    simp only [Task.after] at at_
    split at at_ <;> cases at_
  | findErase c d r' =>
    simp only [Task.after] at at_
    split at at_
    · cases at_
    · exact at_
  | eraseRealClient c => rwa [(after_eraseRealClient l c res).1] at at_
  | getIOOperData | memset _ | operType _ | insert _ _ _ | releaseIOOperData _ => cases at_
  | _ => exact at_

theorem after_quiet {o : Server.Op} (quiet : Quiet o) (l : Task) (res : Server.Res o) :
    (l.after o res).blocks = l.blocks := by
  cases o with
  | store r field =>
    simp only [Task.after]
    split <;> rfl
  | switch r =>
    simp only [Task.after]
    split <;> rfl
  | findErase c d r =>
    simp only [Task.after]
    split <;> rfl
  | eraseRealClient c => exact (after_eraseRealClient l c res).2
  | getFreeClient | post _ _ _ | getMemBlock | releaseMemBlock _ => exact quiet.elim
  | _ => rfl

namespace Lending

/-- An operation of the server that posts nothing and changes no content. -/
theorem still (inv : Lending s own) (accounts : Accounts s.server (tasks own)) {o : Server.Op}
    {choice : Choice} {server : Server.Shared} {res : Server.Res o}
    (allowed : Allowed s.server (tasks own) t o choice)
    (result : s.server.perform choice o = (server, res))
    (pending : server.pending = s.server.pending)
    (same : s'.server = server ∧ s'.contents = s.contents ∧ s'.passed = s.passed)
    (task : l.task = (own t).task.after o res) (knows : Knows s'.contents l)
    (turn : l.turn = (own t).turn ∨ ∀ r, l.task.hold ≠ .dequeued r) :
    Lending s' (Function.update own t l) := by
  obtain ⟨rfl, contents, passed⟩ := same
  have after := allowed.accounts accounts
  have spared (r : Record) (busy : Busy s.server (tasks own) r) :=
    records_spared accounts allowed.needs allowed.prompt busy
  simp only [result] at after spared
  apply inv.next
  · rw [tasks_update, task]
    exact after.1
  · exact spared
  · intro p inside
    rw [pending] at inside
    exact .inr ⟨inside, congrFun passed _⟩
  · exact fun b _ => congrFun contents b
  · exact knows
  · intro r at_
    rcases turn with turn | read
    · rw [task] at at_
      have before := after_dequeued at_
      rw [turn, spared r (.inr ⟨t, before⟩)]
      exact inv.typed t r before
    · exact absurd at_ (read r)

end Lending

/-- What WSARecv and WSASend do. -/
inductive PostResult (s : Server.Shared) (c : Client) (r : Record) :
    Server.Shared × Option Nat → Prop where
  | refused (err : Nat) : PostResult s c r (s, some err)
  | accepted (socket : Sock) :
    PostResult s c r ({ s with pending := ⟨r, socket, c, s.connection c⟩ :: s.pending }, none)

omit [DecidableEq T] in
theorem perform_post (s : Server.Shared) (choice : Choice) (c : Client) (d : Direction)
    (r : Record) : PostResult s c r (s.perform choice (.post c d r)) := by
  simp only [Server.Shared.perform]
  split
  · exact .refused _
  · split
    · exact .refused _
    · split
      · exact .refused _
      · exact .accepted _

namespace Lending

/-- What is passed is the block that the call knows. -/
theorem pass (inv : Lending s own) (accounts : Accounts s.server (tasks own)) {d : Direction}
    {socket : Sock} (allowed : Allowed s.server (tasks own) t (.post c d r) choice)
    (needs : Needs (own t) (.op (.post c d r)))
    (result : s.server.perform choice (.post c d r) =
      ({ s.server with
        pending := ⟨r, socket, c, s.server.connection c⟩ :: s.server.pending }, none))
    (server : s'.server = { s.server with
      pending := ⟨r, socket, c, s.server.connection c⟩ :: s.server.pending })
    (contents : s'.contents = s.contents)
    (passed : s'.passed = Function.update s.passed r (s.buffer d r))
    (task : l.task = (own t).task.after (.post c d r) none) (data : l.data = .unknown) :
    Lending s' (Function.update own t l) := by
  obtain ⟨data_, hold, blocks, fits⟩ := needs
  have here : s.server.records r = data_ := (accounts.fields.agrees t).building r data_ hold
  have unpending : ∀ p ∈ s.server.pending, p.record ≠ r :=
    accounts.records.unpending (.inl ⟨data_, hold⟩)
  have after := allowed.accounts accounts
  rw [result] at after
  apply inv.next
  · rw [tasks_update, task, server]
    exact after.1
  · exact fun r _ => by rw [server]
  · intro p inside
    rw [server] at inside
    rcases List.mem_cons.mp inside with rfl | before
    · left
      have same : s'.passed r = s.buffer d r := by rw [passed, Function.update_self]
      have records : s'.server.records r = data_ := by rw [server]; exact here
      constructor
      · rw [records, same, Shared.buffer, here]
      · rw [records, same]
        exact (allowed.owns r data_ hold).1
      · rw [same, contents]
        rfl
      · rw [same]
        simp only [Shared.buffer, here]
        rintro rfl
        obtain ⟨-, zeros, length⟩ := fits
        obtain ⟨b, has, holds⟩ := inv.knows t (by simp [zeros])
        rw [blocks, List.singleton_inj] at has
        rw [zeros] at holds
        rw [length, has]
        exact ⟨rfl, holds⟩
    · right
      exact ⟨before, by rw [passed, Function.update_of_ne (unpending p before)]⟩
  · exact fun b _ => congrFun contents b
  · exact fun known => absurd data known
  · intro r' at_
    rw [task] at at_
    have hold' : (own t).task.hold = .dequeued r' := after_dequeued at_
    rw [hold] at hold'
    cases hold'

omit [DecidableEq T] in
theorem types (inv : Lending s own) {o : Server.Op} {choice : Choice}
    (allowed : Allowed s.server (tasks own) t o choice) :
    Types (own t) o (s.server.perform choice o).2 := by
  cases o with
  | operType r => exact inv.typed t r allowed.needs
  | _ => trivial

/-- WSARecv or WSASend. -/
theorem post (inv : Lending s own) (accounts : Accounts s.server (tasks own)) {d : Direction}
    {choice : Choice} {server : Server.Shared} {error : Option Nat}
    (allowed : Allowed s.server (tasks own) t (.post c d r) choice)
    (needs : Needs (own t) (.op (.post c d r)))
    (result : s.server.perform choice (.post c d r) = (server, error)) :
    Lending ({ s with server }.note
        { own t with task := (own t).task.after (.post c d r) error } (.post c d r) error).1
      (Function.update own t ({ s with server }.note
        { own t with task := (own t).task.after (.post c d r) error } (.post c d r) error).2) := by
  have cases_ := perform_post s.server choice c d r
  rw [result] at cases_
  cases cases_ with
  | refused err =>
    cases d with
    | recv =>
      refine inv.still accounts allowed result rfl ⟨rfl, rfl, rfl⟩ rfl ?_ (.inl rfl)
      exact fun known => inv.knows t known
    | send =>
      exact inv.still accounts allowed result rfl ⟨rfl, rfl, rfl⟩ rfl (absurd rfl) (.inl rfl)
  | accepted socket =>
    cases d with
    | recv => exact inv.pass accounts allowed needs result rfl rfl rfl rfl rfl
    | send => exact inv.pass accounts allowed needs result rfl rfl rfl rfl rfl

/-- An operation of the server. -/
theorem perform (inv : Lending s own) (accounts : Accounts s.server (tasks own)) {o : Server.Op}
    {choice : Choice} {server : Server.Shared} {res : Server.Res o}
    (allowed : Allowed s.server (tasks own) t o choice) (needs : Needs (own t) (.op o))
    (result : s.server.perform choice o = (server, res)) :
    Lending ({ s with server }.note { own t with task := (own t).task.after o res } o res).1
      (Function.update own t
        ({ s with server }.note { own t with task := (own t).task.after o res } o res).2) := by
  have pending (other : ∀ c d r, o ≠ .post c d r) : server.pending = s.server.pending := by
    have same := perform_pending (s := s.server) choice other
    rwa [result] at same
  by_cases quiet : Quiet o
  · rw [note_quiet quiet]
    refine inv.still accounts allowed result (pending ?_) ⟨rfl, rfl, rfl⟩ rfl ?_ (.inl rfl)
    · rintro c d r rfl
      exact quiet
    · intro known
      obtain ⟨b, has, holds⟩ := inv.knows t known
      exact ⟨b, (after_quiet quiet _ _).trans has, holds⟩
  · cases o with
    | post c d r => exact inv.post accounts allowed needs result
    | getMemBlock =>
      exact inv.still accounts allowed result (pending (by simp)) ⟨rfl, rfl, rfl⟩ rfl (absurd rfl)
        (.inl rfl)
    | releaseMemBlock b =>
      exact inv.still accounts allowed result (pending (by simp)) ⟨rfl, rfl, rfl⟩ rfl (absurd rfl)
        (.inl rfl)
    | getFreeClient =>
      refine inv.still accounts allowed result (pending (by simp)) ⟨rfl, rfl, rfl⟩ rfl
        (fun known => inv.knows t known) (.inr ?_)
      intro r at_
      cases needs.1.symm.trans at_
    | _ => exact absurd trivial quiet

/-- The consumer writes to its block. -/
theorem write (inv : Lending s own) (accounts : Accounts s.server (tasks own))
    {f : (Nat → Byte) → Nat → Byte} {data : Data} (has : (own t).task.blocks = [b])
    (holds : data.Holds (f (s.contents b))) :
    Lending (s.write b f) (Function.update own t { own t with data }) := by
  apply inv.next
  · have same : Function.update (tasks own) t (own t).task = tasks own :=
      Function.update_eq_self t (tasks own)
    rw [tasks_update, same]
    exact accounts
  · exact fun _ _ => rfl
  · exact fun p inside => .inr ⟨inside, rfl⟩
  · intro b' other
    have apart : b' ≠ b := by
      rintro rfl
      exact other (has ▸ List.mem_singleton_self b')
    exact Function.update_of_ne apart _ _
  · exact fun _ => ⟨b, has, by simpa [Shared.write] using holds⟩
  · exact inv.typed t

theorem step (inv : Lending s own) (accounts : Accounts s.server (tasks own)) {op : Op}
    {choice : Choice} {res : Res op} (needs : Needs (own t) op)
    (allowed : ∀ o, op = .op o → Allowed s.server (tasks own) t o choice)
    (performed : Contents.step s (own t) op choice = some (s', l, res)) :
    Lending s' (Function.update own t l) ∧ Gives (own t) op res l := by
  cases op with
  | op o =>
    obtain ⟨rfl, rfl, rfl⟩ := step_op performed
    have now := allowed o rfl
    exact ⟨inv.perform accounts now needs rfl, ⟨_, rfl⟩, (now.accounts accounts).2, inv.types now⟩
  | memset b =>
    cases performed
    have zeros := Cells.read_write (s.contents b) 0 (List.replicate 4096 (0 : Byte))
    rw [List.length_replicate] at zeros
    exact ⟨inv.write accounts needs.1 (show Data.zeros.Holds _ from zeros), rfl⟩
  | strcat_s b text =>
    obtain ⟨has, rfl, piece, data⟩ := needs
    obtain ⟨b', has', holds⟩ := inv.knows t (by simp [data])
    obtain rfl : b = b' := List.singleton_inj.mp (has.symm.trans has')
    rw [data] at holds
    obtain ⟨memory, done, answer⟩ := strcat_s_holds holds
    simp only [Contents.step, done, data, Option.map_some, Option.some.injEq, Prod.mk.injEq]
      at performed
    obtain ⟨rfl, rfl, -⟩ := performed
    exact ⟨inv.write accounts has answer, piece, data, rfl⟩

end Lending

omit [DecidableEq T] in
/-- A payload goes in front of what was in the block. -/
theorem read_delivered {block : Nat → Byte} {payload : List Byte} (fits : payload.length ≤ 4096)
    (before : Cells.read block 0 4096 = List.replicate 4096 0) :
    Cells.read (Cells.write block 0 payload) 0 4096 =
      payload ++ List.replicate (4096 - payload.length) 0 := by
  obtain ⟨rest, size⟩ : ∃ rest, 4096 = payload.length + rest :=
    ⟨4096 - payload.length, by omega⟩
  have behind : Cells.read block payload.length rest = List.replicate rest 0 := by
    rw [read_drop, ← size, before, List.drop_replicate, size, Nat.add_sub_cancel_left]
  rw [size, Cells.read_add, Cells.read_write, Nat.add_sub_cancel_left,
    Cells.read_write_apart (.inr (by omega)), Nat.zero_add, behind]

/-- What an event leaves that brings no completion. -/
structure Calm (s s' : Server.Shared) (task : Task) : Prop where
  records : s'.records = s.records
  pending : s'.pending = s.pending
  connection : s'.connection = s.connection
  done : Done True task

omit [DecidableEq T] in
/-- An accepted socket or a client to be closed. -/
theorem calm_of_enter {s s' : Server.Shared} {e : Server.Event} {task : Task}
    {p : Server.Call Unit} (entered : Server.enter s e = some (s', task, p))
    (other : ∀ posted lasterr transferred, e ≠ .dequeue posted lasterr transferred) :
    Calm s s' task ∧ (handle s e).Follows discipline { task } fun _ => Finished := by
  cases e with
  | accept invalid =>
    cases invalid
    all_goals
      cases entered
      exact ⟨⟨rfl, rfl, rfl, rfl, fun _ => rfl⟩, acceptThread_follows _ ⟨⟨rfl, fun _ => rfl⟩, rfl⟩⟩
  | dequeue posted lasterr transferred => exact absurd rfl (other posted lasterr transferred)
  | closeClient c =>
    simp only [Server.enter, Option.ite_none_right_eq_some, Option.some.injEq, Prod.mk.injEq]
      at entered
    obtain ⟨-, rfl, rfl, -⟩ := entered
    refine ⟨⟨rfl, rfl, rfl, rfl, fun _ => rfl⟩, Follows.bind ?_⟩
    exact (closeClient_keeps c).mono fun _ l keeps => keeps.finished ⟨⟨rfl, fun _ => rfl⟩, rfl⟩

omit [DecidableEq T] in
/-- A completion has the key of its socket. -/
theorem dequeue_enter {s s' : Server.Shared} {own : T → Task} (keyed : Keyed s own)
    {posted : Posted} {lasterr : Option (BitVec 32)} {transferred : BitVec 32} {task : Task}
    {p : Server.Call Unit}
    (entered : Server.enter s (.dequeue posted lasterr transferred) = some (s', task, p)) :
    posted ∈ s.pending ∧ s.key posted.socket = some posted.client ∧
      s' = { s with pending := s.pending.erase posted } ∧
      task = { hold := .dequeued posted.record
               blocks := [(s.records posted.record).buf]
               completion := some posted
               client := some posted.client } := by
  simp only [Server.enter] at entered
  split at entered
  · contradiction
  rename_i c key
  split at entered
  · rename_i delivered
    cases entered
    have same : posted.client = c := by
      rcases (keyed.posted posted delivered.1).key with none | some
      · rw [none] at key
        cases key
      · exact Option.some.inj (some.symm.trans key)
    subst same
    exact ⟨delivered.1, key, rfl, rfl⟩
  · contradiction

/-- The call of WorkThread can answer what its completion has brought. -/
theorem completed_follows {s : Shared} {posted : Posted} {lasterr : Option (BitVec 32)}
    {transferred : BitVec 32} {payload : List Byte} (task : Task)
    (brings : Brings (s.passed posted.record) lasterr transferred payload)
    (short : payload.length + 14 ≤ 4096) :
    (workThread lasterr posted.client posted.record transferred).Follows discipline
      (s.complete posted lasterr payload task).2 fun _ => Finished := by
  simp only [Brings] at brings
  simp only [Shared.complete]
  split at brings
  · dsimp only
    apply workThread_follows
    · rintro x ⟨⟩
      rfl
    · simp only [Completed, brought]
      split
      · rename_i success
        exact .inl ⟨payload, rfl, rfl, success.1, (brings.2 success.1).symm, success.2, short⟩
      · rename_i nothing
        refine .inr ⟨rfl, fun _ success => ?_⟩
        have none : payload = [] := by
          by_contra some_
          exact nothing ⟨success, some_⟩
        have length := brings.2 success
        rw [none] at length
        exact BitVec.eq_of_toNat_eq length.symm
  · dsimp only
    apply workThread_follows
    · rintro x ⟨⟩
    · exact .inr ⟨rfl, fun reading => by simp at reading⟩

namespace Lending

theorem calm (inv : Lending s own) {server : Server.Shared} {task : Task}
    (accounts : Accounts server (Function.update (tasks own) t task))
    (calm : Calm s.server server task) :
    Lending { s with server } (Function.update own t { task }) := by
  apply inv.next
  · rw [tasks_update]
    exact accounts
  · exact fun r _ => congrFun calm.records r
  · exact fun p inside => .inr ⟨calm.pending ▸ inside, rfl⟩
  · exact fun b _ => rfl
  · exact absurd rfl
  · intro r at_
    cases calm.done.1.symm.trans at_

theorem complete (inv : Lending s own) {server : Server.Shared} {task : Task} {posted : Posted}
    {lasterr : Option (BitVec 32)} {payload : List Byte}
    (accounts : Accounts server (Function.update (tasks own) t task))
    (pending : posted ∈ s.server.pending)
    (server_ : server = { s.server with pending := s.server.pending.erase posted })
    (hold : task.hold = .dequeued posted.record)
    (blocks : task.blocks = [(s.server.records posted.record).buf])
    (short : payload.length + 14 ≤ 4096) :
    Lending ({ s with server }.complete posted lasterr payload task).1
      (Function.update own t ({ s with server }.complete posted lasterr payload task).2) := by
  subst server_
  obtain ⟨buf, type, bytes, zeros⟩ := inv.lent posted pending
  have others (p : Posted) (left : p ∈ s.server.pending.erase posted) : p ∈ s.server.pending :=
    List.mem_of_mem_erase left
  have read (r : Record) (at_ : task.hold = .dequeued r) : r = posted.record := by
    rw [hold] at at_
    cases at_
    rfl
  simp only [Shared.complete]
  cases direction : (s.passed posted.record).direction with
  | recv =>
    rw [direction] at type
    rw [(zeros direction).1, (zeros direction).2, show (4096 : BitVec 32).toNat = 4096 from rfl]
      at bytes
    have fits : payload.length ≤ 4096 := by omega
    have delivered := read_delivered fits bytes
    dsimp only
    suffices Lending (({ s with server :=
        { s.server with pending := s.server.pending.erase posted } } : Shared).write
          (s.passed posted.record).buf (Cells.write · 0 payload)) (Function.update own t
            { task, turn := some ⟨posted.client, posted.connection⟩,
              data := brought lasterr payload }) by
      split
      · exact this.congr rfl rfl rfl
      · exact this
    apply inv.next
    · rw [tasks_update]
      exact accounts
    · exact fun _ _ => rfl
    · exact fun p left => .inr ⟨others p left, rfl⟩
    · intro b outside
      refine Function.update_of_ne ?_ _ _
      rintro rfl
      rw [blocks, buf] at outside
      exact outside (List.mem_singleton_self _)
    · intro known
      refine ⟨(s.passed posted.record).buf, buf ▸ blocks, ?_⟩
      simp only [brought] at known ⊢
      split at known
      · rename_i success
        rw [if_pos success]
        refine ⟨short, ?_⟩
        simpa [Shared.write] using delivered
      · exact absurd rfl known
    · intro r at_
      rw [read r at_]
      exact type
  | send =>
    rw [direction] at type
    dsimp only
    apply inv.next
    · rw [tasks_update]
      exact accounts
    · exact fun _ _ => rfl
    · exact fun p left => .inr ⟨others p left, rfl⟩
    · exact fun _ _ => rfl
    · exact absurd rfl
    · intro r at_
      rw [read r at_]
      exact type

theorem enter (inv : Lending s own) (accounts : Accounts s.server (tasks own))
    (keyed : Keyed s.server (tasks own)) (idle : Finished (own t)) {e : Event} {p : Call Unit}
    (short : e.payload.length + 14 ≤ 4096) (entered : Contents.enter s e = some (s', l, p)) :
    Lending s' (Function.update own t l) ∧ p.Follows discipline l fun _ => Finished := by
  have after {e : Server.Event} {server : Server.Shared} {task : Task} {p : Server.Call Unit}
      (entered : Server.enter s.server e = some (server, task, p)) :
      Accounts server (Function.update (tasks own) t task) := by
    obtain ⟨banked, fields⟩ := accounts.enter (t := t) idle.1 entered
    exact ⟨accounts.records.enter (e := .inl e) idle.1.1 entered, banked, fields⟩
  cases enter_cases entered with
  | other enters other =>
    obtain ⟨calm, follows⟩ := calm_of_enter enters other
    exact ⟨inv.calm (after enters) calm, follows⟩
  | completed enters brings =>
    obtain ⟨pending, key, server, rfl⟩ := dequeue_enter keyed enters
    refine ⟨inv.complete (after enters) pending server rfl rfl short, ?_⟩
    simp only [handle, key]
    exact completed_follows _ brings short

end Lending

end TestIOCP.Server.Contents
