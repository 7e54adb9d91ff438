import TestIOCP.Server.Lending

/-! The answers of the echo server. A connection has one read at a time: the turn to post
the next one is with one call or with the read that is pending, so that its pieces are
answered one after the other. -/
namespace TestIOCP.Server.Contents
open Transition Program CString
open Notices (Connection)

variable {T : Type} {s s' : Shared} {own : T → Local} {t : T} {l : Local} {c : Client}
  {r : Record} {x : Connection}

/-- No call works on the stub and no operation on it is pending. -/
def Unused (s : Config T Shared Local Op Res) (c : Client) : Prop :=
  (∀ p ∈ s.shared.server.pending, p.client ≠ c) ∧
    ∀ u, s.code u ≠ .ret () → (s.own u).task.client ≠ some c ∧
      ∀ p ∈ (s.own u).task.completion, p.client ≠ c

/-- The answer to a piece fits in its block, records are used as in Server.Blocks, and
GetFreeClient hands out unused stubs only. -/
def Careful (s : Config T Shared Local Op Res) : Label T Choice Event → Prop
  | .enter _ e => e.payload.length + 14 ≤ 4096
  | .step t choice =>
    match s.code t with
    | .call (.op o) _ => Prompt s.shared.server (tasks s.own) t o choice ∧
      (o = .getFreeClient → Unused s (s.shared.server.m_FreeClientList.take 1000).1)
    | _ => True

/-- What the server ensures without looking at the contents. -/
structure Held (s : Config T Shared Local Op Res) : Prop where
  accounts : Accounts s.shared.server (tasks s.own)
  apart : Apart (Semantics.erase Shared.server Local.task erased s)
  follows : ∀ t, ((s.code t).translate erased).Follows (Server.discipline True) (s.own t).task
    fun _ => Done True
  works : ∀ t, ((s.code t).translate erased).Follows clientDiscipline (s.own t).task
    fun _ => Task.Empty

variable [DecidableEq T]

theorem accounts_of_run {s : Config T Server.Shared Task Server.Op Server.Res}
    (run : (Server.system T).ReachableUnder (Semantics.Guarded Prompt) s) :
    Accounts s.shared s.own ∧
      ∀ t, (s.code t).Follows (Server.discipline True) (s.own t) fun _ => Done True := by
  have resting : Done True {} := ⟨rfl, fun _ => rfl⟩
  refine Semantics.follows_of_run (I := Accounts) (Server.discipline True) resting ?_ ?_ ?_ run
  · exact fun s initial => initial.accounts
  · intro s own t e s' l p inv done entered
    obtain ⟨banked, fields⟩ := inv.enter done entered
    exact ⟨⟨inv.records.enter (e := .inl e) done.1 entered, banked, fields⟩,
      Server.enter_follows entered⟩
  · intro s own t op choice s' l r inv needs prompt performed
    simp only [Server.semantics, Server.step, Option.some.injEq, Prod.mk.injEq] at performed
    obtain ⟨rfl, rfl, rfl⟩ := performed
    obtain ⟨⟨banked, fields⟩, reads⟩ := inv.step needs.1 (needs.2 trivial) prompt
    exact ⟨⟨inv.records.step needs.1 prompt.1, banked, fields⟩, rfl, fun _ => reads⟩

theorem apart_of_run {s : Config T Server.Shared Task Server.Op Server.Res}
    (run : (systemAny T).ReachableUnder Reusable s) : Apart s ∧
      ∀ t, (s.code t).Follows clientDiscipline (s.own t) fun _ => Task.Empty := by
  have resting : Task.Empty {} := ⟨rfl, rfl⟩
  refine Semantics.invariant_of_run (I := Apart) clientDiscipline resting ?_ ?_ ?_ run
  · rintro s ⟨initial, idle⟩
    have own : s.own = fun _ => {} := funext fun t => (idle t).1
    refine ⟨own ▸ initial.partition, own ▸ initial.keyed, ?_, ?_⟩
    · simp [initial.pending]
    · exact fun t _ busy => absurd (idle t).2 busy
  · exact fun s t e s' l p inv empty entered => ⟨inv.enter empty entered, enterAny_works entered⟩
  · intro s t op rest choice s' l r inv _ code reusable performed tends
    simp only [semanticsAny, Server.step, Option.some.injEq, Prod.mk.injEq] at performed
    obtain ⟨rfl, rfl, rfl⟩ := performed
    exact ⟨inv.step code reusable tends, rfl⟩

omit [DecidableEq T] in
/-- An operation of the server is what is left of it. -/
theorem erase_code {s : Config T Shared Local Op Res} {o : Server.Op}
    {rest : Res (.op o) → Call Unit} (at_ : s.code t = .call (.op o) rest) :
    (Semantics.erase Shared.server Local.task erased s).code t =
      .call o fun r => (rest r).translate erased := by
  simp [Semantics.erase, at_, erased, Program.perform]

theorem prompt_of_careful {s : Config T Shared Local Op Res}
    (run : (system T).ReachableUnder Careful s) :
    (Server.system T).ReachableUnder (Semantics.Guarded Prompt)
      (Semantics.erase Shared.server Local.task erased s) := by
  refine erases.reachableUnder (fun s first => first.server) rfl (fun _ _ _ => trivial) ?_ run
  intro s t choice choice' op rest o rest' code left careful
  cases op with
  | op o =>
    simp only [Careful, code] at careful
    simp only [Semantics.Guarded, erase_code code]
    cases o <;> exact careful.1
  | memset b => cases left
  | strcat_s b text => cases left

theorem reusable_of_careful {s : Config T Shared Local Op Res}
    (run : (system T).ReachableUnder Careful s) :
    (systemAny T).ReachableUnder Reusable (Semantics.erase Shared.server Local.task erased s) := by
  refine erases_any.reachableUnder (fun s first => first.server) rfl (fun _ _ _ => trivial) ?_ run
  intro s t choice choice' op rest o rest' code left careful
  cases op with
  | op o =>
    simp only [Careful, code] at careful
    simp only [Reusable, erase_code code]
    cases o <;> try trivial
    obtain ⟨pending, calls⟩ := careful.2 rfl
    refine ⟨pending, fun u busy => (calls u fun idle => busy ?_).2⟩
    simp [Semantics.erase, idle]
  | memset b => cases left
  | strcat_s b text => cases left

theorem held_of_run {s : Config T Shared Local Op Res}
    (run : (system T).ReachableUnder Careful s) : Held s := by
  obtain ⟨accounts, follows⟩ := accounts_of_run (prompt_of_careful run)
  obtain ⟨apart, works⟩ := apart_of_run (reusable_of_careful run)
  exact ⟨accounts, apart, follows, works⟩

/-! ### Turns -/

/-- Who has the turn of a connection. -/
inductive Holder (T : Type) where
  | call (t : T)
  | posted (p : Posted)

/-- The connection of an operation. -/
def stream (p : Posted) : Connection :=
  ⟨p.client, p.connection⟩

def TurnAt (s : Shared) (own : T → Local) : Holder T → Connection → Prop
  | .call t, x => (own t).turn = some x
  | .posted p, x => p ∈ s.server.pending ∧ (s.passed p.record).direction = .recv ∧ stream p = x

/-- A turn is in one place, and a call that has one works for the connection that its stub
serves. -/
structure Turns (s : Config T Shared Local Op Res) : Prop where
  once : ∀ a b x, TurnAt s.shared s.own a x → TurnAt s.shared s.own b x → a = b
  client : ∀ t x, (s.own t).turn = some x → (s.own t).task.client = some x.client
  bound : ∀ t x, (s.own t).turn = some x → x.number ≤ s.shared.server.connection x.client
  current : ∀ t x, s.code t ≠ .ret () → (s.own t).turn = some x → x = s.shared.current x.client

omit [DecidableEq T] in
/-- One turn goes from where it was, or from nowhere, to one place. -/
theorem once_of_gain (b₀ : Holder T) (x₀ : Connection) {own' : T → Local}
    (once : ∀ a b x, TurnAt s own a x → TurnAt s own b x → a = b)
    (gain : ∀ a x, TurnAt s' own' a x → a = b₀ ∧ x = x₀ ∨ TurnAt s own a x ∧ x ≠ x₀) :
    ∀ a b x, TurnAt s' own' a x → TurnAt s' own' b x → a = b := by
  intro a b x at_ at_'
  rcases gain a x at_ with ⟨rfl, rfl⟩ | ⟨before, other⟩
  · rcases gain b x at_' with ⟨rfl, -⟩ | ⟨-, other⟩
    · rfl
    · exact absurd rfl other
  · rcases gain b x at_' with ⟨-, rfl⟩ | ⟨before', -⟩
    · exact absurd rfl other
    · exact once a b x before before'

namespace Turns
variable {s : Config T Shared Local Op Res} {p : Call Unit}

/-- A step of one call. -/
theorem next (inv : Turns s)
    (once : ∀ a b x, TurnAt s' (Function.update s.own t l) a x →
      TurnAt s' (Function.update s.own t l) b x → a = b)
    (client : ∀ x, l.turn = some x → l.task.client = some x.client ∧ x = s'.current x.client)
    (grown : ∀ c, s.shared.server.connection c ≤ s'.server.connection c)
    (others : ∀ u x, u ≠ t → s.code u ≠ .ret () → (s.own u).turn = some x →
      s'.server.connection x.client = s.shared.server.connection x.client) :
    Turns ⟨s', Function.update s.own t l, Function.update s.code t p⟩ := by
  refine ⟨once, ?_, ?_, ?_⟩
  · intro u x has
    by_cases same : u = t
    · subst same
      simp only [Function.update_self] at has ⊢
      exact (client x has).1
    · simp only [Function.update_of_ne same] at has ⊢
      exact inv.client u x has
  · intro u x has
    by_cases same : u = t
    · subst same
      simp only [Function.update_self] at has
      exact (congrArg Connection.number (client x has).2).le
    · simp only [Function.update_of_ne same] at has
      exact (inv.bound u x has).trans (grown x.client)
  · intro u x running has
    by_cases same : u = t
    · subst same
      simp only [Function.update_self] at has
      exact (client x has).2
    · simp only [Function.update_of_ne same] at has running
      have current := inv.current u x running has
      simp only [Shared.current, others u x same running has]
      exact current

/-- A step that moves no turn. -/
theorem keep (inv : Turns s) (reads : ∀ q ∈ s'.server.pending,
      (s'.passed q.record).direction = .recv →
        q ∈ s.shared.server.pending ∧ (s.shared.passed q.record).direction = .recv)
    (connection : s'.server.connection = s.shared.server.connection)
    (turn : l.turn = none ∨ l.turn = (s.own t).turn ∧ l.task.client = (s.own t).task.client ∧
      s.code t ≠ .ret ()) :
    Turns ⟨s', Function.update s.own t l, Function.update s.code t p⟩ := by
  have before (a : Holder T) (x : Connection) (at_ : TurnAt s' (Function.update s.own t l) a x) :
      TurnAt s.shared s.own a x := by
    cases a with
    | call u =>
      by_cases same : u = t
      · subst same
        simp only [TurnAt, Function.update_self] at at_ ⊢
        rcases turn with none | ⟨turn, -⟩
        · rw [none] at at_
          cases at_
        · exact turn ▸ at_
      · simpa [TurnAt, same] using at_
    | posted q =>
      obtain ⟨inside, recv, same⟩ := at_
      obtain ⟨inside, recv⟩ := reads q inside recv
      exact ⟨inside, recv, same⟩
  apply inv.next
  · exact fun a b x at_ at_' => inv.once a b x (before a x at_) (before b x at_')
  · intro x has
    rcases turn with none | ⟨turn, client, running⟩
    · rw [none] at has
      cases has
    · rw [turn] at has
      refine ⟨client.trans (inv.client t x has), ?_⟩
      simp only [Shared.current, connection]
      exact inv.current t x running has
  · exact fun c => (congrFun connection c).ge
  · exact fun u x _ _ _ => congrFun connection x.client

/-- A read is accepted: the turn is with it. -/
theorem pass (inv : Turns s) {q : Posted} (has : (s.own t).turn = some (stream q))
    (reads : ∀ p ∈ s'.server.pending, p = q ∨ p ∈ s.shared.server.pending ∧
      s'.passed p.record = s.shared.passed p.record)
    (connection : s'.server.connection = s.shared.server.connection) (none : l.turn = none) :
    Turns ⟨s', Function.update s.own t l, Function.update s.code t p⟩ := by
  apply inv.next
  · apply once_of_gain (.posted q) (stream q) inv.once
    intro a x at_
    cases a with
    | call u =>
      right
      have other : u ≠ t := by
        rintro rfl
        simp [TurnAt, none] at at_
      have before : TurnAt s.shared s.own (.call u) x := by simpa [TurnAt, other] using at_
      refine ⟨before, ?_⟩
      rintro rfl
      have same := inv.once (.call u) (.call t) _ before has
      exact other (Holder.call.inj same)
    | posted p =>
      obtain ⟨inside, recv, rfl⟩ := at_
      rcases reads p inside with rfl | ⟨before, passed⟩
      · exact .inl ⟨rfl, rfl⟩
      · right
        have at_ : TurnAt s.shared s.own (.posted p) (stream p) := ⟨before, passed ▸ recv, rfl⟩
        refine ⟨at_, fun same => ?_⟩
        have twice := inv.once (.posted p) (.call t) _ at_ (has.trans (congrArg some same.symm))
        cases twice
  · intro x has
    rw [none] at has
    cases has
  · exact fun c => (congrFun connection c).ge
  · exact fun u x _ _ _ => congrFun connection x.client

/-- GetFreeClient begins a connection. -/
theorem start (inv : Turns s) (unused : Unused s c)
    (server : s'.server.pending = s.shared.server.pending) (passed : s'.passed = s.shared.passed)
    (connection : s'.server.connection = Function.update s.shared.server.connection c
      (s.shared.server.connection c + 1))
    (turn : l.turn = some (s'.current c)) (client : l.task.client = some c) :
    Turns ⟨s', Function.update s.own t l, Function.update s.code t p⟩ := by
  have number : (s'.current c).number = s.shared.server.connection c + 1 := by
    simp [Shared.current, connection]
  apply inv.next
  · apply once_of_gain (.call t) (s'.current c) inv.once
    intro a x at_
    cases a with
    | call u =>
      by_cases same : u = t
      · subst same
        simp only [TurnAt, Function.update_self, turn, Option.some.injEq] at at_
        exact .inl ⟨rfl, at_.symm⟩
      · right
        have before : (s.own u).turn = some x := by simpa [TurnAt, same] using at_
        refine ⟨before, ?_⟩
        rintro rfl
        have bound := inv.bound u _ before
        rw [number] at bound
        exact Nat.not_succ_le_self _ bound
    | posted q =>
      right
      obtain ⟨inside, recv, rfl⟩ := at_
      rw [server] at inside
      refine ⟨⟨inside, passed ▸ recv, rfl⟩, fun same => ?_⟩
      have client : q.client = c := congrArg Connection.client same
      exact unused.1 q inside client
  · intro x has
    rw [turn] at has
    cases has
    exact ⟨client, rfl⟩
  · intro d
    rw [connection]
    by_cases same : d = c
    · subst same
      simp
    · simp [same]
  · intro u x other running has
    have apart : x.client ≠ c := by
      rintro rfl
      exact (unused.2 u running).1 (inv.client u x has)
    rw [connection, Function.update_of_ne apart]

/-- A read is dequeued: the turn is with the call. -/
theorem dequeue (inv : Turns s) {q : Posted} (nodup : s.shared.server.pending.Nodup)
    (inside : q ∈ s.shared.server.pending) (recv : (s.shared.passed q.record).direction = .recv)
    (pending : s'.server.pending = s.shared.server.pending.erase q)
    (passed : s'.passed = s.shared.passed)
    (connection : s'.server.connection = s.shared.server.connection)
    (current : q.connection = s.shared.server.connection q.client)
    (turn : l.turn = some (stream q)) (client : l.task.client = some q.client) :
    Turns ⟨s', Function.update s.own t l, Function.update s.code t p⟩ := by
  have here : TurnAt s.shared s.own (.posted q) (stream q) := ⟨inside, recv, rfl⟩
  apply inv.next
  · apply once_of_gain (.call t) (stream q) inv.once
    intro a x at_
    cases a with
    | call u =>
      by_cases same : u = t
      · subst same
        simp only [TurnAt, Function.update_self, turn, Option.some.injEq] at at_
        exact .inl ⟨rfl, at_.symm⟩
      · right
        have before : TurnAt s.shared s.own (.call u) x := by simpa [TurnAt, same] using at_
        refine ⟨before, ?_⟩
        rintro rfl
        cases inv.once _ _ _ before here
    | posted p =>
      right
      obtain ⟨left, recv, rfl⟩ := at_
      rw [pending, nodup.mem_erase_iff] at left
      have before : TurnAt s.shared s.own (.posted p) (stream p) := ⟨left.2, passed ▸ recv, rfl⟩
      refine ⟨before, fun same => left.1 ?_⟩
      exact Holder.posted.inj (inv.once _ _ _ before (same ▸ here))
  · intro x has
    rw [turn] at has
    cases has
    refine ⟨client, ?_⟩
    simp only [stream, Shared.current, connection, current]
  · exact fun c => (congrFun connection c).ge
  · exact fun u x _ _ _ => congrFun connection x.client

end Turns

/-! ### Streams -/

/-- The piece of a connection that a call has still to answer. -/
def Local.due (l : Local) (x : Connection) : Option (List Byte) :=
  if l.turn = some x then l.data.due else none

/-- What of a stream has arrived and is not answered. -/
inductive Due (own : T → Local) (x : Connection) : List (List Byte) → Prop where
  | nothing : (∀ t, (own t).due x = none) → Due own x []
  | piece (t : T) : (own t).due x = some piece → Due own x [piece]

/-- What was passed to WSASend for a connection are the answers to its pieces, in their
order and each of them once; none is missing unless a WSASend was refused. -/
def Answered (s : Shared) (x : Connection) (answered : List (List Byte)) : Prop :=
  (s.sent x).Sublist (answered.map echo) ∧
    (s.refused x = false → s.sent x = answered.map echo)

def Stream (s : Shared) (own : T → Local) (x : Connection) : Prop :=
  ∃ answered due, s.arrived x = answered ++ due ∧ Due own x due ∧ Answered s x answered

omit [DecidableEq T] in
theorem Local.due_eq_none {l : Local} (none : l.data.due = none) (x : Connection) :
    l.due x = Option.none := by
  rw [Local.due, none, ite_self]

omit [DecidableEq T] in
theorem Local.turn_of_due {l : Local} {piece : List Byte} (due : l.due x = some piece) :
    l.turn = some x ∧ l.data.due = some piece := by
  rw [Local.due, Option.ite_none_right_eq_some] at due
  exact due

theorem Due.congr {due : List (List Byte)} (had : Due own x due) (same : l.due x = (own t).due x) :
    Due (Function.update own t l) x due := by
  have all (u : T) : (Function.update own t l u).due x = (own u).due x := by
    by_cases at_ : u = t
    · subst at_
      simpa using same
    · simp [at_]
  cases had with
  | nothing none => exact .nothing fun u => (all u).trans (none u)
  | piece u has => exact .piece u ((all u).trans has)

namespace Stream

/-- A step that has nothing to do with a stream. -/
theorem congr (inv : Stream s own x) (same : l.due x = (own t).due x)
    (streams : s'.arrived x = s.arrived x ∧ s'.sent x = s.sent x ∧ s'.refused x = s.refused x) :
    Stream s' (Function.update own t l) x := by
  obtain ⟨answered, due, arrived, had, sent⟩ := inv
  refine ⟨answered, due, streams.1.trans arrived, had.congr same, ?_⟩
  rw [Answered, streams.2.1, streams.2.2]
  exact sent

/-- A connection brings a piece when it has none to be answered. -/
theorem arrive (inv : Stream s own x) (piece : List Byte) (none : ∀ u, (own u).due x = none)
    (due : l.due x = some piece)
    (streams : s'.arrived x = s.arrived x ++ [piece] ∧ s'.sent x = s.sent x ∧
      s'.refused x = s.refused x) : Stream s' (Function.update own t l) x := by
  obtain ⟨answered, due_, arrived, had, sent⟩ := inv
  cases had with
  | piece u has => cases (none u).symm.trans has
  | nothing =>
    refine ⟨answered, [piece], ?_, .piece t (by simpa using due), ?_⟩
    · rw [streams.1, arrived, List.append_nil]
    · rw [Answered, streams.2.1, streams.2.2]
      exact sent

/-- The piece that a call has is answered, or its WSASend is refused. -/
theorem settle (inv : Stream s own x) {piece : List Byte} (had : (own t).due x = some piece)
    (once : ∀ u, (own u).turn = some x → u = t) (none : l.due x = none)
    (arrived : s'.arrived x = s.arrived x)
    (settled : s'.sent x = s.sent x ++ [echo piece] ∧ s'.refused x = s.refused x ∨
      s'.sent x = s.sent x ∧ s'.refused x = true) : Stream s' (Function.update own t l) x := by
  obtain ⟨answered, due, before, due_, sublist, all⟩ := inv
  have only : due = [piece] := by
    cases due_ with
    | nothing nobody => cases (nobody t).symm.trans had
    | piece u has =>
      obtain rfl := once u (Local.turn_of_due has).1
      rw [Option.some.inj (has.symm.trans had)]
  subst only
  refine ⟨answered ++ [piece], [], ?_, .nothing fun u => ?_, ?_, ?_⟩
  · rw [arrived, before, List.append_nil]
  · by_cases same : u = t
    · subst same
      simpa using none
    · rw [Function.update_of_ne same]
      by_contra some_
      obtain ⟨other, has⟩ := Option.ne_none_iff_exists'.mp some_
      exact same (once u (Local.turn_of_due has).1)
  · rw [List.map_append]
    rcases settled with ⟨sent, -⟩ | ⟨sent, -⟩
    · rw [sent]
      exact sublist.append (List.Sublist.refl _)
    · rw [sent]
      exact sublist.trans (List.sublist_append_left _ _)
  · intro accepted
    rcases settled with ⟨sent, refused⟩ | ⟨-, refused⟩
    · rw [sent, all (refused.symm.trans accepted), List.map_append, List.map_singleton]
    · rw [refused] at accepted
      cases accepted

end Stream

/-! ### Runs -/

structure Inv (s : Config T Shared Local Op Res) : Prop where
  lending : Lending s.shared s.own
  turns : Turns s
  streams : ∀ x, Stream s.shared s.own x

theorem after_client (l : Task) {o : Server.Op} (other : o ≠ .getFreeClient) (res : Server.Res o) :
    (l.after o res).client = l.client := by
  by_cases plain : o.Plain
  · exact (after_plain plain res).1
  · cases o <;> simp only [Server.Op.Plain, not_true_eq_false] at plain
    case getFreeClient => exact absurd rfl other
    case eraseRealClient c =>
      obtain ⟨closing, same⟩ := l.after_eraseRealClient_same c res
      rw [same]
    all_goals rfl

section
variable {s : Config T Shared Local Op Res} {p : Call Unit} {o : Server.Op} {choice : Choice}

omit [DecidableEq T] in
/-- What the server knows of a call that is at one of its operations. -/
theorem Held.allowed (held : Held s) {rest : Res (.op o) → Call Unit}
    (code : s.code t = .call (.op o) rest) (careful : Careful s (.step t choice)) :
    Allowed s.shared.server (tasks s.own) t o choice := by
  have follows := held.follows t
  rw [code] at follows
  simp only [Careful, code] at careful
  exact ⟨follows.1.1, follows.1.2 trivial, careful.1⟩

omit [DecidableEq T] in
/-- The answer is what the call knows of its block. -/
theorem sent_answer (inv : Inv s) (held : Held s) {piece : List Byte}
    {data : IO_OPER_DATA} (hold : (s.own t).task.hold = .building r data)
    (blocks : (s.own t).task.blocks = [data.buf]) (answer : (s.own t).data = .answer piece)
    (length : data.len.toNat = piece.length + 14) :
    (s.shared.buffer .send r).bytes = echo piece := by
  have record : s.shared.server.records r = data :=
    (held.accounts.fields.agrees t).building r data hold
  obtain ⟨b, has, holds⟩ := inv.lending.knows t (by simp [answer])
  rw [blocks, List.singleton_inj] at has
  rw [answer] at holds
  simp only [Shared.buffer, record, length, has]
  exact holds.2

omit [DecidableEq T] in
theorem Local.due_other {l : Local} {y : Connection} (turn : l.turn = some x) (other : y ≠ x) :
    l.due y = none := by
  rw [Local.due, if_neg]
  rw [turn, Option.some.injEq]
  exact other.symm

/-- The piece of a call is answered or refused, and the other streams stay. -/
theorem streams_settle (inv : Inv s) {piece : List Byte} (turn : (s.own t).turn = some x)
    (due : (s.own t).data.due = some piece) (none : l.data.due = none)
    (arrived : s'.arrived = s.shared.arrived)
    (settled : s'.sent = Function.update s.shared.sent x (s.shared.sent x ++ [echo piece]) ∧
        s'.refused = s.shared.refused ∨
      s'.sent = s.shared.sent ∧ s'.refused = Function.update s.shared.refused x true)
    (y : Connection) : Stream s' (Function.update s.own t l) y := by
  by_cases same : y = x
  · subst same
    refine (inv.streams y).settle (by rw [Local.due, if_pos turn, due]) ?_
      (Local.due_eq_none none y) (congrFun arrived y) ?_
    · intro u has
      exact Holder.call.inj (inv.turns.once (.call u) (.call t) y has turn)
    · rcases settled with ⟨sent, refused⟩ | ⟨sent, refused⟩
      · exact .inl ⟨by rw [sent, Function.update_self], congrFun refused y⟩
      · exact .inr ⟨congrFun sent y, by rw [refused, Function.update_self]⟩
  · refine (inv.streams y).congr
      ((Local.due_eq_none none y).trans (Local.due_other turn same).symm) ?_
    refine ⟨congrFun arrived y, ?_⟩
    rcases settled with ⟨sent, refused⟩ | ⟨sent, refused⟩
    · exact ⟨by rw [sent, Function.update_of_ne same], congrFun refused y⟩
    · exact ⟨congrFun sent y, by rw [refused, Function.update_of_ne same]⟩

/-- A read is posted: the stream stays, and the turn is with the read or with the call. -/
theorem Inv.post_recv (inv : Inv s) (held : Held s) {server : Server.Shared} {error : Option Nat}
    (running : s.code t ≠ .ret ()) (needs : Needs (s.own t) (.op (.post c .recv r)))
    (result : s.shared.server.perform choice (.post c .recv r) = (server, error)) :
    let noted := { s.shared with server }.note
      { s.own t with task := (s.own t).task.after (.post c .recv r) error } (.post c .recv r) error
    Turns ⟨noted.1, Function.update s.own t noted.2, Function.update s.code t p⟩ ∧
      ∀ x, Stream noted.1 (Function.update s.own t noted.2) x := by
  obtain ⟨data, hold, -, ⟨x, turn, rfl⟩, zeros, -⟩ := needs
  have posted := perform_post s.shared.server choice x.client .recv r
  rw [result] at posted
  have client := after_client (s.own t).task (o := .post x.client .recv r) (by simp) error
  have none (y : Connection) : (s.own t).due y = none :=
    Local.due_eq_none (by rw [zeros]; rfl) y
  cases posted with
  | refused err =>
    refine ⟨?_, fun y => (inv.streams y).congr rfl ⟨rfl, rfl, rfl⟩⟩
    exact inv.turns.keep (fun q inside recv => ⟨inside, recv⟩) rfl (.inr ⟨rfl, client, running⟩)
  | accepted socket =>
    refine ⟨?_, fun y => (inv.streams y).congr ?_ ⟨rfl, rfl, rfl⟩⟩
    · apply inv.turns.pass (q := ⟨r, socket, x.client, s.shared.server.connection x.client⟩)
      · exact turn.trans (congrArg some (inv.turns.current t x running turn))
      · intro q inside
        rcases List.mem_cons.mp inside with same | before
        · exact .inl same
        · have apart := held.accounts.records.unpending (.inl ⟨data, hold⟩) q before
          exact .inr ⟨before, Function.update_of_ne apart _ _⟩
      · rfl
      · rfl
    · exact (Local.due_eq_none rfl y).trans (none y).symm

/-- An answer is posted or refused. -/
theorem Inv.post_send (inv : Inv s) (held : Held s) {server : Server.Shared} {error : Option Nat}
    (running : s.code t ≠ .ret ()) (needs : Needs (s.own t) (.op (.post c .send r)))
    (result : s.shared.server.perform choice (.post c .send r) = (server, error)) :
    let noted := { s.shared with server }.note
      { s.own t with task := (s.own t).task.after (.post c .send r) error } (.post c .send r) error
    Turns ⟨noted.1, Function.update s.own t noted.2, Function.update s.code t p⟩ ∧
      ∀ x, Stream noted.1 (Function.update s.own t noted.2) x := by
  obtain ⟨data, hold, blocks, ⟨x, turn, rfl⟩, piece, answer, length⟩ := needs
  have posted := perform_post s.shared.server choice x.client .send r
  rw [result] at posted
  have client := after_client (s.own t).task (o := .post x.client .send r) (by simp) error
  have current := inv.turns.current t x running turn
  have due : (s.own t).data.due = some piece := by rw [answer]; rfl
  cases posted with
  | refused err =>
    constructor
    · exact inv.turns.keep (fun q inside recv => ⟨inside, recv⟩) rfl (.inr ⟨rfl, client, running⟩)
    · refine streams_settle inv turn due rfl rfl (.inr ⟨rfl, ?_⟩)
      exact congrArg (Function.update s.shared.refused · true) current.symm
  | accepted socket =>
    constructor
    · refine inv.turns.keep ?_ rfl (.inr ⟨rfl, client, running⟩)
      intro q inside recv
      simp only [Shared.note, Shared.send, Shared.pass] at recv
      rcases List.mem_cons.mp inside with rfl | before
      · simp [Shared.buffer] at recv
      · have apart := held.accounts.records.unpending (.inl ⟨data, hold⟩) q before
        rw [Function.update_of_ne apart] at recv
        exact ⟨before, recv⟩
    · refine streams_settle inv turn due rfl rfl (.inl ⟨?_, rfl⟩)
      have bytes := sent_answer inv held hold blocks answer length
      change Function.update s.shared.sent (s.shared.current x.client) (s.shared.sent
        (s.shared.current x.client) ++ [(s.shared.buffer .send r).bytes]) = _
      rw [bytes, ← current]

/-- An operation of the server. -/
theorem Inv.perform (inv : Inv s) (held : Held s) {rest : Res (.op o) → Call Unit}
    (code : s.code t = .call (.op o) rest) (careful : Careful s (.step t choice))
    (needs : Needs (s.own t) (.op o)) {server : Server.Shared} {res : Server.Res o}
    (result : s.shared.server.perform choice o = (server, res)) :
    let noted := { s.shared with server }.note
      { s.own t with task := (s.own t).task.after o res } o res
    Turns ⟨noted.1, Function.update s.own t noted.2, Function.update s.code t p⟩ ∧
      ∀ x, Stream noted.1 (Function.update s.own t noted.2) x := by
  have running : s.code t ≠ .ret () := by simp [code]
  have pending (other : ∀ c d r, o ≠ .post c d r) : server.pending = s.shared.server.pending := by
    have same := perform_pending (s := s.shared.server) choice other
    rwa [result] at same
  have connection (other : o ≠ .getFreeClient) :
      server.connection = s.shared.server.connection := by
    have same := (perform_connection (s := s.shared.server) choice other).1
    rwa [result] at same
  -- What a call does with its block leaves the turns.
  have still (post : ∀ c d r, o ≠ .post c d r) (other : o ≠ .getFreeClient) {data : Data}
      (due : data.due = (s.own t).data.due) :
      Turns ⟨{ s.shared with server }, Function.update s.own t
        ⟨(s.own t).task.after o res, (s.own t).turn, data⟩, Function.update s.code t p⟩ ∧
      ∀ x, Stream { s.shared with server } (Function.update s.own t
        ⟨(s.own t).task.after o res, (s.own t).turn, data⟩) x := by
    constructor
    · refine inv.turns.keep (fun q inside recv => ⟨pending post ▸ inside, recv⟩) (connection other)
        (.inr ⟨rfl, after_client _ other _, running⟩)
    · intro x
      refine (inv.streams x).congr ?_ ⟨rfl, rfl, rfl⟩
      rw [Local.due, Local.due, due]
  by_cases quiet : Quiet o
  · rw [note_quiet quiet]
    refine still ?_ ?_ rfl
    · rintro c d r rfl
      exact quiet
    · rintro rfl
      exact quiet
  · cases o with
    | post c d r =>
      cases d with
      | recv => exact inv.post_recv held running needs result
      | send => exact inv.post_send held running needs result
    | getMemBlock => exact still (by simp) (by simp) needs.symm
    | releaseMemBlock b => exact still (by simp) (by simp) needs.symm
    | getFreeClient =>
      cases result
      simp only [Careful, code] at careful
      constructor
      · exact inv.turns.start (careful.2 trivial) rfl rfl rfl rfl rfl
      · intro x
        refine (inv.streams x).congr ?_ ⟨rfl, rfl, rfl⟩
        rw [Local.due_eq_none needs.2 x]
        apply Local.due_eq_none
        exact needs.2
    | _ => exact absurd trivial quiet

theorem Inv.step (inv : Inv s) (held : Held s) {op : Op} {rest : Res op → Call Unit}
    {res : Res op} (code : s.code t = .call op rest) (careful : Careful s (.step t choice))
    (needs : Needs (s.own t) op)
    (performed : Contents.step s.shared (s.own t) op choice = some (s', l, res)) :
    Inv ⟨s', Function.update s.own t l, Function.update s.code t p⟩ ∧ Gives (s.own t) op res l := by
  have running : s.code t ≠ .ret () := by simp [code]
  obtain ⟨lending, gives⟩ := inv.lending.step held.accounts needs (by
    rintro o rfl
    exact held.allowed code careful) performed
  suffices both : Turns ⟨s', Function.update s.own t l, Function.update s.code t p⟩ ∧
      ∀ x, Stream s' (Function.update s.own t l) x from ⟨⟨lending, both.1, both.2⟩, gives⟩
  cases op with
  | op o =>
    obtain ⟨rfl, rfl, rfl⟩ := step_op performed
    exact inv.perform held code careful needs rfl
  | memset b =>
    cases performed
    constructor
    · exact inv.turns.keep (fun q inside recv => ⟨inside, recv⟩) rfl (.inr ⟨rfl, rfl, running⟩)
    · intro x
      refine (inv.streams x).congr ?_ ⟨rfl, rfl, rfl⟩
      exact (Local.due_eq_none rfl x).trans (Local.due_eq_none needs.2 x).symm
  | strcat_s b text =>
    obtain ⟨piece, data, -⟩ := gives
    obtain ⟨memory, -, same⟩ := Option.map_eq_some_iff.mp performed
    cases same
    constructor
    · exact inv.turns.keep (fun q inside recv => ⟨inside, recv⟩) rfl (.inr ⟨rfl, rfl, running⟩)
    · intro x
      refine (inv.streams x).congr ?_ ⟨rfl, rfl, rfl⟩
      simp only [Local.due, data, Data.due]

theorem Inv.enter (inv : Inv s) (held : Held s) (idle : Finished (s.own t)) {e : Event}
    (short : e.payload.length + 14 ≤ 4096)
    (entered : Contents.enter s.shared e = some (s', l, p)) :
    Inv ⟨s', Function.update s.own t l, Function.update s.code t p⟩ ∧
      p.Follows discipline l fun _ => Finished := by
  obtain ⟨lending, follows⟩ := inv.lending.enter held.accounts held.apart.keyed idle short entered
  suffices both : Turns ⟨s', Function.update s.own t l, Function.update s.code t p⟩ ∧
      ∀ x, Stream s' (Function.update s.own t l) x from ⟨⟨lending, both.1, both.2⟩, follows⟩
  have none (x : Connection) : (s.own t).due x = none := Local.due_eq_none idle.2 x
  cases enter_cases entered with
  | other enters other =>
    have calm := (calm_of_enter enters other).1
    constructor
    · exact inv.turns.keep (fun q inside recv => ⟨calm.pending ▸ inside, recv⟩) calm.connection
        (.inl rfl)
    · intro x
      exact (inv.streams x).congr ((Local.due_eq_none rfl x).trans (none x).symm) ⟨rfl, rfl, rfl⟩
  | @completed server task p posted lasterr transferred payload enters brings =>
    obtain ⟨pending, key, rfl, rfl⟩ := dequeue_enter held.apart.keyed enters
    have nodup : s.shared.server.pending.Nodup :=
      held.accounts.records.outstanding.pendingOnce.of_map
    have current := held.apart.pending posted pending
    simp only [Shared.complete]
    cases direction : (s.shared.passed posted.record).direction with
    | recv =>
      have turn : (some ⟨posted.client, posted.connection⟩ : Option Connection) =
          some (stream posted) := rfl
      dsimp only
      split
      · rename_i success
        have data : brought lasterr payload = .piece payload := if_pos success
        constructor
        · exact inv.turns.dequeue nodup pending direction rfl rfl rfl current turn rfl
        · intro x
          by_cases same : x = stream posted
          · subst same
            have here : TurnAt s.shared s.own (.posted posted) (stream posted) :=
              ⟨pending, direction, rfl⟩
            refine (inv.streams _).arrive payload ?_ ?_ ⟨?_, rfl, rfl⟩
            · intro u
              by_contra some_
              obtain ⟨piece, has⟩ := Option.ne_none_iff_exists'.mp some_
              have there : TurnAt s.shared s.own (.call u) (stream posted) :=
                (Local.turn_of_due has).1
              cases inv.turns.once _ _ _ here there
            · rw [Local.due, if_pos turn, data]
              rfl
            · exact Function.update_self _ _ _
          · refine (inv.streams x).congr ?_ ⟨?_, rfl, rfl⟩
            · rw [none x]
              exact Local.due_other turn same
            · exact Function.update_of_ne same _ _
      · rename_i nothing
        have data : brought lasterr payload = .unknown := if_neg nothing
        constructor
        · exact inv.turns.dequeue nodup pending direction rfl rfl rfl current turn rfl
        · intro x
          refine (inv.streams x).congr ?_ ⟨rfl, rfl, rfl⟩
          rw [none x, data]
          exact Local.due_eq_none rfl x
    | send =>
      dsimp only
      constructor
      · refine inv.turns.keep ?_ rfl (.inl rfl)
        exact fun q left recv => ⟨List.mem_of_mem_erase left, recv⟩
      · intro x
        exact (inv.streams x).congr ((Local.due_eq_none rfl x).trans (none x).symm) ⟨rfl, rfl, rfl⟩

end

omit [DecidableEq T] in
theorem Initial.inv {s : Config T Shared Local Op Res} (initial : Initial s.shared)
    (idle : ∀ t, s.own t = {} ∧ s.code t = .ret ()) : Inv s := by
  obtain ⟨arrived, sent, refused⟩ := initial.streams
  have pending := initial.server.pending
  refine ⟨⟨?_, ?_, ?_⟩, ⟨?_, ?_, ?_, ?_⟩, ?_⟩
  · simp [pending]
  · intro t known
    rw [(idle t).1] at known
    exact absurd rfl known
  · intro t r at_
    rw [(idle t).1] at at_
    cases at_
  · intro a b x at_ at_'
    cases a with
    | call t => simp [TurnAt, (idle t).1] at at_
    | posted p => simp [TurnAt, pending] at at_
  · intro t x has
    simp [(idle t).1] at has
  · intro t x has
    simp [(idle t).1] at has
  · exact fun t x running => absurd (idle t).2 running
  · intro x
    refine ⟨[], [], by rw [arrived]; rfl, .nothing fun t => ?_, ?_⟩
    · rw [(idle t).1]
      rfl
    · rw [Answered, sent]
      exact ⟨List.Sublist.refl _, fun _ => rfl⟩

theorem inv_of_run {s : Config T Shared Local Op Res}
    (run : (system T).ReachableUnder Careful s) : Inv s ∧
      ∀ t, (s.code t).Follows discipline (s.own t) fun _ => Finished := by
  have resting : Finished {} := ⟨⟨rfl, fun _ => rfl⟩, rfl⟩
  have held := run.attach fun s run => held_of_run run
  refine Semantics.invariant_of_guarded_run (I := Inv) discipline resting ?_ ?_ ?_ held
  · exact fun s first => first.1.inv first.2
  · exact fun s t e s' l p inv idle guard entered => inv.enter guard.2 idle guard.1 entered
  · intro s t op rest choice s' l r inv _ code guard performed needs
    exact inv.step guard.2 code guard.1 needs performed

/-- What the server does with the bytes. While a read is pending its block is zeros, and
while an answer is pending its block is what was passed. Each connection is sent answers
to its own pieces only, in their order and each at most once; at most one piece is still
to be answered, by a running call, and no answer is missing unless a WSASend of this
connection was refused. -/
structure Echoed (s : Config T Shared Local Op Res) : Prop where
  reads : ∀ p ∈ s.shared.server.pending, (s.shared.passed p.record).direction = .recv →
    Cells.read (s.shared.contents (s.shared.server.records p.record).buf) 0 4096 =
      List.replicate 4096 0
  answers : ∀ p ∈ s.shared.server.pending, (s.shared.passed p.record).direction = .send →
    Cells.read (s.shared.contents (s.shared.server.records p.record).buf) 0
      (s.shared.passed p.record).len.toNat = (s.shared.passed p.record).bytes
  streams : ∀ x, ∃ answered due, s.shared.arrived x = answered ++ due ∧ due.length ≤ 1 ∧
    ((∀ t, s.code t = .ret ()) → due = []) ∧ Answered s.shared x answered

omit [DecidableEq T] in
theorem Inv.echoed {s : Config T Shared Local Op Res} (inv : Inv s)
    (follows : ∀ t, (s.code t).Follows discipline (s.own t) fun _ => Finished) : Echoed s := by
  constructor
  · intro p inside recv
    obtain ⟨buf, -, bytes, zeros⟩ := inv.lending.lent p inside
    rw [(zeros recv).1, (zeros recv).2, show (4096 : BitVec 32).toNat = 4096 from rfl] at bytes
    rw [buf, bytes]
  · intro p inside _
    obtain ⟨buf, -, bytes, -⟩ := inv.lending.lent p inside
    rw [buf, bytes]
  · intro x
    obtain ⟨answered, due, arrived, had, sent⟩ := inv.streams x
    refine ⟨answered, due, arrived, ?_, ?_, sent⟩
    · cases had <;> simp
    · intro idle
      cases had with
      | nothing => rfl
      | piece t has =>
        have done := follows t
        rw [idle t] at done
        cases done.2.symm.trans (Local.turn_of_due has).2

theorem streams_echoed {s : Config T Shared Local Op Res}
    (run : (system T).ReachableUnder Careful s) : Echoed s :=
  (inv_of_run run).1.echoed (inv_of_run run).2

instance [Fintype T] (s : Config T Shared Local Op Res) (c : Client) : Decidable (Unused s c) :=
  inferInstanceAs (Decidable ((∀ p ∈ s.shared.server.pending, p.client ≠ c) ∧
    ∀ u, s.code u ≠ .ret () → (s.own u).task.client ≠ some c ∧
      ∀ p ∈ (s.own u).task.completion, p.client ≠ c))

instance [Fintype T] (s : Config T Shared Local Op Res) :
    (label : Label T Choice Event) → Decidable (Careful s label)
  | .enter _ e => inferInstanceAs (Decidable (e.payload.length + 14 ≤ 4096))
  | .step t choice => match code : s.code t with
    | .call (.op o) _ => decidable_of_iff (Prompt s.shared.server (tasks s.own) t o choice ∧
        (o = .getFreeClient → Unused s (s.shared.server.m_FreeClientList.take 1000).1))
        (by simp [Careful, code])
    | .call (.memset _) _ | .call (.strcat_s _ _) _ | .ret _ => .isTrue (by simp [Careful, code])

/-- An accept thread and a worker thread, with 255 in all of the memory. -/
def started : Config Bool Shared Local Op Res where
  shared :=
    { server := Server.started.shared
      contents := fun _ _ => 255
      passed := fun _ => ⟨.recv, NULL, 0, []⟩ }
  own _ := {}
  code _ := .ret ()

theorem started_initial : Initial started.shared ∧ ∀ t, started.own t = {} ∧
    started.code t = .ret () :=
  ⟨⟨Server.started_initial.1, rfl, rfl, rfl⟩, fun _ => ⟨rfl, rfl⟩⟩

/-- Two clients connect; while the worker thread has the piece of the first one, that of
the second one is taken by the accept thread. -/
def conversation : List (Label Bool Choice Event) :=
  calling false ⟨.accept false, []⟩ 13 ++ calling false ⟨.accept false, []⟩ 13 ++
    calling true ⟨.dequeue ⟨0, 0, 0, 1⟩ none 5, bytes "hello"⟩ 10 ++
    calling false ⟨.dequeue ⟨1, 1, 1, 1⟩ none 3, bytes "you"⟩ 24 ++
    List.replicate 14 (.step true {})

theorem conversation_sent :
    ((system Bool).runUnder Careful started conversation).map
      (fun s => (s.shared.sent ⟨0, 1⟩, s.shared.sent ⟨1, 1⟩)) =
        some ([bytes "hello server reply" ++ [0]], [bytes "you server reply" ++ [0]]) := by
  decide +kernel

theorem streams_echoed_conversation :
    ∃ s, (system Bool).runUnder Careful started conversation = some s ∧
      s.shared.sent ⟨0, 1⟩ = [bytes "hello server reply" ++ [0]] ∧ Echoed s := by
  obtain ⟨s, ran, sent⟩ := Option.map_eq_some_iff.mp conversation_sent
  exact ⟨s, ran, congrArg Prod.fst sent,
    streams_echoed (System.runUnder_reachable (.initial started_initial) ran)⟩

end TestIOCP.Server.Contents
