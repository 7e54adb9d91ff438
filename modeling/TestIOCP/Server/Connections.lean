import TestIOCP.Server.Partition

/-! Stubs are used again for later connections. A completion carries the stub of the
socket on which it was posted; it belongs to the connection that this stub served then,
and the stub must not be handed out again before that completion has been handled. -/
namespace TestIOCP.Server
open Transition Program

variable {T : Type}

/-- The socket can only be, or become, associated with the stub. -/
structure Given (s : Shared) (own : T → Task) (socket : Sock) (c : Client) : Prop where
  known : socket < s.sockets
  client : c < s.m_FreeClientList.allocated
  key : s.key socket = none ∨ s.key socket = some c
  owner : ∀ t, (own t).accepted = some socket → (own t).client = some c

/-- Sockets and stubs belong together. -/
structure Keyed (s : Shared) (own : T → Task) : Prop where
  served : ∀ c socket, (s.clients c).m_Socket = some socket → Given s own socket c
  posted : ∀ p ∈ s.pending, Given s own p.socket p.client
  accepted : ∀ t socket, (own t).accepted = some socket →
    socket < s.sockets ∧ s.key socket = none ∧ ∀ u, (own u).accepted = some socket → u = t
  client : ∀ t c, (own t).client = some c → c < s.m_FreeClientList.allocated
  fresh : ∀ socket, s.sockets ≤ socket → s.key socket = none
  handling : ∀ t p, (own t).completion = some p → (own t).client = some p.client

variable {s s' : Shared} {own : T → Task} {t : T} {l : Task} {c : Client} [DecidableEq T]

theorem Given.mono {socket : Sock} (given : Given s own socket c) (sockets : s.sockets ≤ s'.sockets)
    (allocated : s.m_FreeClientList.allocated ≤ s'.m_FreeClientList.allocated)
    (key : s'.key socket = none ∨ s'.key socket = some c)
    (owner : l.accepted = some socket → l.client = some c) :
    Given s' (Function.update own t l) socket c := by
  refine ⟨Nat.lt_of_lt_of_le given.known sockets,
    Nat.lt_of_lt_of_le given.client allocated, key, ?_⟩
  intro u has
  by_cases same : u = t
  · subst same
    simp only [Function.update_self] at has ⊢
    exact owner has
  · simp only [Function.update_of_ne same] at has ⊢
    exact given.owner u has

namespace Keyed

/-- A step that accepts no socket and associates none. -/
theorem congr (inv : Keyed s own) (sockets : s'.sockets = s.sockets)
    (allocated : s.m_FreeClientList.allocated ≤ s'.m_FreeClientList.allocated)
    (key : s'.key = s.key) (keeps : ∀ socket, l.accepted = some socket →
      (own t).accepted = some socket ∧ ∀ c, (own t).client = some c → l.client = some c)
    (client : ∀ c, l.client = some c → c < s'.m_FreeClientList.allocated)
    (handling : ∀ p, l.completion = some p → l.client = some p.client)
    (served : ∀ c socket, (s'.clients c).m_Socket = some socket → Given s own socket c)
    (posted : ∀ p ∈ s'.pending, Given s own p.socket p.client) :
    Keyed s' (Function.update own t l) := by
  have given {socket : Sock} {c : Client} (given : Given s own socket c) :
      Given s' (Function.update own t l) socket c := by
    refine given.mono sockets.ge allocated (key ▸ given.key) fun has => ?_
    obtain ⟨before, client⟩ := keeps socket has
    exact client c (given.owner t before)
  constructor
  · exact fun c socket at_ => given (served c socket at_)
  · exact fun p inside => given (posted p inside)
  · intro u socket has
    have accepted (v : T) (has : ((Function.update own t l) v).accepted = some socket) :
        (own v).accepted = some socket := by
      by_cases same : v = t
      · subst same
        exact (keeps socket (by simpa using has)).1
      · simpa [same] using has
    obtain ⟨known, unkeyed, once⟩ := inv.accepted u socket (accepted u has)
    exact ⟨sockets ▸ known, key ▸ unkeyed, fun v has => once v (accepted v has)⟩
  · intro u c has
    by_cases same : u = t
    · subst same
      exact client c (by simpa using has)
    · exact Nat.lt_of_lt_of_le (inv.client u c (by simpa [same] using has)) allocated
  · exact fun socket later => key ▸ inv.fresh socket (sockets ▸ later)
  · intro u p has
    by_cases same : u = t
    · subst same
      simp only [Function.update_self] at has ⊢
      exact handling p has
    · simp only [Function.update_of_ne same] at has ⊢
      exact inv.handling u p has

/-- A step of a call that keeps its client. -/
theorem quiet (inv : Keyed s own) (sockets : s'.sockets = s.sockets)
    (allocated : s'.m_FreeClientList.allocated = s.m_FreeClientList.allocated)
    (key : s'.key = s.key) (accepted : l.accepted = (own t).accepted ∨ l.accepted = none)
    (client : l.client = (own t).client) (completion : l.completion = (own t).completion)
    (served : ∀ c socket, (s'.clients c).m_Socket = some socket → Given s own socket c)
    (posted : ∀ p ∈ s'.pending, Given s own p.socket p.client) :
    Keyed s' (Function.update own t l) := by
  refine inv.congr sockets allocated.ge key ?_ ?_ ?_ served posted
  · intro socket has
    rcases accepted with same | none
    · exact ⟨same ▸ has, fun c at_ => client.trans at_⟩
    · rw [none] at has
      contradiction
  · intro c has
    exact allocated ▸ inv.client t c (client ▸ has)
  · intro p has
    exact client.trans (inv.handling t p (completion ▸ has))

theorem accept (inv : Keyed s own) (opened : List Sock) :
    Keyed { s with sockets := s.sockets + 1, opened } (Function.update own t
      { accepted := some s.sockets }) := by
  have given {socket : Sock} {c : Client} (given : Given s own socket c) :
      Given { s with sockets := s.sockets + 1, opened } (Function.update own t
        { accepted := some s.sockets }) socket c := by
    refine given.mono (Nat.le_succ _) (Nat.le_refl _) given.key ?_
    rintro ⟨⟩
    exact absurd given.known (Nat.lt_irrefl _)
  constructor
  · exact fun c socket at_ => given (inv.served c socket at_)
  · exact fun p inside => given (inv.posted p inside)
  · intro u socket has
    by_cases same : u = t
    · subst same
      obtain rfl : s.sockets = socket := by simpa using has
      refine ⟨Nat.lt_succ_self _, inv.fresh _ (Nat.le_refl _), fun v has => ?_⟩
      by_contra other
      simp only [Function.update_of_ne other] at has
      exact Nat.lt_irrefl _ (inv.accepted v _ has).1
    · simp only [Function.update_of_ne same] at has
      obtain ⟨known, unkeyed, once⟩ := inv.accepted u socket has
      refine ⟨Nat.lt_succ_of_lt known, unkeyed, fun v has => ?_⟩
      by_cases self : v = t
      · subst self
        obtain rfl : s.sockets = socket := by simpa using has
        exact absurd known (Nat.lt_irrefl _)
      · exact once v (by simpa [self] using has)
  · intro u c has
    by_cases same : u = t
    · subst same
      simp at has
    · exact inv.client u c (by simpa [same] using has)
  · exact fun socket later => inv.fresh socket (Nat.le_of_succ_le later)
  · intro u p has
    by_cases same : u = t
    · subst same
      simp at has
    · simp only [Function.update_of_ne same] at has ⊢
      exact inv.handling u p has

theorem initClient (inv : Keyed s own) (client : (own t).client = some c) :
    Keyed (s.setSocket c (own t).accepted) (Function.update own t (own t)) := by
  refine inv.quiet rfl rfl rfl (.inl rfl) rfl rfl ?_ inv.posted
  intro c' socket at_
  by_cases same : c' = c
  · subst same
    have has : (own t).accepted = some socket := by simpa [Shared.setSocket] using at_
    obtain ⟨known, unkeyed, once⟩ := inv.accepted t socket has
    exact ⟨known, inv.client t c' client, .inl unkeyed, fun u has => once u has ▸ client⟩
  · exact inv.served c' socket (by simpa [Shared.setSocket, same] using at_)

theorem associate (inv : Keyed s own) {socket : Sock} (has : (own t).accepted = some socket)
    (client : (own t).client = some c) :
    Keyed { s with key := Function.update s.key socket (some c) }
      (Function.update own t { own t with accepted := none }) := by
  have given {socket' : Sock} {c' : Client} (given : Given s own socket' c') :
      Given { s with key := Function.update s.key socket (some c) }
        (Function.update own t { own t with accepted := none }) socket' c' := by
    refine given.mono (Nat.le_refl _) (Nat.le_refl _) ?_ (by simp)
    by_cases same : socket' = socket
    · subst same
      have owner := given.owner t has
      rw [client] at owner
      exact .inr (by simpa using owner)
    · simpa [same] using given.key
  constructor
  · exact fun c' socket' at_ => given (inv.served c' socket' at_)
  · exact fun p inside => given (inv.posted p inside)
  · intro u socket' has'
    have other : u ≠ t := by
      rintro rfl
      simp at has'
    simp only [Function.update_of_ne other] at has'
    obtain ⟨known, unkeyed, once⟩ := inv.accepted u socket' has'
    have apart : socket' ≠ socket := by
      rintro rfl
      exact other (once t has).symm
    refine ⟨known, by simpa [apart] using unkeyed, fun v has => ?_⟩
    have other' : v ≠ t := by
      rintro rfl
      simp at has
    exact once v (by simpa [other'] using has)
  · intro u c' has'
    by_cases same : u = t
    · subst same
      exact inv.client u c' (by simpa using has')
    · exact inv.client u c' (by simpa [same] using has')
  · intro socket' later
    have apart : socket' ≠ socket :=
      fun same => Nat.not_le_of_gt (inv.accepted t socket has).1 (same ▸ later)
    simpa [apart] using inv.fresh socket' later
  · intro u p has'
    by_cases same : u = t
    · subst same
      simp only [Function.update_self] at has' ⊢
      exact inv.handling u p has'
    · simp only [Function.update_of_ne same] at has' ⊢
      exact inv.handling u p has'

end Keyed

/-- What a plain operation does to sockets and pending operations. -/
structure PlainStep (s s' : Shared) : Prop where
  sockets : s'.sockets = s.sockets
  key : s'.key = s.key
  clients : s'.m_FreeClientList = s.m_FreeClientList
  connection : s'.connection = s.connection
  served : ∀ c socket, (s'.clients c).m_Socket = some socket → (s.clients c).m_Socket = some socket
  posted : ∀ p ∈ s'.pending, p ∈ s.pending ∨
    ((s.clients p.client).m_Socket = some p.socket ∧ p.connection = s.connection p.client)

omit [DecidableEq T] in
theorem PlainStep.refl (s : Shared) : PlainStep s s :=
  ⟨rfl, rfl, rfl, rfl, fun _ _ => id, fun _ => .inl⟩

@[simp] theorem setList_socket (s : Shared) (c c' : Client) (d : Direction) (keys : List Record) :
    ((s.setList c d keys).clients c').m_Socket = (s.clients c').m_Socket := by
  by_cases same : c' = c
  · subst same
    simp [Shared.setList]
  · simp [Shared.setList, same]

theorem perform_plain {op : Op} (choice : Choice) (plain : op.Plain) :
    PlainStep s (s.perform choice op).1 := by
  have lists (c : Client) (d : Direction) (keys : List Record) : PlainStep s (s.setList c d keys) :=
    ⟨rfl, rfl, rfl, rfl, fun c' socket => by simp, fun _ => .inl⟩
  cases op <;> simp only [Op.Plain] at plain
  case post c d r =>
    simp only [Shared.perform]
    split
    · exact .refl s
    · rename_i at_
      split
      · exact .refl s
      · split
        · exact .refl s
        · exact ⟨rfl, rfl, rfl, rfl, fun _ _ => id,
            List.forall_mem_cons.mpr ⟨.inr ⟨at_, rfl⟩, fun _ => .inl⟩⟩
  case insert c d r => exact lists c d _
  case erase c d r => exact lists c d _
  case findErase c d r =>
    simp only [Shared.perform]
    split
    · obtain ⟨-, -, -, -, served, -⟩ := lists c d (((s.clients c).list d).erase r)
      exact ⟨rfl, rfl, rfl, rfl, served, fun _ => .inl⟩
    · exact .refl s
  case drain c d =>
    obtain ⟨-, -, -, -, served, -⟩ := lists c d []
    exact ⟨rfl, rfl, rfl, rfl, served, fun _ => .inl⟩
  case closeSocket c =>
    simp only [Shared.perform]
    split
    · exact .refl s
    · refine ⟨rfl, rfl, rfl, rfl, fun c' socket at_ => ?_, fun _ => .inl⟩
      by_cases same : c' = c
      · subst same
        simp [Shared.setSocket] at at_
      · simpa [Shared.setSocket, same] using at_
  all_goals exact ⟨rfl, rfl, rfl, rfl, fun _ _ => id, fun _ => .inl⟩

namespace Keyed

theorem plain (inv : Keyed s own) (plain : PlainStep s s')
    (accepted : l.accepted = (own t).accepted)
    (client : l.client = (own t).client) (completion : l.completion = (own t).completion) :
    Keyed s' (Function.update own t l) := by
  refine inv.quiet plain.sockets (by rw [plain.clients]) plain.key (.inl accepted) client completion
    (fun c socket at_ => inv.served c socket (plain.served c socket at_)) ?_
  intro p inside
  rcases plain.posted p inside with before | ⟨at_, -⟩
  · exact inv.posted p before
  · exact inv.served _ _ at_

theorem step (inv : Keyed s own) (partition : Partition s own) {op : Op} (choice : Choice)
    (tends : Tends (own t) op) : Keyed (s.perform choice op).1
      (Function.update own t ((own t).after op (s.perform choice op).2)) := by
  by_cases isPlain : op.Plain
  · obtain ⟨client, -, -, accepted, completion⟩ := after_plain (l := own t) isPlain
      (s.perform choice op).2
    exact inv.plain (perform_plain choice isPlain) accepted client completion
  · cases op <;> simp only [Op.Plain, not_true_eq_false] at isPlain
    case getFreeClient =>
      have pool := Pool.take_taken 1000 (by omega) partition.freeOnce
        (fun c free => partition.place.known .free c free)
      refine inv.congr rfl pool.grown rfl ?_ ?_ ?_ inv.served inv.posted
      · refine fun socket has => ⟨has, fun c at_ => ?_⟩
        rw [tends.1] at at_
        contradiction
      · rintro c ⟨⟩
        rcases pool.source with free | new
        · exact Nat.lt_of_lt_of_le (partition.place.known .free _ free) pool.grown
        · exact new.2
      · intro p has
        have at_ := inv.handling t p has
        rw [tends.1] at at_
        contradiction
    case initClient c sock =>
      obtain ⟨client, rfl⟩ := tends
      exact inv.initClient client
    case createIoCompletionPort sock c =>
      obtain ⟨client, rfl⟩ := tends
      simp only [Shared.perform]
      split
      · exact inv.quiet rfl rfl rfl (.inr rfl) rfl rfl inv.served inv.posted
      · rename_i socket has
        split
        · exact inv.associate has client
        · exact inv.quiet rfl rfl rfl (.inr rfl) rfl rfl inv.served inv.posted
    case eraseRealClient c =>
      obtain ⟨closing, same⟩ := (own t).after_eraseRealClient_same c
        (s.perform choice (.eraseRealClient c)).2
      rw [same]
      exact inv.quiet rfl rfl rfl (.inl rfl) rfl rfl inv.served inv.posted
    case addRealClient c => exact inv.quiet rfl rfl rfl (.inl rfl) rfl rfl inv.served inv.posted
    case pushFreeClient c => exact inv.quiet rfl rfl rfl (.inl rfl) rfl rfl inv.served inv.posted
    all_goals exact tends.elim

theorem enter (inv : Keyed s own) {e : Event ⊕ Request} {p : Call Unit}
    (entered : enterAny s e = some (s', l, p)) : Keyed s' (Function.update own t l) := by
  have closed {c : Client} (known : c < s.m_FreeClientList.allocated) :
      Keyed s (Function.update own t { client := some c }) := by
    refine inv.congr rfl (Nat.le_refl _) rfl (by simp) ?_ (by simp) inv.served inv.posted
    rintro c ⟨⟩
    exact known
  rcases enterAny_cases entered with entered | ⟨d, buffer, length, known⟩
  · cases entered with
    | invalid =>
      exact inv.congr rfl (Nat.le_refl _) rfl (by simp) (by simp) (by simp) inv.served inv.posted
    | accepted => exact inv.accept _
    | @dequeued posted pclient lasterr transferred key pending =>
      have given := inv.posted posted pending
      obtain rfl : pclient = posted.client := by
        rcases given.key with none | some
        · rw [none] at key
          contradiction
        · exact Option.some.inj (key.symm.trans some)
      refine inv.congr rfl (Nat.le_refl _) rfl (by simp) ?_ ?_ inv.served ?_
      · rintro c ⟨⟩
        exact given.client
      · rintro p ⟨⟩
        rfl
      · exact fun p left => inv.posted p (List.mem_of_mem_erase left)
    | closed known => exact closed known
  · exact closed known

end Keyed

omit [DecidableEq T] in
theorem Initial.keyed (initial : Initial s) : Keyed s (fun _ : T => {}) := by
  constructor
  · simp [initial.clients]
  · simp [initial.pending]
  · simp
  · simp
  · simp [initial.sockets]
  · simp

/-- Every completion is handled while its stub serves the connection for which the
operation was posted, by a call that works on this stub only. -/
structure Isolated (s : Config T Shared Task Op Res) : Prop where
  pending : ∀ p ∈ s.shared.pending, p.connection = s.shared.connection p.client
  handled : ∀ t p, s.code t ≠ .ret () → (s.own t).completion = some p →
    p.connection = s.shared.connection p.client
  confined : ∀ t p op rest, s.code t = .call op rest → (s.own t).completion = some p →
    ∀ c, op.client = some c → c = p.client

/-- GetFreeClient hands out no stub of which an operation is pending or a completion is
being handled. -/
def Reusable (s : Config T Shared Task Op Res) : Label T Choice (Event ⊕ Request) → Prop
  | .enter _ _ => True
  | .step t _ =>
    match s.code t with
    | .call .getFreeClient _ =>
      (∀ p ∈ s.shared.pending, p.client ≠ (s.shared.m_FreeClientList.take 1000).1) ∧
        ∀ u, s.code u ≠ .ret () → ∀ p ∈ (s.own u).completion,
          p.client ≠ (s.shared.m_FreeClientList.take 1000).1
    | _ => True

/-- What holds besides confinement, which follows from the discipline of calls. -/
structure Apart (s : Config T Shared Task Op Res) : Prop where
  partition : Partition s.shared s.own
  keyed : Keyed s.shared s.own
  pending : ∀ p ∈ s.shared.pending, p.connection = s.shared.connection p.client
  handled : ∀ t p, s.code t ≠ .ret () → (s.own t).completion = some p →
    p.connection = s.shared.connection p.client

omit [DecidableEq T] in
theorem tends_client {op : Op} (tends : Tends l op) (at_ : op.client = some c) :
    l.client = some c := by
  cases op <;> simp only [Op.client, Option.some.injEq, reduceCtorEq] at at_
  all_goals subst at_
  case initClient => exact tends.1
  case createIoCompletionPort => exact tends.1
  case addRealClient => exact tends.1
  case eraseRealClient => exact tends.1
  case pushFreeClient => exact tends.1
  all_goals exact tends _ rfl

/-- Operations other than GetFreeClient leave the connections of stubs. -/
theorem perform_connection {op : Op} (choice : Choice) (other : op ≠ .getFreeClient) :
    (s.perform choice op).1.connection = s.connection ∧
      ∀ p ∈ (s.perform choice op).1.pending, p ∈ s.pending ∨
        p.connection = s.connection p.client := by
  by_cases plain : op.Plain
  · have step := perform_plain (s := s) choice plain
    exact ⟨step.connection, fun p inside => (step.posted p inside).imp id And.right⟩
  · cases op <;> simp only [Op.Plain, not_true_eq_false] at plain
    case getFreeClient => exact absurd rfl other
    case createIoCompletionPort sock c =>
      simp only [Shared.perform]
      split
      · exact ⟨rfl, fun _ => .inl⟩
      · split <;> exact ⟨rfl, fun _ => .inl⟩
    all_goals exact ⟨rfl, fun _ => .inl⟩

omit [DecidableEq T] in
theorem after_completion (op : Op) (res : Res op) : (l.after op res).completion = l.completion := by
  by_cases plain : op.Plain
  · exact (after_plain plain res).2.2.2.2
  · cases op <;> simp only [Op.Plain, not_true_eq_false] at plain
    case eraseRealClient c =>
      obtain ⟨closing, same⟩ := l.after_eraseRealClient_same c res
      rw [same]
    all_goals rfl

namespace Apart
variable {s : Config T Shared Task Op Res}

theorem enter (inv : Apart s) {e : Event ⊕ Request} {p : Call Unit} {s' : Shared}
    (empty : (s.own t).Empty) (entered : enterAny s.shared e = some (s', l, p)) :
    Apart ⟨s', Function.update s.own t l, Function.update s.code t p⟩ := by
  have same : s'.connection = s.shared.connection ∧ (∀ p ∈ s'.pending, p ∈ s.shared.pending) ∧
      ∀ p, l.completion = some p → p ∈ s.shared.pending := by
    rcases enterAny_cases entered with entered | ⟨d, buffer, length, -⟩
    · cases entered with
      | invalid | accepted | closed => exact ⟨rfl, fun _ => id, by simp⟩
      | dequeued lasterr transferred key pending =>
        refine ⟨rfl, fun _ => List.mem_of_mem_erase, ?_⟩
        rintro p ⟨⟩
        exact pending
    · exact ⟨rfl, fun _ => id, by simp⟩
  obtain ⟨connection, pending, completion⟩ := same
  refine ⟨inv.partition.enter empty entered, inv.keyed.enter entered, ?_, ?_⟩
  · exact fun p inside => connection ▸ inv.pending p (pending p inside)
  · intro u p running has
    rw [connection]
    by_cases same : u = t
    · subst same
      exact inv.pending p (completion p (by simpa using has))
    · exact inv.handled u p (by simpa [same] using running) (by simpa [same] using has)

theorem step (inv : Apart s) {op : Op} {rest : Res op → Call Unit} {choice : Choice}
    (code : s.code t = .call op rest) (reusable : Reusable s (.step t choice))
    (tends : Tends (s.own t) op) :
    Apart ⟨(s.shared.perform choice op).1,
      Function.update s.own t ((s.own t).after op (s.shared.perform choice op).2),
      Function.update s.code t (rest (s.shared.perform choice op).2)⟩ := by
  have own (u : T) (p : Posted) (has : ((Function.update s.own t
      ((s.own t).after op (s.shared.perform choice op).2)) u).completion = some p) :
      (s.own u).completion = some p := by
    by_cases same : u = t
    · subst same
      simpa [after_completion] using has
    · simpa [same] using has
  have running (u : T) (busy : (Function.update s.code t (rest (s.shared.perform choice op).2)) u ≠
      .ret ()) : s.code u ≠ .ret () := by
    by_cases same : u = t
    · subst same
      simp [code]
    · simpa [same] using busy
  refine ⟨inv.partition.step tends, inv.keyed.step inv.partition choice tends, ?_, ?_⟩
  · intro p inside
    by_cases hands : op = .getFreeClient
    · subst hands
      simp only [Reusable, code] at reusable
      have other := reusable.1 p inside
      simpa [Shared.perform, other] using inv.pending p inside
    · obtain ⟨connection, posted⟩ := perform_connection (s := s.shared) choice hands
      rw [connection]
      rcases posted p inside with before | now
      · exact inv.pending p before
      · exact now
  · intro u p busy has
    have current := inv.handled u p (running u busy) (own u p has)
    by_cases hands : op = .getFreeClient
    · subst hands
      simp only [Reusable, code] at reusable
      have other := reusable.2 u (running u busy) p (own u p has)
      simpa [Shared.perform, other] using current
    · rw [(perform_connection choice hands).1]
      exact current

end Apart

theorem isolated_when_reusable {s : Config T Shared Task Op Res}
    (run : (systemAny T).ReachableUnder Reusable s) : Isolated s := by
  have resting : Task.Empty {} := ⟨rfl, rfl⟩
  have held := Semantics.invariant_of_run (I := Apart) clientDiscipline resting ?_ ?_ ?_ run
  · obtain ⟨inv, follows⟩ := held
    refine ⟨inv.pending, inv.handled, ?_⟩
    intro t p op rest code has c at_
    have now := follows t
    rw [code] at now
    have client := tends_client now.1 at_
    rw [inv.keyed.handling t p has] at client
    exact (Option.some.inj client).symm
  · rintro s ⟨initial, idle⟩
    have own : s.own = fun _ => {} := funext fun t => (idle t).1
    refine ⟨own ▸ initial.partition, own ▸ initial.keyed, ?_, ?_⟩
    · simp [initial.pending]
    · exact fun t _ busy => absurd (idle t).2 busy
  · exact fun s t e s' l p inv empty entered => ⟨inv.enter empty entered, enterAny_works entered⟩
  · intro s t op rest choice s' l r inv _ code reusable performed tends
    simp only [semanticsAny, Server.step, Option.some.injEq, Prod.mk.injEq] at performed
    obtain ⟨rfl, rfl, rfl⟩ := performed
    exact ⟨inv.step code reusable tends, rfl⟩

instance [Fintype T] (s : Config T Shared Task Op Res) :
    (label : Label T Choice (Event ⊕ Request)) → Decidable (Reusable s label)
  | .enter _ _ => .isTrue trivial
  | .step t _ => match code : s.code t with
    | .ret _ => .isTrue (by simp [Reusable, code])
    | .call op _ =>
      if hands : op = .getFreeClient then
        decidable_of_iff
          ((∀ p ∈ s.shared.pending, p.client ≠ (s.shared.m_FreeClientList.take 1000).1) ∧
            ∀ u, s.code u ≠ .ret () → ∀ p ∈ (s.own u).completion,
              p.client ≠ (s.shared.m_FreeClientList.take 1000).1)
          (by subst hands; simp [Reusable, code])
      else .isTrue (by cases op <;> first | exact absurd rfl hands | simp [Reusable, code])

/-- A client that connects gets the first free stub, and its read is posted. -/
theorem accept_exec {s : Shared} (free : s.m_FreeClientList.free = c :: rest) :
    ∃ s' l', (acceptThread (some s.sockets)).exec step {}
        { s with sockets := s.sockets + 1, opened := s.sockets :: s.opened }
        { accepted := some s.sockets } = some (s', l', ()) ∧
      s'.m_FreeClientList.free = rest ∧
      (∃ p, p.client = c ∧ s'.pending = p :: s.pending) ∧
      s'.connection = Function.update s.connection c (s.connection c + 1) ∧
      s'.sockets = s.sockets + 1 ∧ ∀ k < s.sockets, s'.key k = s.key k := by
  simp only [acceptThread, clientStatusNotify, recvData, transfer, perform]
  simp [exec, step, Shared.perform, Pool.take, free, Shared.setSocket, Shared.setList, Shared.write]
  exact fun k below => Function.update_of_ne (Nat.ne_of_lt below) _ _

theorem removeRealClient_others (c : Client) :
    (removeRealClient c).Every (· ≠ .getFreeClient) := by
  simp only [removeRealClient, closeStub, perform, perform_bind, call_bind]
  refine ⟨by simp, fun (num : Nat) => ?_⟩
  dsimp only
  split
  · trivial
  · exact ⟨by simp, fun _ => ⟨by simp, fun _ => ⟨by simp, fun _ => ⟨by simp, fun _ => trivial⟩⟩⟩⟩

theorem transfer_others (d : Direction) (c : Client) (b : Block) (n : BitVec 32) :
    (transfer d c b n).Every (· ≠ .getFreeClient) := by
  refine ⟨by simp, fun r => ⟨by simp, fun _ => ⟨by simp, fun _ => ⟨by simp, fun _ =>
    ⟨by simp, fun _ => ⟨by simp, fun (failed : Option Nat) => ?_⟩⟩⟩⟩⟩⟩
  cases failed with
  | some err => exact ⟨by simp, fun _ => trivial⟩
  | none => exact ⟨by simp, fun _ => trivial⟩

theorem clientStatusNotify_others (c : Client) :
    (clientStatusNotify c).Every (· ≠ .getFreeClient) := by
  refine ⟨by simp, fun pdata => (transfer_others _ _ _ _).bind fun ret => ?_⟩
  dsimp only
  split
  · exact Every.bind ((removeRealClient_others c).bind fun _ => trivial) fun _ =>
      ⟨by simp, fun _ => trivial⟩
  · trivial

/-- After GetFreeClient, AcceptThread takes no stub. -/
theorem accepted_others (pclient : Client) (sAccept : Option Sock) : (do
    perform (.initClient pclient sAccept)
    perform (.addRealClient pclient)
    if ← perform (.createIoCompletionPort sAccept pclient) then
      let _ ← clientStatusNotify pclient
    else
      let _ ← removeRealClient pclient : Call Unit).Every (· ≠ .getFreeClient) := by
  refine ⟨by simp, fun _ => ⟨by simp, fun _ => ⟨by simp, fun (created : Bool) => ?_⟩⟩⟩
  cases created with
  | true => exact (clientStatusNotify_others pclient).bind fun _ => trivial
  | false => exact (removeRealClient_others pclient).bind fun _ => trivial

/-- Clients connect, each of them to the next free stub, until that of the first one is the
next. -/
theorem crowd {K : Config Bool Shared Task Op Res → Prop}
    (accept : ∀ s c rest, K s → s.shared.m_FreeClientList.free = c :: rest →
      ∃ s', K s' ∧ s'.shared.m_FreeClientList.free = rest ∧
        s'.shared.connection = Function.update s.shared.connection c (s.shared.connection c + 1))
    {s : Config Bool Shared Task Op Res} (now : K s) (cs : List Client) (others : 0 ∉ cs)
    (free : s.shared.m_FreeClientList.free = cs ++ [0]) :
    ∃ s', K s' ∧ s'.shared.m_FreeClientList.free = [0] ∧
      s'.shared.connection 0 = s.shared.connection 0 := by
  induction cs generalizing s with
  | nil => exact ⟨s, now, free, rfl⟩
  | cons c cs ih =>
    have other : 0 ≠ c := fun same => others (same ▸ List.mem_cons_self)
    have others : 0 ∉ cs := fun inside => others (List.mem_cons_of_mem c inside)
    obtain ⟨s₁, now₁, free₁, connection₁⟩ := accept s c _ now free
    obtain ⟨s', now', free', connection'⟩ := ih now₁ others free₁
    refine ⟨s', now', free', ?_⟩
    rw [connection', connection₁, Function.update_of_ne other]

/-- No call is running, and no operation of a stub that is free is pending. -/
structure Vacant (s : Config Bool Shared Task Op Res) : Prop where
  reached : (systemAny Bool).ReachableUnder Reusable s
  idle : ∀ t, s.code t = .ret ()
  once : s.shared.m_FreeClientList.free.Nodup
  pending : ∀ p ∈ s.shared.pending, p.client ∉ s.shared.m_FreeClientList.free

theorem Vacant.accept {s : Config Bool Shared Task Op Res} (vacant : Vacant s)
    (free : s.shared.m_FreeClientList.free = c :: rest) :
    ∃ s', Vacant s' ∧ s'.shared.m_FreeClientList.free = rest ∧
      s'.shared.connection = Function.update s.shared.connection c (s.shared.connection c + 1) := by
  obtain ⟨shared, l, ran, left, ⟨p, client, pending⟩, connection, -, -⟩ := accept_exec free
  have once := vacant.once
  have apart := vacant.pending
  rw [free] at once apart
  obtain ⟨fresh, once⟩ := List.nodup_cons.mp once
  have entered := Semantics.reachable_enter (m := semanticsAny) (e := .inl (.accept false))
    (t := false) vacant.reached trivial (vacant.idle false) rfl
  have reached := Semantics.reachable_first (P := (· ≠ .getFreeClient))
    (fun r => accepted_others r (some s.shared.sockets)) (fun s op rest other code => ?_) ?_
    entered ran
  · refine ⟨_, ⟨reached, fun t => ?_, left ▸ once, ?_⟩, left, connection⟩
    · by_cases same : t = false
      · subst same
        simp
      · simpa [same] using vacant.idle t
    · rw [pending, left]
      rintro q inside
      rcases List.mem_cons.mp inside with rfl | inside
      · exact client ▸ fresh
      · exact fun free => apart q inside (List.mem_cons_of_mem c free)
  · simp only [Reusable, code]
    cases op <;> first | exact absurd rfl other | trivial
  · simp only [Reusable, Function.update_self]
    have taken : (s.shared.m_FreeClientList.take 1000).1 = c := by simp [Pool.take, free]
    rw [taken]
    refine ⟨fun p inside same => apart p inside (same ▸ List.mem_cons_self), ?_⟩
    intro u busy q has
    cases u with
    | false => simp at has
    | true => simp [vacant.idle] at busy

theorem replied_vacant :
    ((systemAny Bool).runUnder Reusable started (replied .inl)).map (fun s => decide
      ((∀ t, s.code t = .ret ()) ∧ s.shared.pending = [] ∧
        s.shared.m_FreeClientList.free = List.range' 1 999 ++ [0] ∧
        s.shared.connection 0 = 1)) = some true := by
  decide +kernel

/-- The stub of a client whose operations have all been handled serves a second one. -/
theorem isolated_when_handed_out_again :
    ∃ s, (systemAny Bool).ReachableUnder Reusable s ∧ s.shared.connection 0 = 2 ∧
      Isolated s := by
  obtain ⟨s, ran, ended⟩ := Option.map_eq_some_iff.mp replied_vacant
  obtain ⟨idle, pending, free, connection⟩ := of_decide_eq_true ended
  have reached := System.runUnder_reachable (.initial started_initial) ran
  have once : (List.range' 1 999 ++ [0]).Nodup := by
    simp [List.nodup_append, List.nodup_range']
    omega
  have vacant : Vacant s := ⟨reached, idle, free ▸ once, by simp [pending]⟩
  obtain ⟨s₁, vacant₁, free₁, connection₁⟩ :=
    crowd (fun _ _ _ => Vacant.accept) vacant _ (by simp) free
  obtain ⟨s₂, vacant₂, -, connection₂⟩ := vacant₁.accept free₁
  exact ⟨s₂, vacant₂.reached, by simp [connection₂, connection₁, connection],
    isolated_when_reusable vacant₂.reached⟩

/-- The first client has been closed while its send is pending, and no call is running. -/
structure Stale (s : Config Bool Shared Task Op Res) : Prop where
  reached : (systemAny Bool).Reachable s
  idle : ∀ t, s.code t = .ret ()
  pending : first 1 ∈ s.shared.pending
  key : s.shared.key 0 = some 0
  sockets : 0 < s.shared.sockets

theorem Stale.accept {s : Config Bool Shared Task Op Res} (stale : Stale s)
    (free : s.shared.m_FreeClientList.free = c :: rest) :
    ∃ s', Stale s' ∧ s'.shared.m_FreeClientList.free = rest ∧
      s'.shared.connection = Function.update s.shared.connection c (s.shared.connection c + 1) := by
  obtain ⟨shared, l, ran, left, ⟨p, -, pending⟩, connection, sockets, key⟩ := accept_exec free
  have reached := Semantics.reachable_call (m := semanticsAny) (e := .inl (.accept false))
    (fun _ => trivial) stale.reached trivial (stale.idle false) rfl ran
  have still : first 1 ∈ shared.pending := pending ▸ List.mem_cons_of_mem p stale.pending
  refine ⟨_, ⟨reached, fun t => ?_, still, ?_, ?_⟩, left, connection⟩
  · by_cases same : t = false
    · subst same
      simp
    · simpa [same] using stale.idle t
  · exact (key 0 stale.sockets).trans stale.key
  · exact sockets ▸ Nat.succ_pos _

theorem enter_dequeue {s : Shared} {p : Posted} (key : s.key p.socket = some c)
    (inside : p ∈ s.pending) (transferred : BitVec 32) :
    enter s (.dequeue p none transferred) = some ({ s with pending := s.pending.erase p },
      { hold := .dequeued p.record
        blocks := [(s.records p.record).buf]
        completion := some p
        client := some c },
      workThread none c p.record transferred) := by
  simp [enter, key, inside]

theorem abandoned_stale :
    ((systemAny Bool).run started (abandoned .inl)).map (fun s => decide
      ((∀ t, s.code t = .ret ()) ∧ first 1 ∈ s.shared.pending ∧ s.shared.key 0 = some 0 ∧
        0 < s.shared.sockets ∧ s.shared.m_FreeClientList.free = List.range' 1 999 ++ [0] ∧
        s.shared.connection 0 = 1)) = some true := by
  decide +kernel

theorem not_isolated_when_reused : ¬ ∀ s, (systemAny Bool).Reachable s → Isolated s := by
  intro isolated
  obtain ⟨s, ran, ended⟩ := Option.map_eq_some_iff.mp abandoned_stale
  obtain ⟨idle, pending, key, sockets, free, connection⟩ := of_decide_eq_true ended
  have reached := System.run_reachable (.initial started_initial) ran
  have stale : Stale s := ⟨reached, idle, pending, key, sockets⟩
  obtain ⟨s₁, stale₁, free₁, connection₁⟩ :=
    crowd (fun _ _ _ => Stale.accept) stale _ (by simp) free
  obtain ⟨s₂, stale₂, -, connection₂⟩ := stale₁.accept free₁
  -- the send of the first connection completes, and WorkThread handles it
  have entered := enter_dequeue stale₂.key stale₂.pending 19
  have handling := Semantics.reachable_enter (m := semanticsAny)
    (e := .inl (.dequeue (first 1) none 19)) stale₂.reached trivial (stale₂.idle true) entered
  have current := (isolated _ handling).handled true (first 1) (by simp [workThread, perform])
    (by simp)
  simp [first, connection₂, connection₁, connection] at current

end TestIOCP.Server
