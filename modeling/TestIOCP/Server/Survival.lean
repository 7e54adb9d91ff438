import TestIOCP.Server.Sockets

/-! AcceptThread stays in its loop, and loses no socket, as long as CreateIoCompletionPort
does not fail. -/
namespace TestIOCP.Server.AcceptLoop
open Transition Program

variable {T α β : Type} {l : Local} {c : Client}

/-- The part of the discipline that the tasks of Server.Clients do not have. -/
def tidiness : Discipline Local Server.Op Server.Res where
  pre := Tidy
  post l op r l' := l' = l.after (.server op) r

/-- A call that follows both disciplines follows the one of the loop. -/
theorem lift_follows {p : Server.Call α} {Q : α → Task → Prop} {R : α → Local → Prop}
    (works : p.Follows clientDiscipline l.task Q) (tidy : p.Follows tidiness l R) :
    (lift p).Follows discipline l (fun a l => Q a l.task ∧ R a l) := by
  induction p generalizing l with
  | ret a => exact ⟨works, tidy⟩
  | call op rest ih =>
    refine ⟨⟨works.1, tidy.1⟩, ?_⟩
    rintro r _ rfl
    exact ih r (works.2 r _ rfl) (tidy.2 r _ rfl)

/-- A call has no socket and no stub that it would have to set up or to put back. -/
structure Ready (accepting broken : Bool) (l : Local) : Prop where
  sAccept : l.sAccept = none
  bare : l.bare = none
  closing : l.task.closing = none
  accepting : l.accepting = accepting
  broken : l.broken = broken

/-- A part of a call that leaves things as it finds them. -/
def Orderly (p : Server.Call α) : Prop :=
  ∀ accepting broken l, Ready accepting broken l →
    p.Follows tidiness l (fun _ => Ready accepting broken)

/-- The operations that leave sockets, stubs and their lists alone. -/
def Op.Quiet (op : Server.Op) : Prop :=
  op.Plain ∧ Fixed op

namespace Orderly

theorem ret (a : α) : Orderly (.ret a) := fun _ _ _ ready => ready

theorem bind {p : Server.Call α} {f : α → Server.Call β} (first : Orderly p)
    (rest : ∀ a, Orderly (f a)) : Orderly (p >>= f) := by
  intro accepting broken l ready
  exact Follows.bind ((first accepting broken l ready).mono fun a l' =>
    rest a accepting broken l')

theorem op {op : Server.Op} {f : Server.Res op → Server.Call α} (quiet : Op.Quiet op)
    (rest : ∀ r, Orderly (f r)) : Orderly (Server.perform op >>= f) := by
  intro accepting broken l ready
  obtain ⟨plain, fixed⟩ := quiet
  have tidy : Tidy l op := by
    cases op <;> trivial
  refine ⟨tidy, ?_⟩
  rintro r _ rfl
  have same : l.tend op r = l := by
    cases op <;> first | rfl | exact plain.elim | exact fixed.elim
  obtain ⟨-, -, closing, -⟩ := after_plain (l := l.task) plain r
  refine rest r accepting broken _ ?_
  simp only [Local.after, same]
  exact ⟨ready.sAccept, ready.bare, closing.trans ready.closing, ready.accepting, ready.broken⟩

theorem ite {p : Prop} [Decidable p] {a b : Server.Call α} (yes : Orderly a) (no : Orderly b) :
    Orderly (if p then a else b) := by
  split
  · exact yes
  · exact no

theorem last {op : Server.Op} (quiet : Op.Quiet op) : Orderly (Server.perform op) :=
  .op quiet fun r => .ret r

end Orderly

theorem transfer_orderly (d : Direction) (c : Client) (b : Block) (n : BitVec 32) :
    Orderly (transfer d c b n) := by
  unfold transfer
  refine .op ⟨trivial, trivial⟩ fun pdata => ?_
  refine .op ⟨trivial, trivial⟩ fun _ => ?_
  refine .op ⟨trivial, trivial⟩ fun _ => ?_
  refine .op ⟨trivial, trivial⟩ fun _ => ?_
  refine .op ⟨trivial, trivial⟩ fun _ => ?_
  refine .op ⟨trivial, trivial⟩ fun error => ?_
  cases error with
  | none => exact .op ⟨trivial, trivial⟩ fun _ => .ret _
  | some err => exact .op ⟨trivial, trivial⟩ fun _ => .ret _

theorem releaseListed_orderly (d : Direction) (c : Client) (r : Record) :
    Orderly (releaseListed d c r) := by
  unfold releaseListed
  refine .op ⟨trivial, trivial⟩ fun _ => ?_
  refine .op ⟨trivial, trivial⟩ fun found => ?_
  exact .ite (.last ⟨trivial, trivial⟩) (.ret _)

theorem releaseOperData_orderly (c : Client) (r : Record) : Orderly (releaseOperData c r) := by
  unfold releaseOperData
  refine .op ⟨trivial, trivial⟩ fun reading => ?_
  refine .ite (.bind (releaseListed_orderly .recv c r) fun _ => .ret _) ?_
  refine .op ⟨trivial, trivial⟩ fun writing => ?_
  refine .ite (.bind (releaseListed_orderly .send c r) fun _ => .ret _) ?_
  refine .op ⟨trivial, trivial⟩ fun found => ?_
  exact .ite (.ret _) (.op ⟨trivial, trivial⟩ fun _ => .ret _)

/-- The stub that has been taken off m_RealClientList loses its socket before it is free. -/
theorem removeRealClient_orderly (c : Client) : Orderly (removeRealClient c) := by
  intro accepting broken l ready
  simp only [removeRealClient, closeStub, Server.perform, perform_bind]
  refine ⟨trivial, ?_⟩
  rintro (num : Nat) _ rfl
  dsimp only
  split
  · rename_i absent
    refine ⟨ready.sAccept, ready.bare, ?_, ready.accepting, ready.broken⟩
    simpa [Local.after, Task.after_eraseRealClient, absent] using ready.closing
  · rename_i present
    have closing : (l.after (.server (.eraseRealClient c)) num).task.closing = some c := by
      simp [Local.after, Task.after_eraseRealClient, present]
    refine ⟨closing, ?_⟩
    rintro _ _ rfl
    refine ⟨trivial, ?_⟩
    rintro _ _ rfl
    refine ⟨trivial, ?_⟩
    rintro _ _ rfl
    refine ⟨rfl, ?_⟩
    rintro _ _ rfl
    exact ⟨ready.sAccept, rfl, rfl, ready.accepting, ready.broken⟩

theorem closeClient_orderly (c : Client) : Orderly (closeClient c) :=
  .bind (removeRealClient_orderly c) fun _ => .ret _

theorem clientStatusNotify_orderly (c : Client) : Orderly (clientStatusNotify c) := by
  simp only [clientStatusNotify, recvData]
  refine .op ⟨trivial, trivial⟩ fun pdata => ?_
  refine .bind (transfer_orderly .recv c pdata 4096) fun ret => ?_
  refine .ite (.bind (closeClient_orderly c) fun _ => ?_) (.ret _)
  exact .op ⟨trivial, trivial⟩ fun _ => .ret _

theorem reply_orderly (c : Client) (b : Block) (n : BitVec 32) : Orderly (reply c b n) := by
  refine .bind (transfer_orderly .send c b _) fun ret => ?_
  exact .ite (.bind (closeClient_orderly c) fun _ => .last ⟨trivial, trivial⟩) (.ret _)

theorem operateNotify_orderly (opertype : Int) (c : Client) (ret_code : BitVec 32) (b : Block)
    (n : BitVec 32) : Orderly (operateNotify opertype c ret_code b n) := by
  simp only [operateNotify]
  have release : Orderly (do
      Server.perform (.releaseMemBlock b); let _ ← closeClient c; return 0 : Server.Call Int) :=
    .op ⟨trivial, trivial⟩ fun _ => .bind (closeClient_orderly c) fun _ => .ret _
  refine .ite release (.ite (.ite ?_ release) (.ite ?_ (.ret _)))
  · refine .bind (reply_orderly c b n) fun _ => ?_
    exact .bind (clientStatusNotify_orderly c) fun _ => .ret _
  · have last : Orderly (do Server.perform (.releaseMemBlock b); return 0 : Server.Call Int) :=
      .op ⟨trivial, trivial⟩ fun _ => .ret _
    exact .ite (.bind (closeClient_orderly c) fun _ => last) last

theorem notify_orderly (c : Client) (r : Record) (ret_code transferred : BitVec 32) :
    Orderly (notify c r ret_code transferred) := by
  unfold notify
  refine .op ⟨trivial, trivial⟩ fun oper_type => ?_
  refine .op ⟨trivial, trivial⟩ fun pdatabuf => ?_
  refine .bind (releaseOperData_orderly c r) fun _ => ?_
  exact .bind (operateNotify_orderly _ c _ _ _) fun _ => .ret _

theorem workThread_orderly (lasterr : Option (BitVec 32)) (c : Client) (r : Record)
    (transferred : BitVec 32) : Orderly (workThread lasterr c r transferred) := by
  cases lasterr with
  | some lasterr => exact notify_orderly c r lasterr transferred
  | none =>
    simp only [workThread]
    refine .op ⟨trivial, trivial⟩ fun oper_type => ?_
    exact .ite (notify_orderly c r 0 transferred) (.ret _)

theorem Other.orderly {p : Server.Call Unit} (program : Other p) : Orderly p := by
  cases program with
  | workThread lasterr c r n => exact workThread_orderly lasterr c r n
  | closeClient c => exact .bind (closeClient_orderly c) fun _ => .ret _
  | transfer d c b n => exact .bind (transfer_orderly d c b n) fun _ => .ret _

/-- What an iteration leaves: when it comes to the break, it has a reason. -/
structure Iterated (ok : Bool) (l : Local) : Prop where
  accepting : l.accepting = true
  sAccept : l.sAccept = none
  task : l.task.Empty
  broken : ok = false → l.broken = true

/-- The last part of an iteration that has found a stub. -/
theorem ended {p : Server.Call Int} {ok broken : Bool}
    (works : p.Follows clientDiscipline l.task fun _ => Works c) (orderly : Orderly p)
    (ready : Ready true broken l) (reason : ok = false → broken = true) :
    (do let _ ← lift p; return ok : Call Bool).Follows discipline l Iterated := by
  refine Follows.bind ((lift_follows works (orderly _ _ _ ready)).mono ?_)
  rintro _ l' ⟨task, ready⟩
  exact ⟨ready.accepting, ready.sAccept, ⟨task.handed, task.closing⟩,
    fun left => ready.broken.trans (reason left)⟩

theorem accepted_follows (sAccept : Option Sock) (accepting : l.accepting = true)
    (has : l.sAccept = sAccept) (task : l.task = { accepted := sAccept }) :
    (accepted sAccept).Follows discipline l Iterated := by
  simp only [accepted, act, perform, perform_bind]
  have tends : Tends l.task .getFreeClient := by
    rw [task]
    exact ⟨rfl, rfl⟩
  refine ⟨⟨tends, accepting⟩, ?_⟩
  rintro pclient _ rfl
  cases pclient with
  | none =>
    -- there is no memory for a stub, and the connection is closed
    refine ⟨has, ?_⟩
    rintro _ _ rfl
    refine ⟨accepting, rfl, ?_, fun never => Bool.noConfusion never⟩
    rw [show ((l.after .getFreeClient none).after (.closesocket sAccept) ()).task = l.task from rfl,
      task]
    exact ⟨rfl, rfl⟩
  | some c =>
    have accepted : l.task.accepted = sAccept := by rw [task]
    have empty : l.task.closing = none := by rw [task]
    refine ⟨⟨⟨rfl, accepted⟩, has, rfl⟩, ?_⟩
    rintro _ _ rfl
    refine ⟨⟨⟨rfl, rfl⟩, rfl⟩, ?_⟩
    rintro _ _ rfl
    refine ⟨⟨⟨rfl, accepted⟩, trivial⟩, ?_⟩
    rintro (ok : Bool) l' after
    have works : Works c l'.task := by
      rw [after]
      exact ⟨rfl, rfl, empty⟩
    have ready : Ready true (!ok) l' := by
      rw [after]
      exact ⟨rfl, rfl, empty, accepting, rfl⟩
    cases ok with
    | true =>
      exact ended (clientStatusNotify_works works) (clientStatusNotify_orderly c) ready
        fun never => Bool.noConfusion never
    | false =>
      exact ended (removeRealClient_works works) (removeRealClient_orderly c) ready fun _ => rfl

/-- A call of AcceptThread before its first operation. -/
def Local.entering (network : Network) : Local :=
  { accepting := true, broken := network = .failed }

theorem body_follows (network : Network) :
    (body network).Follows discipline (.entering network) Iterated := by
  have goes_on : Iterated true (.entering network) :=
    ⟨rfl, rfl, ⟨rfl, rfl⟩, fun never => Bool.noConfusion never⟩
  cases network with
  | timeout => exact goes_on
  | failed => exact ⟨rfl, rfl, ⟨rfl, rfl⟩, fun _ => rfl⟩
  | events lNetworkEvents iErrorCode =>
    simp only [body]
    split
    · split
      · refine ⟨⟨rfl, rfl⟩, ?_⟩
        rintro sAccept _ rfl
        exact accepted_follows sAccept rfl rfl rfl
      · exact goes_on
    · exact goes_on

theorem iteration_follows (network : Network) :
    (iteration network).Follows discipline (.entering network) (fun _ => Idle) := by
  refine Follows.bind ((body_follows network).mono ?_)
  rintro ok l ⟨accepting, sAccept, task, broken⟩
  cases ok with
  | true =>
    refine ⟨⟨accepting, sAccept, task.1⟩, ?_⟩
    rintro _ _ rfl
    exact ⟨task, sAccept, rfl⟩
  | false =>
    refine ⟨⟨accepting, sAccept, task.1, broken rfl⟩, ?_⟩
    rintro _ _ rfl
    exact ⟨task, sAccept, rfl⟩

section Runs
variable [DecidableEq T] {s s' : Shared} {own : T → Local} {t : T}

/-- AcceptThread, or StopService, does nothing but change where it is. -/
theorem Kept.turn (kept : Kept s own) (idle : Idle (own t)) (running : Bool) (position : Position)
    (sole : Sole { s with acceptThread := position, m_bAcceptRunning := running }
      (Function.update own t l)) (task : l.task = {}) (sAccept : l.sAccept = none)
    (bare : l.bare = none) :
    Kept { s with acceptThread := position, m_bAcceptRunning := running }
      (Function.update own t l) := by
  refine ⟨?_, sockets_stay kept.sockets (fun _ => rfl) rfl rfl
    (sAccept.trans idle.sAccept.symm), kept.once, ?_, sole⟩
  · rw [Function.comp_update, task]
    exact kept.partition.congr rfl rfl idle.task.1.symm idle.task.2.symm
  · exact kept.bare.quiet (fun _ => id) rfl (by simp [bare])

theorem Kept.enter (kept : Kept s own) (idle : Idle (own t)) {e : Event} {p : Call Unit}
    (entered : enter s e = some (s', l, p)) :
    Kept s' (Function.update own t l) ∧ p.Follows discipline l (fun _ => Idle) := by
  have resting : Idle {} := ⟨⟨rfl, rfl⟩, rfl, rfl⟩
  cases e with
  | acceptThread network =>
    simp only [AcceptLoop.enter] at entered
    split at entered
    · rename_i test
      have outside : s.acceptThread ≠ .body := by simp [test]
      split at entered
      · rename_i running
        cases entered
        refine ⟨?_, iteration_follows network⟩
        exact kept.turn idle s.m_bAcceptRunning .body (kept.sole.begin outside rfl rfl) rfl rfl rfl
      · cases entered
        refine ⟨kept.turn idle s.m_bAcceptRunning .left ?_ rfl rfl rfl, resting⟩
        exact kept.sole.finish (fun u _ => kept.sole.outside outside u) rfl rfl rfl
    · contradiction
  | stopService =>
    cases entered
    refine ⟨kept.turn idle false s.acceptThread ?_ rfl rfl rfl, resting⟩
    exact kept.sole.next rfl idle.accepting.symm fun _ => ⟨rfl, rfl⟩
  | call e =>
    simp only [AcceptLoop.enter] at entered
    split at entered
    · rename_i others
      obtain ⟨⟨server, task, p⟩, begins, same⟩ := Option.map_eq_some_iff.mp entered
      cases same
      obtain ⟨-, -, -, empty, program⟩ := enterAny_begun others begins
      refine ⟨kept.call idle others begins, ?_⟩
      have tidy := program.orderly false false { task } ⟨rfl, rfl, empty.2, rfl, rfl⟩
      refine (lift_follows (enterAny_works begins) tidy).mono ?_
      rintro _ l' ⟨done, ready⟩
      exact ⟨done, ready.sAccept, ready.accepting⟩
    · contradiction

omit [DecidableEq T] in
theorem Initial.kept (first : Initial s) : Kept s (fun _ : T => {}) := by
  obtain ⟨server, -, -, closed⟩ := first
  have nowhere (p : Place T) (socket : Sock) : ¬ SockAt s (fun _ => {}) p socket := by
    cases p <;> simp [SockAt, server.clients, closed]
  refine ⟨server.partition, .empty ?_ nowhere, by simp [closed], ⟨?_, ?_, by simp⟩,
    ⟨by simp, by simp, fun _ _ => ⟨rfl, rfl⟩⟩⟩
  · simp [server.sockets.1]
  · exact fun c _ => by simp [server.clients]
  · exact fun c _ => by simp [server.clients]

theorem kept_of_run {c : Config T Shared Local Op Res} (run : (system T).Reachable c) :
    Kept c.shared c.own ∧ ∀ t, (c.code t).Follows discipline (c.own t) (fun _ => Idle) := by
  have resting : Idle {} := ⟨⟨rfl, rfl⟩, rfl, rfl⟩
  refine Semantics.invariant_of_run (I := fun c => Kept c.shared c.own) discipline resting
    ?_ ?_ ?_ run
  · rintro c ⟨first, idle⟩
    have own : c.own = fun _ => {} := funext fun t => (idle t).1
    exact own ▸ first.kept
  · exact fun c t e s' l p kept idle entered => kept.enter idle entered
  · intro c t op rest choice s' l r kept _ _ _ performed needs
    simp only [semantics, AcceptLoop.step, Option.some.injEq, Prod.mk.injEq] at performed
    obtain ⟨rfl, rfl, rfl⟩ := performed
    exact ⟨kept.step choice needs, rfl⟩

/-- Either a real client has the socket, or it has been closed, and once. -/
def Settled (s : Shared) (socket : Sock) : Prop :=
  ((∃ c ∈ s.server.m_RealClientList, (s.server.clients c).m_Socket = some socket) ∧
      socket ∉ s.closed) ∨
    (s.closed.count socket = 1 ∧ ∀ c, (s.server.clients c).m_Socket ≠ some socket)

omit [DecidableEq T] in
/-- Between two iterations, while no other call has a stub that it took off the list. -/
theorem Kept.settled (kept : Kept s own) (between : s.acceptThread ≠ .body)
    (closing : ∀ t, (own t).task.closing = none) {socket : Sock}
    (known : socket < s.server.sockets) : Settled s socket := by
  have nobody (t : T) := kept.sole.idle t (kept.sole.outside between t)
  obtain ⟨p, here⟩ := kept.sockets.total socket known
  cases p with
  | hand t =>
    have none := (nobody t).1.symm.trans here
    contradiction
  | closed =>
    refine .inr ⟨List.count_eq_one_of_mem kept.once here, fun c has => ?_⟩
    cases kept.sockets.once .closed (.stub c) socket here has
  | stub c =>
    refine .inl ⟨⟨c, ?_, here⟩, fun closed => ?_⟩
    · have has : (s.server.clients c).m_Socket = some socket := here
      have known : c < s.server.m_FreeClientList.allocated := by
        by_contra unborn
        simp [kept.bare.unborn c (Nat.le_of_not_lt unborn)] at has
      obtain ⟨place, at_⟩ := kept.partition.place.total c known
      cases place with
      | free => simp [kept.bare.free c at_] at has
      | real => exact at_
      | handed t =>
        have none := (nobody t).2.symm.trans at_
        contradiction
      | closing t =>
        have none := (closing t).symm.trans at_
        contradiction
    · cases kept.sockets.once (.stub c) .closed socket here closed

/-- Whatever fails, no socket of WSAAccept is lost or closed twice. -/
theorem settled_of_run {c : Config T Shared Local Op Res} (run : (system T).Reachable c)
    (between : c.shared.acceptThread ≠ .body) (closing : ∀ t, (c.own t).task.closing = none)
    {socket : Sock} (known : socket < c.shared.server.sockets) : Settled c.shared socket :=
  (kept_of_run run).1.settled between closing known

/-- WSAEnumNetworkEvents does not fail. -/
def Enumerates : Label T Choice Event → Prop
  | .enter _ (.acceptThread network) => network ≠ .failed
  | _ => True

/-- What CreateIoCompletionPort is called for. -/
def Op.associated : Op → Option (Option Sock)
  | .server (.createIoCompletionPort sock _) => some sock
  | _ => none

/-- While m_bAcceptRunning is set, CreateIoCompletionPort is called for an open socket and
does not fail. -/
def Associates (s : Shared) (op : Op) (choice : Choice) : Prop :=
  ∀ sock ∈ op.associated, s.m_bAcceptRunning = true →
    ∃ socket ∈ sock, socket ∈ s.server.opened ∧ choice.error = none

/-- A run in which both do not fail. -/
def Undisturbed (c : Config T Shared Local Op Res) (label : Label T Choice Event) : Prop :=
  Enumerates label ∧ Semantics.Guarded (fun s _ _ op choice => Associates s op choice) c label

/-- AcceptThread has left its loop, or has a reason to, only after StopService. -/
structure Stays (s : Shared) (own : T → Local) : Prop where
  left : s.acceptThread = .left → s.m_bAcceptRunning = false
  broken : ∀ t, (own t).broken = true → s.m_bAcceptRunning = false

namespace Stays

theorem next (stays : Stays s own)
    (running : s.m_bAcceptRunning = false → s'.m_bAcceptRunning = false)
    (left : s'.acceptThread = .left → s'.m_bAcceptRunning = false)
    (broken : l.broken = true → s'.m_bAcceptRunning = false) :
    Stays s' (Function.update own t l) := by
  refine ⟨left, fun u has => ?_⟩
  by_cases same : u = t
  · subst same
    exact broken (by simpa using has)
  · exact running (stays.broken u (by simpa [same] using has))

theorem enter (stays : Stays s own) {e : Event} {p : Call Unit}
    (enumerates : ∀ network, e = .acceptThread network → network ≠ .failed)
    (entered : enter s e = some (s', l, p)) : Stays s' (Function.update own t l) := by
  cases e with
  | acceptThread network =>
    simp only [AcceptLoop.enter] at entered
    split at entered
    · split at entered
      · cases entered
        exact stays.next id (by simp) (by simp [enumerates network rfl])
      · rename_i stopped
        cases entered
        exact stays.next id (fun _ => by simpa using stopped) (by simp)
    · contradiction
  | stopService =>
    cases entered
    exact stays.next (fun _ => rfl) (fun _ => rfl) (fun _ => rfl)
  | call e =>
    simp only [AcceptLoop.enter] at entered
    split at entered
    · obtain ⟨begun, -, same⟩ := Option.map_eq_some_iff.mp entered
      cases same
      exact stays.next id stays.left (by simp)
    · contradiction

theorem step (stays : Stays s own) {op : Op} {choice : Choice}
    (associates : Associates s op choice) (needs : Needs (own t) op) :
    Stays (s.perform choice op).1
      (Function.update own t ((own t).after op (s.perform choice op).2)) := by
  cases op with
  | leave =>
    have stopped := stays.broken t needs.2.2.2
    exact stays.next id (fun _ => stopped) fun _ => stopped
  | again => exact stays.next id (by simp [Shared.perform]) (stays.broken t)
  | closesocket sock => exact stays.next id stays.left (stays.broken t)
  | WSAAccept =>
    simp only [Shared.perform]
    split
    · exact stays.next id stays.left (stays.broken t)
    · exact stays.next id stays.left (stays.broken t)
  | getFreeClient =>
    simp only [Shared.perform]
    split
    · exact stays.next id stays.left (stays.broken t)
    · exact stays.next id stays.left (stays.broken t)
  | server op =>
    refine stays.next id stays.left fun has => ?_
    cases op
    case createIoCompletionPort sock c =>
      by_contra running
      have set : s.m_bAcceptRunning = true := by simpa [Shared.perform] using running
      obtain ⟨socket, rfl, opened, works⟩ := associates sock rfl set
      simp [Local.after, Local.tend, Shared.perform, Server.Shared.perform, opened, works] at has
    all_goals exact stays.broken t has

end Stays

theorem stays_of_run {c : Config T Shared Local Op Res}
    (run : (system T).ReachableUnder Undisturbed c) : Stays c.shared c.own := by
  have follows (c : Config T Shared Local Op Res)
      (run : (system T).ReachableUnder Undisturbed c) (t : T) :
      (c.code t).Follows discipline (c.own t) (fun _ => Idle) := (kept_of_run run.reachable).2 t
  refine (run.attach follows).invariant (P := fun c => Stays c.shared c.own) ?_ ?_
  · rintro c ⟨first, idle⟩
    refine ⟨fun left => ?_, fun t has => ?_⟩
    · rw [first.acceptThread] at left
      contradiction
    · rw [(idle t).1] at has
      contradiction
  · rintro c label c' stays ⟨⟨enumerates, guarded⟩, follows⟩ taken
    cases label with
    | enter t e =>
      simp only [system, Semantics.system, Semantics.next] at taken
      split at taken
      · obtain ⟨⟨s', l, p⟩, entered, rfl⟩ := Option.map_eq_some_iff.mp taken
        refine stays.enter ?_ entered
        rintro network rfl
        exact enumerates
      · contradiction
    | step t choice =>
      simp only [system, Semantics.system, Semantics.next] at taken
      split at taken
      · contradiction
      · rename_i op rest code
        have needs := follows t
        simp only [Semantics.Guarded, code] at guarded
        simp only [code, follows_call] at needs
        obtain ⟨⟨s', l, r⟩, performed, rfl⟩ := Option.map_eq_some_iff.mp taken
        cases performed
        exact stays.step guarded needs.1

/-- The accept loop survives: AcceptThread leaves it only when m_bAcceptRunning is cleared, and
between two iterations every socket of WSAAccept is the one of a real client or has been closed
once, while no other call is closing a client. -/
structure Survives (c : Config T Shared Local Op Res) : Prop where
  left : c.shared.acceptThread = .left → c.shared.m_bAcceptRunning = false
  settled : c.shared.acceptThread ≠ .body → (∀ t, (c.own t).task.closing = none) →
    ∀ socket < c.shared.server.sockets, Settled c.shared socket

/-- As long as WSAEnumNetworkEvents and CreateIoCompletionPort do not fail. -/
theorem loop_survives {c : Config T Shared Local Op Res}
    (run : (system T).ReachableUnder Undisturbed c) : Survives c :=
  ⟨(stays_of_run run).left, fun between closing _ known =>
    settled_of_run run.reachable between closing known⟩

end Runs

instance (label : Label T Choice Event) : Decidable (Enumerates label) :=
  match label with
  | .enter _ (.acceptThread network) => inferInstanceAs (Decidable (network ≠ .failed))
  | .enter _ .stopService | .enter _ (.call _) | .step _ _ => .isTrue trivial

instance (s : Shared) (op : Op) (choice : Choice) : Decidable (Associates s op choice) :=
  inferInstanceAs (Decidable (∀ sock ∈ op.associated, s.m_bAcceptRunning = true →
    ∃ socket ∈ sock, socket ∈ s.server.opened ∧ choice.error = none))

instance (c : Config T Shared Local Op Res) (label : Label T Choice Event) :
    Decidable (Undisturbed c label) :=
  inferInstanceAs (Decidable (_ ∧ _))

/-- The server after StartService. -/
def listening : Config Bool Shared Local Op Res where
  shared := ⟨started.shared, true, .test, []⟩
  own _ := {}
  code _ := .ret ()

theorem listening_initial : Initial listening.shared ∧ ∀ t, listening.own t = {} ∧
    listening.code t = .ret () :=
  ⟨⟨started_initial.1, rfl, rfl, rfl⟩, fun _ => ⟨rfl, rfl⟩⟩

/-- Two clients connect, the first one is closed, and StopService begins. -/
def stopping : List (Label Bool Choice Event) :=
  calling false (.acceptThread (.events FD_ACCEPT 0)) 14 ++
    calling true (.call (.inl (.closeClient 0))) 5 ++
    calling false (.acceptThread (.events FD_ACCEPT 0)) 14 ++
    calling true .stopService 0 ++ calling false (.acceptThread .timeout) 0

theorem stopping_runs : ((system Bool).runUnder Undisturbed listening stopping).map (fun c =>
    decide (c.shared.acceptThread = .left ∧ c.shared.closed = [0] ∧
      c.shared.server.m_RealClientList = [1] ∧ (c.shared.server.clients 1).m_Socket = some 1)) =
        some true := by
  decide +kernel

theorem loop_survives_until_stopped : ∃ c : Config Bool Shared Local Op Res,
    c.shared.acceptThread = .left ∧ c.shared.closed = [0] ∧
      c.shared.server.m_RealClientList = [1] ∧ Survives c := by
  obtain ⟨c, ran, ended⟩ := Option.map_eq_some_iff.mp stopping_runs
  obtain ⟨left, closed, real, -⟩ := of_decide_eq_true ended
  exact ⟨c, left, closed, real,
    loop_survives (System.runUnder_reachable (.initial listening_initial) ran)⟩

/-- The client is gone before WSAAccept, which returns INVALID_SOCKET. -/
def aborted : List (Label Bool Choice Event) :=
  [.enter false (.acceptThread (.events FD_ACCEPT 0)), .step false { error := some 0 }] ++
    List.replicate 10 (.step false {})

theorem aborted_runs : ((system Bool).runUnder (fun _ => Enumerates) listening aborted).map
    (fun c => decide (c.shared.acceptThread = .left ∧ c.shared.m_bAcceptRunning = true)) =
      some true := by
  decide +kernel

theorem loop_left_after_abort : ¬ ∀ c : Config Bool Shared Local Op Res,
    (system Bool).ReachableUnder (fun _ => Enumerates) c → Survives c := by
  intro survives
  obtain ⟨c, ran, ended⟩ := Option.map_eq_some_iff.mp aborted_runs
  obtain ⟨left, running⟩ := of_decide_eq_true ended
  have reached := System.runUnder_reachable (.initial listening_initial) ran
  have cleared := (survives c reached).left left
  exact Bool.noConfusion (running.symm.trans cleared)

end TestIOCP.Server.AcceptLoop
