import TestIOCP.Server.Connections
import TestIOCP.Server.AcceptLoop

/-! Where the sockets of WSAAccept are, whatever the order of the steps of AcceptThread and
of the other threads. -/
namespace TestIOCP.Server.AcceptLoop
open Transition Program

variable {T α β : Type}

/-- Where a socket is. -/
inductive Place (T : Type) where
  | stub (c : Client)
  | closed
  | hand (t : T)

def SockAt (s : Shared) (own : T → Local) : Place T → Sock → Prop
  | .stub c, socket => (s.server.clients c).m_Socket = some socket
  | .closed, socket => socket ∈ s.closed
  | .hand t, socket => (own t).sAccept = some socket

/-- A stub has a socket only while it is in m_RealClientList or in the hands of a call. -/
structure Bare (s : Shared) (own : T → Local) : Prop where
  free : ∀ c ∈ s.server.m_FreeClientList.free, (s.server.clients c).m_Socket = none
  unborn : ∀ c, s.server.m_FreeClientList.allocated ≤ c → (s.server.clients c).m_Socket = none
  held : ∀ t c, (own t).bare = some c → (s.server.clients c).m_Socket = none ∧
    ((own t).task.handed = some c ∨ (own t).task.closing = some c)

/-- Only AcceptThread has sockets and stubs that are not set up. -/
structure Sole (s : Shared) (own : T → Local) : Prop where
  one : ∀ t u, (own t).accepting = true → (own u).accepting = true → t = u
  body : ∀ t, (own t).accepting = true → s.acceptThread = .body
  idle : ∀ t, (own t).accepting = false → (own t).sAccept = none ∧ (own t).task.handed = none

structure Kept (s : Shared) (own : T → Local) : Prop where
  partition : Partition s.server (Local.task ∘ own)
  sockets : Accounted (SockAt s own) (· < s.server.sockets)
  once : s.closed.Nodup
  bare : Bare s own
  sole : Sole s own

/-- What a call must have to move a socket or a stub. -/
def Tidy (l : Local) : Server.Op → Prop
  | .getFreeClient => False
  | .initClient c sock => l.sAccept = sock ∧ l.bare = some c
  | .addRealClient _ => l.bare = none
  | .closeSocket c => l.task.closing = some c
  | .pushFreeClient c => l.bare = some c
  | _ => True

/-- The same for all operations of the loop. -/
def Needs (l : Local) : Op → Prop
  | .server op => Tends l.task op ∧ Tidy l op
  | .WSAAccept => l.sAccept = none ∧ l.accepting = true
  | .getFreeClient => Tends l.task .getFreeClient ∧ l.accepting = true
  | .closesocket sock => l.sAccept = sock
  | .again => l.accepting = true ∧ l.sAccept = none ∧ l.task.handed = none
  | .leave => l.accepting = true ∧ l.sAccept = none ∧ l.task.handed = none ∧ l.broken = true

def discipline : Discipline Local Op Res where
  pre := Needs
  post l op r l' := l' = l.after op r

/-- A call can end. -/
structure Idle (l : Local) : Prop where
  task : l.task.Empty
  sAccept : l.sAccept = none
  accepting : l.accepting = false

variable {s s' : Shared} {own : T → Local} {t : T} {l : Local} {c : Client}

/-- Operations that give no stub a socket and take none away. -/
def Fixed : Server.Op → Prop
  | .initClient _ _ | .closeSocket _ => False
  | _ => True

theorem perform_fixed {s : Server.Shared} {op : Server.Op} (choice : Choice) (fixed : Fixed op)
    (c : Client) : ((s.perform choice op).1.clients c).m_Socket = (s.clients c).m_Socket := by
  cases op <;> simp only [Fixed] at fixed
  case post c' d r =>
    simp only [Server.Shared.perform]
    split
    · rfl
    · split
      · rfl
      · split <;> rfl
  case findErase c' d r =>
    simp only [Server.Shared.perform]
    split
    · exact setList_socket s c' c d _
    · rfl
  case createIoCompletionPort sock c' =>
    simp only [Server.Shared.perform]
    split
    · rfl
    · split <;> rfl
  case insert c' d r => exact setList_socket s c' c d _
  case erase c' d r => exact setList_socket s c' c d _
  case drain c' d => exact setList_socket s c' c d _
  all_goals rfl

theorem perform_sockets {s : Server.Shared} (choice : Choice) (op : Server.Op) :
    (s.perform choice op).1.sockets = s.sockets := by
  by_cases plain : op.Plain
  · exact (perform_plain choice plain).sockets
  · cases op <;> simp only [Op.Plain, not_true_eq_false] at plain
    case createIoCompletionPort sock c =>
      simp only [Server.Shared.perform]
      split
      · rfl
      · split <;> rfl
    all_goals rfl

theorem tend_fixed {op : Server.Op} (fixed : Fixed op) (r : Server.Res op) :
    (l.tend op r).sAccept = l.sAccept := by
  cases op <;> first | exact fixed.elim | rfl

@[simp] theorem tend_accepting (op : Server.Op) (r : Server.Res op) :
    (l.tend op r).accepting = l.accepting := by
  cases op <;> rfl

theorem tend_bare {op : Server.Op} (still : op.Still) (fixed : Fixed op) (r : Server.Res op) :
    (l.tend op r).bare = l.bare := by
  cases op <;> first | exact fixed.elim | exact still.elim | rfl

theorem closes_fixed {s : Server.Shared} {op : Server.Op} (fixed : Fixed op) :
    closes s op = none := by
  cases op <;> first | exact fixed.elim | rfl

theorem after_handed {l : Task} {op : Server.Op} (other : op ≠ .getFreeClient) (r : Server.Res op) :
    (l.after op r).handed = l.handed ∨ (l.after op r).handed = none := by
  by_cases still : op.Still
  · exact .inl (after_still still r).1
  · cases op <;> simp only [Op.Still, not_true_eq_false] at still
    case getFreeClient => exact absurd rfl other
    case addRealClient c => exact .inr rfl
    case eraseRealClient c =>
      obtain ⟨closing, same⟩ := l.after_eraseRealClient_same c r
      rw [same]
      exact .inl rfl
    all_goals exact .inl rfl

/-- The calls of other threads. -/
inductive Other : Server.Call Unit → Prop where
  | workThread (lasterr : Option (BitVec 32)) (c : Client) (r : Record) (n : BitVec 32) :
    Other (workThread lasterr c r n)
  | closeClient (c : Client) : Other (do let _ ← closeClient c)
  | transfer (d : Direction) (c : Client) (b : Block) (n : BitVec 32) :
    Other (do let _ ← transfer d c b n)

/-- How a call of another thread begins. -/
structure Begun (s s' : Server.Shared) (l : Task) (p : Server.Call Unit) : Prop where
  clients : s'.clients = s.clients
  sockets : s'.sockets = s.sockets
  lists : s'.m_FreeClientList = s.m_FreeClientList
  empty : l.Empty
  program : Other p

theorem enterAny_begun {s s' : Server.Shared} {l : Task} {e : Server.Event ⊕ Request}
    {p : Server.Call Unit} (others : other e = true)
    (entered : enterAny s e = some (s', l, p)) : Begun s s' l p := by
  cases e with
  | inl e =>
    cases e with
    | accept invalid => contradiction
    | dequeue posted lasterr transferred =>
      simp only [enterAny, Server.enter] at entered
      split at entered
      · contradiction
      split at entered
      · cases entered
        exact ⟨rfl, rfl, rfl, ⟨rfl, rfl⟩, .workThread _ _ _ _⟩
      · contradiction
    | closeClient c =>
      simp only [enterAny, Server.enter] at entered
      split at entered
      · cases entered
        exact ⟨rfl, rfl, rfl, ⟨rfl, rfl⟩, .closeClient c⟩
      · contradiction
  | inr request =>
    simp only [enterAny] at entered
    split at entered
    · cases entered
      exact ⟨rfl, rfl, rfl, ⟨rfl, rfl⟩, .transfer _ _ _ _⟩
    · contradiction

section Steps
variable [DecidableEq T]

/-- No socket goes anywhere. -/
theorem sockets_stay (sockets : Accounted (SockAt s own) (· < s.server.sockets))
    (stubs : ∀ c, (s'.server.clients c).m_Socket = (s.server.clients c).m_Socket)
    (closed : s'.closed = s.closed) (number : s'.server.sockets = s.server.sockets)
    (sAccept : l.sAccept = (own t).sAccept) :
    Accounted (SockAt s' (Function.update own t l)) (· < s'.server.sockets) := by
  rw [number]
  refine sockets.congr fun p socket => ?_
  cases p with
  | stub c => simp [SockAt, stubs]
  | closed => simp [SockAt, closed]
  | hand u =>
    by_cases same : u = t
    · subst same
      simp [SockAt, sAccept]
    · simp [SockAt, same]

/-- WSAAccept returns a socket. -/
theorem sockets_accept (sockets : Accounted (SockAt s own) (· < s.server.sockets))
    (none : (own t).sAccept = none) (stubs : s'.server.clients = s.server.clients)
    (closed : s'.closed = s.closed) (number : s'.server.sockets = s.server.sockets + 1)
    (sAccept : l.sAccept = some s.server.sockets) :
    Accounted (SockAt s' (Function.update own t l)) (· < s'.server.sockets) := by
  refine sockets.create (r := s.server.sockets) (p := .hand t) (Nat.lt_irrefl _) ?_ ?_
  · intro socket
    rw [number]
    exact Nat.lt_succ_iff.trans (Nat.le_iff_lt_or_eq.trans or_comm)
  · intro p socket
    have other : SockAt s own p socket → socket ≠ s.server.sockets :=
      fun here => Nat.ne_of_lt (sockets.known p socket here)
    cases p with
    | stub c => simpa [SockAt, stubs] using other
    | closed => simpa [SockAt, closed] using other
    | hand u =>
      by_cases same : u = t
      · subst same
        simp [SockAt, sAccept, none, eq_comm]
      · simpa [SockAt, same] using other

/-- A stub gets the socket of the call. -/
theorem sockets_give {socket : Sock} (sockets : Accounted (SockAt s own) (· < s.server.sockets))
    (has : (own t).sAccept = some socket) (bare : (s.server.clients c).m_Socket = none)
    (stubs : s'.server.clients = (s.server.setSocket c (some socket)).clients)
    (closed : s'.closed = s.closed) (number : s'.server.sockets = s.server.sockets)
    (sAccept : l.sAccept = none) :
    Accounted (SockAt s' (Function.update own t l)) (· < s'.server.sockets) := by
  have here : SockAt s own (.hand t) socket := has
  rw [number]
  refine sockets.move (r := socket) (p := .stub c) (sockets.known _ _ here) fun p k => ?_
  have other := fun at_ => sockets.apart (q := p) (x := k) here at_
  cases p with
  | stub c' =>
    by_cases same : c' = c
    · subst same
      simp [SockAt, stubs, Server.Shared.setSocket, bare, eq_comm]
    · simpa [SockAt, stubs, Server.Shared.setSocket, same] using fun at_ => other at_ (by simp)
  | closed => simpa [SockAt, closed] using fun at_ => other at_ (by simp)
  | hand u =>
    by_cases same : u = t
    · subst same
      simp [SockAt, sAccept, has, eq_comm]
    · simpa [SockAt, same] using fun at_ => other at_ (by simpa using same)

/-- closesocket is called for the socket of a stub or for the one in the hands of the call. -/
theorem sockets_close {p : Place T} {socket : Sock}
    (sockets : Accounted (SockAt s own) (· < s.server.sockets)) (here : SockAt s own p socket)
    (only : ∀ k, SockAt s own p k → k = socket) (closed : s'.closed = socket :: s.closed)
    (number : s'.server.sockets = s.server.sockets)
    (gone : ∀ q k, q ≠ .closed →
      (SockAt s' (Function.update own t l) q k ↔ q ≠ p ∧ SockAt s own q k)) :
    Accounted (SockAt s' (Function.update own t l)) (· < s'.server.sockets) := by
  rw [number]
  refine sockets.move (r := socket) (p := .closed) (sockets.known _ _ here) fun q k => ?_
  by_cases atClosed : q = .closed
  · subst atClosed
    by_cases same : k = socket <;> simp [SockAt, closed, same]
  · rw [gone q k atClosed]
    constructor
    · rintro ⟨other, there⟩
      exact .inr ⟨sockets.apart here there other, there⟩
    · rintro (⟨-, same⟩ | ⟨other, there⟩)
      · exact absurd same atClosed
      · refine ⟨?_, there⟩
        rintro rfl
        exact other (only k there)

/-- What a step does to the stubs without a socket. -/
theorem Bare.next (bare : Bare s own)
    (free : ∀ c ∈ s'.server.m_FreeClientList.free, (s'.server.clients c).m_Socket = none)
    (unborn : ∀ c, s'.server.m_FreeClientList.allocated ≤ c →
      (s'.server.clients c).m_Socket = none)
    (others : ∀ u c, u ≠ t → (own u).bare = some c → (s'.server.clients c).m_Socket = none)
    (self : ∀ c, l.bare = some c → (s'.server.clients c).m_Socket = none ∧
      (l.task.handed = some c ∨ l.task.closing = some c)) : Bare s' (Function.update own t l) := by
  refine ⟨free, unborn, fun u c has => ?_⟩
  by_cases same : u = t
  · subst same
    simp only [Function.update_self] at has ⊢
    exact self c has
  · simp only [Function.update_of_ne same] at has ⊢
    exact ⟨others u c same has, (bare.held u c has).2⟩

/-- No stub gets a socket, and the lists stay as they are. -/
theorem Bare.quiet (bare : Bare s own)
    (stubs : ∀ c, (s.server.clients c).m_Socket = none → (s'.server.clients c).m_Socket = none)
    (lists : s'.server.m_FreeClientList = s.server.m_FreeClientList)
    (self : ∀ c, l.bare = some c → (s'.server.clients c).m_Socket = none ∧
      (l.task.handed = some c ∨ l.task.closing = some c)) : Bare s' (Function.update own t l) := by
  refine bare.next ?_ ?_ ?_ self
  · rw [lists]
    exact fun c inside => stubs c (bare.free c inside)
  · rw [lists]
    exact fun c later => stubs c (bare.unborn c later)
  · exact fun u c _ has => stubs c (bare.held u c has).1

theorem Sole.next (sole : Sole s own) (position : s'.acceptThread = s.acceptThread)
    (accepting : l.accepting = (own t).accepting)
    (idle : l.accepting = false → l.sAccept = none ∧ l.task.handed = none) :
    Sole s' (Function.update own t l) := by
  have same (u : T) : (Function.update own t l u).accepting = (own u).accepting := by
    by_cases at_ : u = t
    · subst at_
      simpa using accepting
    · simp [at_]
  constructor
  · intro u v has has'
    rw [same] at has has'
    exact sole.one u v has has'
  · intro u has
    rw [same] at has
    exact position.trans (sole.body u has)
  · intro u none
    by_cases at_ : u = t
    · subst at_
      simp only [Function.update_self] at none ⊢
      exact idle none
    · simp only [Function.update_of_ne at_] at none ⊢
      exact sole.idle u none

/-- There is no iteration any more. -/
theorem Sole.finish (sole : Sole s own) (others : ∀ u, u ≠ t → (own u).accepting = false)
    (done : l.accepting = false) (sAccept : l.sAccept = none) (handed : l.task.handed = none) :
    Sole s' (Function.update own t l) := by
  have nobody (u : T) : (Function.update own t l u).accepting = false := by
    by_cases at_ : u = t
    · subst at_
      simpa using done
    · simpa [at_] using others u at_
  refine ⟨fun u v has => ?_, fun u has => ?_, fun u none => ?_⟩
  · rw [nobody] at has
    contradiction
  · rw [nobody] at has
    contradiction
  · by_cases at_ : u = t
    · subst at_
      simpa using ⟨sAccept, handed⟩
    · simp only [Function.update_of_ne at_] at none ⊢
      exact sole.idle u none

omit [DecidableEq T] in
theorem Sole.others (sole : Sole s own) (accepting : (own t).accepting = true) (u : T)
    (other : u ≠ t) : (own u).accepting = false := by
  by_contra has
  exact other (sole.one u t (by simpa using has) accepting)

omit [DecidableEq T] in
theorem Sole.outside (sole : Sole s own) (test : s.acceptThread ≠ .body) (u : T) :
    (own u).accepting = false := by
  by_contra has
  exact test (sole.body u (by simpa using has))

/-- An iteration begins. -/
theorem Sole.begin (sole : Sole s own) (test : s.acceptThread ≠ .body)
    (body : s'.acceptThread = .body) (accepting : l.accepting = true) :
    Sole s' (Function.update own t l) := by
  have only (u : T) (has : (Function.update own t l u).accepting = true) : u = t := by
    by_contra other
    simp [other, sole.outside test u] at has
  refine ⟨fun u v has has' => (only u has).trans (only v has').symm, fun u _ => body, ?_⟩
  intro u none
  by_cases at_ : u = t
  · subst at_
    simp [accepting] at none
  · simp only [Function.update_of_ne at_] at none ⊢
    exact sole.idle u none

namespace Kept

omit [DecidableEq T] in
/-- A stub that a call has is in no list. -/
theorem hold (kept : Kept s own) (held : (own t).task.handed = some c ∨
    (own t).task.closing = some c) : c < s.server.m_FreeClientList.allocated ∧
      c ∉ s.server.m_FreeClientList.free ∧ ∀ u, ((own u).task.handed = some c ∨
        (own u).task.closing = some c) → u = t := by
  have place : ∃ p : StubPlace T, ClientAt s.server (Local.task ∘ own) p c ∧
      (p = .handed t ∨ p = .closing t) := by
    rcases held with handed | closing
    · exact ⟨.handed t, handed, .inl rfl⟩
    · exact ⟨.closing t, closing, .inr rfl⟩
  obtain ⟨p, here, form⟩ := place
  refine ⟨kept.partition.place.known _ _ here, fun free => ?_, fun u held' => ?_⟩
  · have same := kept.partition.place.once p .free c here free
    rcases form with rfl | rfl <;> cases same
  · rcases held' with handed | closing
    · have same := kept.partition.place.once p (.handed u) c here handed
      rcases form with rfl | rfl <;> cases same
      rfl
    · have same := kept.partition.place.once p (.closing u) c here closing
      rcases form with rfl | rfl <;> cases same
      rfl

/-- What an operation of the server leaves of a call. -/
abbrev tended (s : Shared) (l : Local) (op : Server.Op) (choice : Choice) : Local :=
  l.after (.server op) (s.server.perform choice op).2

theorem server_sockets (kept : Kept s own) {op : Server.Op} (choice : Choice)
    (tidy : Tidy (own t) op) : Accounted (SockAt (s.perform choice (.server op)).1
      (Function.update own t (tended s (own t) op choice)))
      (· < (s.perform choice (.server op)).1.server.sockets) := by
  by_cases fixed : Fixed op
  · exact sockets_stay kept.sockets (perform_fixed choice fixed)
      (by simp [Shared.perform, closes_fixed fixed]) (perform_sockets choice op)
        (tend_fixed fixed _)
  · cases op <;> simp only [Fixed, not_true_eq_false] at fixed
    case initClient c sock =>
      obtain ⟨has, bare⟩ := tidy
      have none := (kept.bare.held t c bare).1
      cases sock with
      | none =>
        refine sockets_stay kept.sockets (fun c' => ?_) rfl rfl has.symm
        by_cases same : c' = c
        · subst same
          simp [Shared.perform, Server.Shared.perform, Server.Shared.setSocket, none]
        · simp [Shared.perform, Server.Shared.perform, Server.Shared.setSocket, same]
      | some socket => exact sockets_give kept.sockets has none rfl rfl rfl rfl
    case closeSocket c =>
      cases has : (s.server.clients c).m_Socket with
      | none =>
        refine sockets_stay kept.sockets (fun c' => ?_) ?_ ?_ rfl
        all_goals simp [Shared.perform, Server.Shared.perform, closes, has]
      | some socket =>
        refine sockets_close (p := .stub c) kept.sockets has ?_ ?_ ?_ ?_
        · exact fun k there => Option.some.inj (there.symm.trans has)
        · simp [Shared.perform, closes, has]
        · simp [Shared.perform, Server.Shared.perform, has, Server.Shared.setSocket]
        · intro q k elsewhere
          cases q with
          | closed => exact absurd rfl elsewhere
          | hand u =>
            by_cases same : u = t
            · subst same
              simp [SockAt, Local.after, Local.tend]
            · simp [SockAt, same]
          | stub c' =>
            by_cases same : c' = c
            · subst same
              simp [SockAt, Shared.perform, Server.Shared.perform, has, Server.Shared.setSocket]
            · simp [SockAt, Shared.perform, Server.Shared.perform, has, Server.Shared.setSocket,
                same]

omit [DecidableEq T] in
theorem server_once (kept : Kept s own) (op : Server.Op) :
    ((closes s.server op).toList ++ s.closed).Nodup := by
  cases closing : closes s.server op with
  | none => exact kept.once
  | some socket =>
    refine List.nodup_cons.mpr ⟨fun closed => ?_, kept.once⟩
    cases op <;> simp only [closes, reduceCtorEq] at closing
    case closeSocket c =>
      have here : SockAt s own (.stub c) socket := closing
      cases kept.sockets.once _ .closed socket here closed

theorem server_bare (kept : Kept s own) {op : Server.Op} (choice : Choice)
    (tends : Tends (own t).task op) (tidy : Tidy (own t) op) :
    Bare (s.perform choice (.server op)).1
      (Function.update own t (tended s (own t) op choice)) := by
  have bare := kept.bare
  by_cases still : op.Still
  · by_cases fixed : Fixed op
    · have stubs (c : Client) : ((s.server.perform choice op).1.clients c).m_Socket =
          (s.server.clients c).m_Socket := perform_fixed choice fixed c
      refine bare.quiet (fun c none => (stubs c).trans none) (perform_still choice still).1 ?_
      intro c has
      obtain ⟨handed, closing⟩ := after_still (l := (own t).task) still
        (s.server.perform choice op).2
      have held := bare.held t c ((tend_bare still fixed _).symm.trans has)
      exact ⟨(stubs c).trans held.1, held.2.imp handed.trans closing.trans⟩
    · cases op <;> simp only [Fixed, not_true_eq_false] at fixed
      case initClient c sock =>
        obtain ⟨below, away, only⟩ := kept.hold (bare.held t c tidy.2).2
        have others (c' : Client) (other : c' ≠ c) :
            (((s.perform choice (.server (.initClient c sock))).1.server.clients c').m_Socket) =
              (s.server.clients c').m_Socket := by
          simp [Shared.perform, Server.Shared.perform, Server.Shared.setSocket, other]
        refine bare.next ?_ ?_ ?_ (by simp [Local.after, Local.tend])
        · intro c' free
          refine (others c' ?_).trans (bare.free c' free)
          rintro rfl
          exact away free
        · intro c' later
          refine (others c' ?_).trans (bare.unborn c' later)
          rintro rfl
          exact Nat.not_le_of_gt below later
        · intro u c' other has
          refine (others c' ?_).trans (bare.held u c' has).1
          rintro rfl
          exact other (only u (bare.held u c' has).2)
      case closeSocket c =>
        have lost (c' : Client) (gone : c' = c ∨ (s.server.clients c').m_Socket = none) :
            ((s.perform choice (.server (.closeSocket c))).1.server.clients c').m_Socket =
              none := by
          simp only [Shared.perform, Server.Shared.perform]
          split
          · rename_i had
            rcases gone with rfl | bare
            · exact had
            · exact bare
          · by_cases same : c' = c
            · subst same
              simp [Server.Shared.setSocket]
            · simpa [Server.Shared.setSocket, same] using gone
        refine bare.quiet (fun c' none => lost c' (.inr none)) (perform_still choice still).1 ?_
        rintro c' ⟨⟩
        exact ⟨lost c (.inl rfl), .inr tidy⟩
  · cases op <;> simp only [Op.Still, not_true_eq_false] at still
    case getFreeClient => exact tidy.elim
    case clearRealClients => exact tends.elim
    case addRealClient c =>
      refine bare.quiet (fun _ => id) rfl fun c' has => ?_
      have none : (own t).bare = none := tidy
      rw [show (tended s (own t) (.addRealClient c) choice).bare = (own t).bare from rfl,
        none] at has
      contradiction
    case eraseRealClient c =>
      refine bare.quiet (fun _ => id) rfl fun c' has => ?_
      obtain ⟨none, held⟩ := bare.held t c' has
      refine ⟨none, ?_⟩
      rcases held with handed | closing
      · left
        obtain ⟨closing, same⟩ := (own t).task.after_eraseRealClient_same c
          (s.server.perform choice (.eraseRealClient c)).2
        simp only [Local.after, same, handed]
      · have free := closing.symm.trans tends.2
        contradiction
    case pushFreeClient c =>
      refine bare.next (fun c' inside => ?_) bare.unborn (fun u c' _ has => (bare.held u c' has).1)
        (by simp [Local.after, Local.tend])
      rcases List.mem_append.mp inside with free | given
      · exact bare.free c' free
      · obtain rfl := List.mem_singleton.mp given
        exact (bare.held t c' tidy).1

theorem server_sole (kept : Kept s own) {op : Server.Op} (choice : Choice)
    (tidy : Tidy (own t) op) : Sole (s.perform choice (.server op)).1
      (Function.update own t (tended s (own t) op choice)) := by
  refine kept.sole.next rfl (tend_accepting op _) fun none => ?_
  rw [show (tended s (own t) op choice).accepting = (own t).accepting from
    tend_accepting op _] at none
  obtain ⟨sAccept, handed⟩ := kept.sole.idle t none
  constructor
  · by_cases fixed : Fixed op
    · exact (tend_fixed fixed _).trans sAccept
    · cases op <;> simp only [Fixed, not_true_eq_false] at fixed
      case initClient => rfl
      case closeSocket => exact sAccept
  · have other : op ≠ .getFreeClient := by
      rintro rfl
      exact tidy
    rcases after_handed (l := (own t).task) other (s.server.perform choice op).2 with same | none
    · exact same.trans handed
    · exact none

theorem server (kept : Kept s own) {op : Server.Op} (choice : Choice)
    (tends : Tends (own t).task op) (tidy : Tidy (own t) op) :
    Kept (s.perform choice (.server op)).1
      (Function.update own t (tended s (own t) op choice)) := by
  refine ⟨?_, kept.server_sockets choice tidy, kept.server_once op,
    kept.server_bare choice tends tidy, kept.server_sole choice tidy⟩
  rw [Function.comp_update]
  exact kept.partition.step tends

/-- A step of a call that has no effect on stubs. -/
theorem quiet (kept : Kept s own) (lists : s'.server.m_FreeClientList = s.server.m_FreeClientList)
    (real : s'.server.m_RealClientList = s.server.m_RealClientList)
    (clients : s'.server.clients = s.server.clients)
    (sockets : Accounted (SockAt s' (Function.update own t l)) (· < s'.server.sockets))
    (once : s'.closed.Nodup) (handed : l.task.handed = (own t).task.handed)
    (closing : l.task.closing = (own t).task.closing) (bare : l.bare = (own t).bare)
    (sole : Sole s' (Function.update own t l)) : Kept s' (Function.update own t l) := by
  refine ⟨?_, sockets, once, ?_, sole⟩
  · rw [Function.comp_update]
    exact kept.partition.congr lists real handed closing
  · refine kept.bare.quiet (by simp [clients]) lists fun c has => ?_
    rw [bare] at has
    rw [handed, closing, clients]
    exact kept.bare.held t c has

theorem accept (kept : Kept s own) (choice : Choice) (needs : Needs (own t) .WSAAccept) :
    Kept (s.perform choice .WSAAccept).1 (Function.update own t
      ((own t).after .WSAAccept (s.perform choice .WSAAccept).2)) := by
  obtain ⟨none, accepting⟩ := needs
  have sole {s' : Shared} (sAccept : Option Sock) (position : s'.acceptThread = s.acceptThread) :
      Sole s' (Function.update own t ((own t).after .WSAAccept sAccept)) := by
    refine kept.sole.next position rfl fun idle => ?_
    have both : true = false := accepting.symm.trans idle
    contradiction
  simp only [Shared.perform]
  split
  · exact kept.quiet rfl rfl rfl (sockets_accept kept.sockets none rfl rfl rfl rfl) kept.once
      rfl rfl rfl (sole _ rfl)
  · exact kept.quiet rfl rfl rfl (sockets_stay kept.sockets (fun _ => rfl) rfl rfl none.symm)
      kept.once rfl rfl rfl (sole _ rfl)

theorem getFreeClient (kept : Kept s own) (choice : Choice)
    (needs : Needs (own t) .getFreeClient) :
    Kept (s.perform choice .getFreeClient).1 (Function.update own t
      ((own t).after .getFreeClient (s.perform choice .getFreeClient).2)) := by
  obtain ⟨tends, accepting⟩ := needs
  simp only [Shared.perform]
  split
  · simpa [Local.after] using kept
  · have pool := Pool.take_taken 1000 (by omega) kept.partition.freeOnce
      (fun c free => kept.partition.place.known .free c free)
    have listed (c : Client) (from_ : c ∈ s.server.m_FreeClientList.free ∨
        s.server.m_FreeClientList.allocated ≤ c ∧
          c < (s.server.m_FreeClientList.take 1000).2.allocated) :
        (s.server.clients c).m_Socket = none := by
      rcases from_ with free | new
      · exact kept.bare.free c free
      · exact kept.bare.unborn c new.1
    refine ⟨?_, sockets_stay kept.sockets (fun _ => rfl) rfl rfl rfl, kept.once, ?_, ?_⟩
    · rw [Function.comp_update]
      exact kept.partition.step tends
    · refine kept.bare.next ?_ ?_ ?_ ?_
      · exact fun c inside => listed c ((pool.rest c).mp inside).2
      · exact fun c later => kept.bare.unborn c (pool.grown.trans later)
      · exact fun u c _ has => (kept.bare.held u c has).1
      · rintro c ⟨⟩
        exact ⟨listed _ pool.source, .inl rfl⟩
    · refine kept.sole.next rfl rfl fun idle => ?_
      have both : true = false := accepting.symm.trans idle
      contradiction

theorem closesocket (kept : Kept s own) (choice : Choice) {sock : Option Sock}
    (needs : Needs (own t) (.closesocket sock)) :
    Kept (s.perform choice (.closesocket sock)).1
      (Function.update own t ((own t).after (.closesocket sock) ())) := by
  have has : (own t).sAccept = sock := needs
  have sole {s' : Shared} (position : s'.acceptThread = s.acceptThread) :
      Sole s' (Function.update own t ((own t).after (.closesocket sock) ())) :=
    kept.sole.next position rfl fun idle => ⟨rfl, (kept.sole.idle t idle).2⟩
  cases sock with
  | none =>
    exact kept.quiet rfl rfl rfl (sockets_stay kept.sockets (fun _ => rfl) rfl rfl has.symm)
      kept.once rfl rfl rfl (sole rfl)
  | some socket =>
    have here : SockAt s own (.hand t) socket := has
    have fresh : socket ∉ s.closed := fun closed => by
      cases kept.sockets.once _ .closed socket here closed
    refine kept.quiet rfl rfl rfl ?_ (List.nodup_cons.mpr ⟨fresh, kept.once⟩) rfl rfl rfl (sole rfl)
    refine sockets_close (p := .hand t) kept.sockets has ?_ rfl rfl ?_
    · exact fun k there => Option.some.inj (there.symm.trans has)
    · intro q k elsewhere
      cases q with
      | closed => exact absurd rfl elsewhere
      | stub c => simp [SockAt, Shared.perform]
      | hand u =>
        by_cases same : u = t
        · subst same
          simp [SockAt, Local.after]
        · simp [SockAt, same]

theorem finish (kept : Kept s own) (position : Position) (accepting : (own t).accepting = true)
    (sAccept : (own t).sAccept = none) (handed : (own t).task.handed = none) :
    Kept { s with acceptThread := position }
      (Function.update own t { own t with accepting := false }) :=
  kept.quiet rfl rfl rfl (sockets_stay kept.sockets (fun _ => rfl) rfl rfl rfl) kept.once rfl rfl
    rfl (kept.sole.finish (kept.sole.others accepting) rfl sAccept handed)

theorem step (kept : Kept s own) {op : Op} (choice : Choice) (needs : Needs (own t) op) :
    Kept (s.perform choice op).1
      (Function.update own t ((own t).after op (s.perform choice op).2)) := by
  cases op with
  | server op => exact kept.server choice needs.1 needs.2
  | WSAAccept => exact kept.accept choice needs
  | getFreeClient => exact kept.getFreeClient choice needs
  | closesocket sock => exact kept.closesocket choice needs
  | again => exact kept.finish .test needs.1 needs.2.1 needs.2.2
  | leave => exact kept.finish .left needs.1 needs.2.1 needs.2.2.1

/-- A call of another thread begins. -/
theorem call (kept : Kept s own) (idle : Idle (own t)) {e : Server.Event ⊕ Request}
    {server : Server.Shared} {task : Task} {p : Server.Call Unit} (others : other e = true)
    (entered : enterAny s.server e = some (server, task, p)) :
    Kept { s with server } (Function.update own t { task }) := by
  obtain ⟨clients, number, lists, empty, -⟩ := enterAny_begun others entered
  refine ⟨?_, ?_, kept.once, ?_, ?_⟩
  · rw [Function.comp_update]
    exact kept.partition.enter idle.task entered
  · refine sockets_stay kept.sockets (fun c => ?_) rfl number idle.sAccept.symm
    rw [clients]
  · exact kept.bare.quiet (by simp [clients]) lists (by simp)
  · exact kept.sole.next rfl idle.accepting.symm fun _ => ⟨rfl, empty.1⟩

end Kept

end Steps

end TestIOCP.Server.AcceptLoop
