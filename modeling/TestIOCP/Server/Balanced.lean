import TestIOCP.Server.Reported

/-! The notices of a run in which every CloseClient finds its client. A connection has the
number that its stub had when it was handed out, so that no two connections are the same. -/
namespace TestIOCP.Server.Notices
open Transition Program

variable {T : Type}

/-- The stub serves a connection that nobody has closed. -/
def InUse (s : Server.Shared) (own : T → Local) (c : Client) : Prop :=
  c ∈ s.m_RealClientList ∨ ∃ t, (own t).task.handed = some c

/-- Connections are told apart by their numbers. -/
structure Numbered (s : Shared) (own : T → Local) : Prop where
  connecting : ∀ t x, (own t).hand = .connecting x →
    x ∉ s.associated ∧ x.number ≤ s.server.connection x.client
  apart : ∀ t u x, (own t).hand = .connecting x → (own u).hand = .connecting x → t = u
  associated : ∀ x ∈ s.associated, x.number ≤ s.server.connection x.client
  removed : ∀ x ∈ s.removals, x.number ≤ s.server.connection x.client ∧
    (InUse s.server own x.client → x.number ≠ s.server.connection x.client)

/-- What has been told, and what is still to be told. -/
structure Told (s : Shared) (own : T → Local) : Prop where
  opened : Delivered (fun t => (own t).hand.owes 0) (s.told 0) s.associated
  closed : Delivered (fun t => (own t).hand.owes 1) (s.told 1) s.removals
  named : ∀ n ∈ s.notices, (n.status_code = 0 ∨ n.status_code = 1) ∧
    ∃ x, n.connection = some x ∧ x.client = n.client
  late : ∀ x ∈ s.removals, x ∉ s.early → x ∈ s.told 0
  ordered : ∀ x ∈ s.told 1, x ∉ s.early →
    [⟨x.client, 0, some x⟩, ⟨x.client, 1, some x⟩].Sublist s.notices

variable {s s' : Shared} {own : T → Local} {t : T} {l : Local} {x : Connection} {c : Client}
  [DecidableEq T]

/-- Only a thread that sets up a connection now did so before. -/
theorem connecting_before (keeps : ∀ x, l.hand = .connecting x → (own t).hand = .connecting x)
    {u : T} (at_ : (Function.update own t l u).hand = .connecting x) :
    (own u).hand = .connecting x := by
  by_cases same : u = t
  · subst same
    exact keeps x (by simpa using at_)
  · simpa [same] using at_

theorem inUse_update {s s' : Server.Shared}
    (handed : l.task.handed = (own t).task.handed ∨ l.task.handed = none)
    (real : ∀ c ∈ s'.m_RealClientList, InUse s own c)
    (used : InUse s' (Function.update own t l) c) : InUse s own c := by
  rcases used with inside | ⟨u, has⟩
  · exact real c inside
  · by_cases same : u = t
    · subst same
      simp only [Function.update_self] at has
      rcases handed with kept | none
      · exact .inr ⟨u, kept.symm.trans has⟩
      · rw [none] at has
        contradiction
    · exact .inr ⟨u, by simpa [same] using has⟩

namespace Numbered

/-- A step that neither associates a connection nor removes one. -/
theorem congr (inv : Numbered s own) (associated : s'.associated = s.associated)
    (removals : s'.removals = s.removals) (connection : s'.server.connection = s.server.connection)
    (keeps : ∀ x, l.hand = .connecting x → (own t).hand = .connecting x)
    (used : ∀ c, InUse s'.server (Function.update own t l) c → InUse s.server own c) :
    Numbered s' (Function.update own t l) := by
  constructor
  · intro u x at_
    rw [associated, connection]
    exact inv.connecting u x (connecting_before keeps at_)
  · intro u v x at_ at_'
    exact inv.apart u v x (connecting_before keeps at_) (connecting_before keeps at_')
  · rw [associated, connection]
    exact inv.associated
  · rw [removals, connection]
    exact fun x inside => ⟨(inv.removed x inside).1, fun using_ =>
      (inv.removed x inside).2 (used _ using_)⟩

/-- A stub that is handed out serves a connection with a new number. -/
theorem getFreeClient (inv : Numbered s own) (associated : s'.associated = s.associated)
    (removals : s'.removals = s.removals)
    (connection : s'.server.connection =
      Function.update s.server.connection c (s.server.connection c + 1))
    (hand : l.hand = .connecting ⟨c, s.server.connection c + 1⟩) (handed : l.task.handed = some c)
    (real : s'.server.m_RealClientList = s.server.m_RealClientList) :
    Numbered s' (Function.update own t l) := by
  have grown (d : Client) : s.server.connection d ≤ s'.server.connection d := by
    rw [connection]
    by_cases same : d = c
    · subst same
      simp
    · simp [same]
  have at_ {u : T} {x : Connection} (at_ : (Function.update own t l u).hand = .connecting x) :
      (u = t ∧ x = ⟨c, s.server.connection c + 1⟩) ∨ (own u).hand = .connecting x := by
    by_cases same : u = t
    · subst same
      exact .inl ⟨rfl, by simpa [hand, eq_comm] using at_⟩
    · exact .inr (by simpa [same] using at_)
  constructor
  · intro u x connecting
    rw [associated]
    rcases at_ connecting with ⟨-, rfl⟩ | before
    · refine ⟨fun inside => ?_, by simp [connection]⟩
      exact Nat.not_succ_le_self _ (inv.associated _ inside)
    · obtain ⟨fresh, bound⟩ := inv.connecting u x before
      exact ⟨fresh, bound.trans (grown _)⟩
  · intro u v x connecting connecting'
    rcases at_ connecting with ⟨rfl, rfl⟩ | before
    all_goals rcases at_ connecting' with ⟨rfl, same⟩ | before'
    · rfl
    · exact absurd (inv.connecting v _ before').2 (Nat.not_succ_le_self _)
    · exact absurd (same ▸ (inv.connecting u _ before).2) (Nat.not_succ_le_self _)
    · exact inv.apart u v x before before'
  · rw [associated]
    exact fun x inside => (inv.associated x inside).trans (grown _)
  · rw [removals]
    intro x inside
    obtain ⟨bound, stale⟩ := inv.removed x inside
    refine ⟨bound.trans (grown _), fun used => ?_⟩
    by_cases same : x.client = c
    · rw [connection, same, Function.update_self]
      exact Nat.ne_of_lt (Nat.lt_succ_of_le (same ▸ bound))
    · rw [connection, Function.update_of_ne same]
      refine stale ?_
      rcases used with inside | ⟨u, has⟩
      · exact .inl (real ▸ inside)
      · have other : u ≠ t := by
          rintro rfl
          simp [handed, Ne.symm same] at has
        exact .inr ⟨u, by simpa [other] using has⟩

theorem associate (inv : Numbered s own) (hand : (own t).hand = .connecting x)
    (hand' : l.hand = .announcing x) (associated : s'.associated = x :: s.associated)
    (removals : s'.removals = s.removals) (connection : s'.server.connection = s.server.connection)
    (used : ∀ c, InUse s'.server (Function.update own t l) c → InUse s.server own c) :
    Numbered s' (Function.update own t l) := by
  have before {u : T} {y : Connection} (at_ : (Function.update own t l u).hand = .connecting y) :
      u ≠ t ∧ (own u).hand = .connecting y := by
    have other : u ≠ t := by
      rintro rfl
      simp [hand'] at at_
    exact ⟨other, by simpa [other] using at_⟩
  constructor
  · intro u y at_
    obtain ⟨other, at_⟩ := before at_
    obtain ⟨fresh, bound⟩ := inv.connecting u y at_
    rw [associated, connection]
    refine ⟨?_, bound⟩
    rintro (_ | ⟨_, inside⟩)
    · exact other (inv.apart u t x at_ hand)
    · exact fresh inside
  · exact fun u v y at_ at_' => inv.apart u v y (before at_).2 (before at_').2
  · rw [associated, connection]
    exact List.forall_mem_cons.mpr ⟨(inv.connecting t x hand).2, inv.associated⟩
  · rw [removals, connection]
    exact fun y inside => ⟨(inv.removed y inside).1, fun using_ =>
      (inv.removed y inside).2 (used _ using_)⟩

omit [DecidableEq T] in
/-- The connection of a stub that is taken off the list is not one that was removed. -/
theorem fresh_removal (inv : Numbered s own) (used : InUse s.server own c) :
    s.current c ∉ s.removals :=
  fun inside => (inv.removed _ inside).2 used rfl

theorem remove (inv : Numbered s own) (hand : l.hand = .removed x)
    (removals : s'.removals = s.current c :: s.removals) (associated : s'.associated = s.associated)
    (connection : s'.server.connection = s.server.connection)
    (used : ∀ d, InUse s'.server (Function.update own t l) d → d ≠ c ∧ InUse s.server own d) :
    Numbered s' (Function.update own t l) := by
  have keeps (y : Connection) (at_ : l.hand = .connecting y) : (own t).hand = .connecting y := by
    simp [hand] at at_
  constructor
  · intro u y at_
    rw [associated, connection]
    exact inv.connecting u y (connecting_before keeps at_)
  · intro u v y at_ at_'
    exact inv.apart u v y (connecting_before keeps at_) (connecting_before keeps at_')
  · rw [associated, connection]
    exact inv.associated
  · rw [removals, connection]
    refine List.forall_mem_cons.mpr
      ⟨⟨Nat.le_refl _, fun using_ => absurd rfl (used _ using_).1⟩, ?_⟩
    exact fun y inside =>
      ⟨(inv.removed y inside).1, fun using_ => (inv.removed y inside).2 (used _ using_).2⟩

end Numbered

theorem owes_update (status_code : Int) :
    (fun u => (Function.update own t l u).hand.owes status_code) =
    Function.update (fun u => (own u).hand.owes status_code) t (l.hand.owes status_code) := by
  funext u
  by_cases same : u = t
  · subst same
    simp
  · simp [same]

/-- What a thread owes stays what it was. -/
theorem delivered_congr {status_code : Int} {log all : List Connection}
    (inv : Delivered (fun u => (own u).hand.owes status_code) log all)
    (same : l.hand.owes status_code = (own t).hand.owes status_code) :
    Delivered (fun u => (Function.update own t l u).hand.owes status_code) log all := by
  rw [owes_update, same, Function.update_eq_self]
  exact inv

namespace Told

/-- A step in which nothing is told and nothing is to be told. -/
theorem congr (inv : Told s own) {server : Server.Shared}
    (owes : ∀ status_code, l.hand.owes status_code = (own t).hand.owes status_code) :
    Told { s with server } (Function.update own t l) :=
  ⟨delivered_congr inv.opened (owes 0), delivered_congr inv.closed (owes 1), inv.named, inv.late,
    inv.ordered⟩

theorem associate (inv : Told s own) {server : Server.Shared} (hand : (own t).hand = .connecting x)
    (hand' : l.hand = .announcing x) (fresh : x ∉ s.associated) :
    Told { s with server, associated := x :: s.associated } (Function.update own t l) := by
  refine ⟨?_, delivered_congr inv.closed (by simp [hand, hand', Hand.owes]), inv.named, inv.late,
    inv.ordered⟩
  rw [owes_update, hand']
  exact inv.opened.take (by simp [hand, Hand.owes]) fresh

theorem remove (inv : Told s own) {server : Server.Shared} (idle : (own t).hand = .nothing)
    (hand : l.hand = .removed x) (fresh : x ∉ s.removals) :
    Told
      { s with
        server
        removals := x :: s.removals
        early := if x ∈ s.told 0 then s.early else x :: s.early } (Function.update own t l) := by
  have early {y : Connection} (late : y ∉ if x ∈ s.told 0 then s.early else x :: s.early) :
      y ∉ s.early := by
    split at late
    · exact late
    · exact fun inside => late (List.mem_cons_of_mem x inside)
  refine ⟨delivered_congr inv.opened (by simp [idle, hand, Hand.owes]), ?_, inv.named, ?_, ?_⟩
  · rw [owes_update, hand]
    exact inv.closed.take (by simp [idle, Hand.owes]) fresh
  · rintro y (_ | ⟨_, inside⟩) late
    · by_contra untold
      have untold : x ∉ s.told 0 := untold
      have late : x ∉ if x ∈ s.told 0 then s.early else x :: s.early := late
      rw [if_neg untold] at late
      exact late List.mem_cons_self
    · exact inv.late y inside (early late)
  · exact fun y told late => inv.ordered y told (early late)

omit [DecidableEq T] in
theorem told_append (notice : Notice) (status_code : Int) :
    { s with notices := s.notices ++ [notice] }.told status_code =
      s.told status_code ++ if notice.status_code = status_code then
          notice.connection.toList else [] := by
  simp only [Shared.told, List.filterMap_append, List.append_cancel_left_eq]
  split
  · rename_i same
    cases at_ : notice.connection <;> simp [same, at_]
  · rename_i other
    simp [other]

omit [DecidableEq T] in
theorem named_append (inv : Told s own) {status_code : Int}
    (code : status_code = 0 ∨ status_code = 1) :
    ∀ n ∈ s.notices ++ [⟨x.client, status_code, some x⟩], (n.status_code = 0 ∨ n.status_code = 1) ∧
      ∃ x, n.connection = some x ∧ x.client = n.client := by
  refine List.forall_mem_append.mpr ⟨inv.named, List.forall_mem_singleton.mpr ?_⟩
  exact ⟨code, x, rfl, rfl⟩

/-- AcceptThread tells of the connection that it has set up. -/
theorem announce (inv : Told s own) (hand : (own t).hand = .announcing x)
    (hand' : l.hand = .nothing) :
    Told { s with notices := s.notices ++ [⟨x.client, 0, some x⟩] } (Function.update own t l) := by
  have told₀ := told_append (s := s) ⟨x.client, 0, some x⟩ 0
  have told₁ := told_append (s := s) ⟨x.client, 0, some x⟩ 1
  simp only [if_pos, Option.toList_some, if_neg Int.zero_ne_one, List.append_nil] at told₀ told₁
  refine ⟨?_, ?_, named_append inv (.inl rfl), ?_, ?_⟩
  · rw [told₀, owes_update, hand']
    exact inv.opened.deliver (by simp [hand, Hand.owes])
  · rw [told₁]
    exact delivered_congr inv.closed (by simp [hand, hand', Hand.owes])
  · intro y inside late
    rw [told₀]
    exact List.mem_append_left _ (inv.late y inside late)
  · intro y told late
    rw [told₁] at told
    exact (inv.ordered y told late).trans (List.sublist_append_left _ _)

omit [DecidableEq T] in
/-- What is told to be there is told by a notice that names it. -/
theorem mem_told (inv : Told s own) {status_code : Int} (told : x ∈ s.told status_code) :
    ⟨x.client, status_code, some x⟩ ∈ s.notices := by
  obtain ⟨n, inside, at_⟩ := List.mem_filterMap.mp told
  obtain ⟨rfl, about⟩ := Option.ite_none_right_eq_some.mp at_
  obtain ⟨-, y, about', client⟩ := inv.named n inside
  obtain rfl : y = x := Option.some.inj (about'.symm.trans about)
  obtain ⟨client', status_code, connection⟩ := n
  cases about
  cases client
  exact inside

/-- CloseClient tells of the connection that it has removed. -/
theorem close (inv : Told s own) (hand : (own t).hand = .removed x) (hand' : l.hand = .nothing) :
    Told { s with notices := s.notices ++ [⟨x.client, 1, some x⟩] } (Function.update own t l) := by
  have told₀ := told_append (s := s) ⟨x.client, 1, some x⟩ 0
  have told₁ := told_append (s := s) ⟨x.client, 1, some x⟩ 1
  simp only [if_pos, Option.toList_some, if_neg Int.one_ne_zero, List.append_nil] at told₀ told₁
  have owed : (own t).hand.owes 1 = some x := by simp [hand, Hand.owes]
  refine ⟨?_, ?_, named_append inv (.inr rfl), ?_, ?_⟩
  · rw [told₀]
    exact delivered_congr inv.opened (by simp [hand, hand', Hand.owes])
  · rw [told₁, owes_update, hand']
    exact inv.closed.deliver owed
  · intro y inside late
    rw [told₀]
    exact inv.late y inside late
  · intro y told late
    rw [told₁] at told
    rcases List.mem_append.mp told with before | new
    · exact (inv.ordered y before late).trans (List.sublist_append_left _ _)
    · obtain rfl := List.mem_singleton.mp new
      -- it was removed after its begin had been told
      have removed : y ∈ s.removals := (inv.closed.all y).mpr (.inr ⟨t, owed⟩)
      have begin := inv.mem_told (inv.late y removed late)
      exact (List.singleton_sublist.mpr begin).append (List.Sublist.refl [_])

end Told

omit [DecidableEq T] in
theorem note_quiet {o : Server.Op} {closing : Bool} (quiet : (Op.op closing o).Quiet) (hand : Hand)
    (r : Server.Res o) : s.note hand closing o r = (s, hand) := by
  cases closing <;> cases o <;> first | rfl | exact quiet.elim

/-- Only GetFreeClient brings a stub into use. -/
theorem perform_inUse {s : Server.Shared} {o : Server.Op} (choice : Choice)
    (other : o ≠ .getFreeClient)
    (tends : Tends (own t).task o) (task : l.task = (own t).task.after o (s.perform choice o).2)
    (used : InUse (s.perform choice o).1 (Function.update own t l) c) : InUse s own c := by
  by_cases still : o.Still
  · have real := (perform_still (s := s) choice still).2
    have handed := (after_still (l := (own t).task) still (s.perform choice o).2).1
    have handed' : l.task.handed = (own t).task.handed := by rw [task, handed]
    exact inUse_update (.inl handed') (fun c inside => .inl (real ▸ inside)) used
  · cases o <;> simp only [Op.Still, not_true_eq_false] at still
    case getFreeClient => exact absurd rfl other
    case addRealClient d =>
      have handed : l.task.handed = none := by rw [task]; rfl
      refine inUse_update (.inr handed) (fun c inside => ?_) used
      rcases mem_insertKey.mp inside with rfl | before
      · exact .inr ⟨t, tends.2⟩
      · exact .inl before
    case eraseRealClient d =>
      have handed : l.task.handed = (own t).task.handed := by
        obtain ⟨closing, same⟩ := (own t).task.after_eraseRealClient_same d
          (s.perform choice (.eraseRealClient d)).2
        rw [task, same]
      exact inUse_update (.inl handed) (fun c inside => .inl (List.mem_of_mem_erase inside)) used
    case pushFreeClient d =>
      have handed : l.task.handed = (own t).task.handed := by rw [task]; rfl
      exact inUse_update (.inl handed) (fun c inside => .inl inside) used
    case clearRealClients => exact tends.elim

theorem enter_same {s s' : Server.Shared} {e : Event} {l : Task} {p : Server.Call Unit}
    (entered : Server.enter s e = some (s', l, p)) : s'.connection = s.connection ∧
      s'.m_RealClientList = s.m_RealClientList ∧ l.handed = none := by
  cases enter_cases entered with
  | invalid | accepted | dequeued | closed => exact ⟨rfl, rfl, rfl⟩

/-- What holds between two steps of a run. -/
structure Noted (s : Shared) (own : T → Local) : Prop where
  numbered : Numbered s own
  told : Told s own

namespace Noted

omit [DecidableEq T] in
theorem initial (first : Initial s) : Noted s (fun _ : T => {}) := by
  obtain ⟨associated, removals, -⟩ := first.connections
  have told (status_code : Int) : s.told status_code = [] := by simp [Shared.told, first.notices]
  constructor
  · constructor <;> simp [associated, removals]
  · constructor
    · simpa [associated, told, Hand.owes] using Delivered.empty
    · simpa [removals, told, Hand.owes] using Delivered.empty
    · simp [first.notices]
    · simp [removals]
    · simp [told]

theorem enter (inv : Noted s own) {e : Event} {p : Call Unit} (idle : (own t).hand = .nothing)
    (entered : enter s e = some (s', l, p)) : Noted s' (Function.update own t l) := by
  obtain ⟨⟨server, task, p'⟩, enters, same⟩ := Option.map_eq_some_iff.mp entered
  obtain ⟨connection, real, handed⟩ := enter_same enters
  cases same
  refine ⟨inv.numbered.congr rfl rfl connection (by simp) fun c used => ?_, inv.told.congr ?_⟩
  · exact inUse_update (.inr handed) (fun c inside => .inl (real ▸ inside)) used
  · simp [idle]

theorem report (inv : Noted s own) {status_code : Int} {choice : Choice}
    (reports : Reports (own t).hand (.report c status_code))
    (performed : step s (own t) (.report c status_code) choice = some (s', l, ())) :
    Noted s' (Function.update own t l) ∧ l.hand = .nothing := by
  simp only [step, Option.some.injEq, Prod.mk.injEq, and_true] at performed
  obtain ⟨rfl, rfl⟩ := performed
  refine ⟨⟨?_, ?_⟩, rfl⟩
  · exact inv.numbered.congr rfl rfl rfl (by simp) fun d used =>
      inUse_update (l := ⟨(own t).task, .nothing⟩) (.inl rfl) (fun d inside => .inl inside) used
  · obtain ⟨k, ⟨rfl, hand⟩ | ⟨rfl, hand⟩⟩ := reports
    · rw [hand]
      exact inv.told.announce hand rfl
    · rw [hand]
      exact inv.told.close hand rfl

theorem quiet (inv : Noted s own) {closing : Bool} {o : Server.Op} {choice : Choice}
    {r : Server.Res o}
    (quiet : (Op.op closing o).Quiet) (tends : Tends (own t).task o)
    (performed : step s (own t) (.op closing o) choice = some (s', l, r)) :
    Noted s' (Function.update own t l) ∧ l.hand = (own t).hand := by
  obtain ⟨rfl, rfl, rfl⟩ := step_op performed
  rw [note_quiet quiet]
  have other : o ≠ .getFreeClient := by
    rintro rfl
    cases closing <;> exact quiet
  refine ⟨⟨?_, ?_⟩, rfl⟩
  · exact inv.numbered.congr rfl rfl (perform_connection choice other).1 (by simp)
      fun c used => perform_inUse choice other tends rfl used
  · exact inv.told.congr fun _ => rfl

theorem getFreeClient (inv : Noted s own) {closing : Bool} {choice : Choice} {c : Client}
    (idle : (own t).hand = .nothing)
    (performed : step s (own t) (.op closing .getFreeClient) choice = some (s', l, c)) :
    Noted s' (Function.update own t l) ∧ ∃ k, l.hand = .connecting ⟨c, k⟩ := by
  obtain ⟨rfl, rfl, rfl⟩ := step_op performed
  refine ⟨⟨?_, ?_⟩, _, rfl⟩
  · refine inv.numbered.getFreeClient rfl rfl rfl ?_ rfl rfl
    simp [Shared.note, Shared.current, Shared.perform]
  · exact inv.told.congr (by simp [idle, Shared.note, Hand.owes])

theorem createIoCompletionPort (inv : Noted s own) {closing : Bool} {sock : Option Sock}
    {choice : Choice}
    {ok : Bool} (hand : (own t).hand = .connecting x)
    (tends : Tends (own t).task (.createIoCompletionPort sock c))
    (performed : step s (own t) (.op closing (.createIoCompletionPort sock c)) choice =
      some (s', l, ok)) :
    Noted s' (Function.update own t l) ∧ l.hand = if ok then .announcing x else .nothing := by
  obtain ⟨same, rfl, rfl⟩ := step_op performed
  have other : Server.Op.createIoCompletionPort sock c ≠ .getFreeClient := by simp
  have connection := (perform_connection (s := s.server) choice other).1
  have used (l : Local) (task : l.task = (own t).task.after (.createIoCompletionPort sock c) ok)
      (d : Client) (at_ : InUse (s.server.perform choice (.createIoCompletionPort sock c)).1
        (Function.update own t l) d) : InUse s.server own d :=
    perform_inUse choice other tends (same ▸ task) at_
  cases ok with
  | true =>
    simp only [Shared.note, hand, if_true]
    refine ⟨⟨?_, ?_⟩, trivial⟩
    · exact inv.numbered.associate hand rfl rfl rfl connection (used _ rfl)
    · exact inv.told.associate hand rfl (inv.numbered.connecting t x hand).1
  | false =>
    simp only [Shared.note, hand, Bool.false_eq_true, if_false]
    refine ⟨⟨?_, ?_⟩, trivial⟩
    · exact inv.numbered.congr rfl rfl connection (by simp) (used _ rfl)
    · exact inv.told.congr (by simp [hand, Hand.owes])

/-- A CloseClient that finds its client removes a connection that nobody has removed. -/
theorem removeRealClient (inv : Noted s own) (partition : Partition s.server fun t => (own t).task)
    {choice : Choice} {num : Nat} (real : c ∈ s.server.m_RealClientList)
    (idle : (own t).hand = .nothing)
    (tends : Tends (own t).task (.eraseRealClient c))
    (performed : step s (own t) (.op true (.eraseRealClient c)) choice = some (s', l, num)) :
    Noted s' (Function.update own t l) ∧ l.hand = .removed (s.current c) := by
  obtain ⟨same, rfl, rfl⟩ := step_op performed
  obtain rfl : num = 1 := by simpa [Shared.perform, real] using same
  have used (d : Client) (at_ : InUse (s.server.perform choice (.eraseRealClient c)).1
      (Function.update own t ⟨(own t).task.after (.eraseRealClient c) 1,
        .removed (s.current c)⟩) d) :
      d ≠ c ∧ InUse s.server own d := by
    have before : InUse s.server own d :=
      perform_inUse choice (by simp) tends (by simp [Shared.perform, real]) at_
    refine ⟨?_, before⟩
    rintro rfl
    rcases at_ with inside | ⟨u, has⟩
    · exact partition.realOnce.not_mem_erase inside
    · have handed : (own u).task.handed = some d := by
        by_cases same : u = t
        · subst same
          simpa [Task.after] using has
        · simpa [same] using has
      have here : ClientAt s.server (fun t => (own t).task) .real d := real
      have there : ClientAt s.server (fun t => (own t).task) (.handed u) d := handed
      exact partition.place.elsewhere here (by simp) there
  have fresh := inv.numbered.fresh_removal (c := c) (.inl real)
  refine ⟨⟨?_, ?_⟩, rfl⟩
  · exact inv.numbered.remove rfl rfl rfl rfl used
  · exact inv.told.remove idle rfl fresh

theorem step (inv : Noted s own) (partition : Partition s.server fun t => (own t).task) {op : Op}
    {choice : Choice} {r : Res op} (found : Found s op) (reports : Reports (own t).hand op)
    (tends : ∀ closing o, op = .op closing o → Tends (own t).task o)
    (performed : step s (own t) op choice = some (s', l, r)) :
    Noted s' (Function.update own t l) ∧ Reported (own t).hand l.hand op r := by
  by_cases isQuiet : op.Quiet
  · cases op with
    | report c status_code => exact isQuiet.elim
    | op closing o =>
      obtain ⟨inv', hand⟩ := inv.quiet isQuiet (tends _ _ rfl) performed
      exact ⟨inv', isQuiet.reported.mpr hand⟩
  · cases op with
    | report c status_code => exact inv.report reports performed
    | op closing o =>
      have tends' := tends _ _ rfl
      cases o with
      | getFreeClient => cases closing <;> exact inv.getFreeClient reports performed
      | createIoCompletionPort sock c =>
        have connecting : ∃ k, (own t).hand = .connecting ⟨c, k⟩ := by
          cases closing <;> exact reports
        obtain ⟨k, connecting⟩ := connecting
        obtain ⟨inv', hand⟩ := inv.createIoCompletionPort connecting tends' performed
        cases closing <;> exact ⟨inv', _, connecting, hand⟩
      | eraseRealClient c =>
        cases closing with
        | false => exact absurd trivial isQuiet
        | true =>
          obtain ⟨inv', hand⟩ := inv.removeRealClient partition
            (found c rfl) reports tends' performed
          exact ⟨inv', _, hand⟩
      | _ => cases closing <;> exact absurd trivial isQuiet

end Noted

/-- A call can end. -/
def Local.Idle (l : Local) : Prop :=
  l.hand = .nothing

theorem noted_of_run {s : Config T Shared Local Op Res}
    (run : (system T).ReachableUnder (Semantics.Guarded fun s _ _ op _ => Found s op) s) :
    Noted s.shared s.own ∧
      ∀ t, (s.code t).Follows reportDiscipline (s.own t) (fun _ => Local.Idle) := by
  have resting : Local.Idle {} := rfl
  have served := run.attach fun s reached => served_of_run reached
  refine Semantics.invariant_of_run (I := fun s => Noted s.shared s.own) reportDiscipline
    resting ?_ ?_ ?_ served
  · rintro s ⟨first, idle⟩
    have own : s.own = fun _ => {} := funext fun t => (idle t).1
    exact own ▸ Noted.initial first
  · intro s t e s' l p inv idle entered
    refine ⟨inv.enter idle entered, ?_⟩
    obtain ⟨⟨server, task, p'⟩, -, same⟩ := Option.map_eq_some_iff.mp entered
    cases same
    exact handle_reports _ e rfl
  · rintro s t op rest choice s' l r inv follows code ⟨found, served⟩ performed reports
    simp only [Semantics.Guarded, code] at found
    refine inv.step served.1 found reports ?_ performed
    rintro closing o rfl
    exact served.tends code

/-- A call that has a connection to tell of tells of it next. -/
theorem reports_next {p : Call Unit} (follows : p.Follows reportDiscipline l (fun _ => Local.Idle))
    (hand : l.hand = .announcing x) : ∃ rest, p = .call (.report x.client 0) rest := by
  cases p with
  | ret a => exact absurd (hand.symm.trans follows) (by simp)
  | call op rest =>
    have reports : Reports l.hand op := follows.1
    rw [hand] at reports
    cases op with
    | report c status_code =>
      obtain ⟨k, ⟨rfl, at_⟩ | ⟨-, at_⟩⟩ := reports
      · cases at_
        exact ⟨rest, rfl⟩
      · contradiction
    | op closing o =>
      cases closing <;> cases o <;> simp [Reports] at reports

/-- As long as every CloseClient finds its client, every connection that AcceptThread has
associated is reported once with 0 and every connection that a CloseClient has removed
once with 1, by that call; nothing else is reported. -/
theorem reported_once_when_found {s : Config T Shared Local Op Res}
    (run : (system T).ReachableUnder (Semantics.Guarded fun s _ _ op _ => Found s op) s) :
    Balanced s := by
  obtain ⟨⟨-, told⟩, follows⟩ := noted_of_run run
  have announcing (t : T) (x : Connection) : (s.own t).hand.owes 0 = some x ↔
      (s.own t).hand = .announcing x := by
    cases (s.own t).hand <;> simp [Hand.owes]
  have removed (t : T) (x : Connection) : (s.own t).hand.owes 1 = some x ↔
      (s.own t).hand = .removed x := by
    cases (s.own t).hand <;> simp [Hand.owes]
  refine ⟨?_, ?_, told.closed.allOnce, ?_, told.ordered⟩
  · intro n inside
    obtain ⟨code, x, about, client⟩ := told.named n inside
    have told_ : x ∈ s.shared.told n.status_code :=
      List.mem_filterMap.mpr ⟨n, inside, by simp [about]⟩
    refine ⟨x, about, client, ?_⟩
    rcases code with code | code
    all_goals rw [code] at told_
    · exact .inl ⟨code, (told.opened.all x).mpr (.inl told_)⟩
    · exact .inr ⟨code, (told.closed.all x).mpr (.inl told_)⟩
  · intro x associated
    rcases told.opened.exactly associated with ⟨once, nobody⟩ | ⟨never, t, has, only⟩
    · exact .inl ⟨once, fun t at_ => nobody t ((announcing t x).mpr at_)⟩
    · have at_ := (announcing t x).mp has
      exact .inr ⟨never, t, ⟨at_, reports_next (follows t) at_⟩,
        fun u at_' => only u ((announcing u x).mpr at_'.1)⟩
  · intro x inside
    rcases told.closed.exactly inside with ⟨once, nobody⟩ | ⟨never, t, has, only⟩
    · exact .inl ⟨once, fun t at_ => nobody t ((removed t x).mpr at_)⟩
    · have at_ := (removed t x).mp has
      refine .inr ⟨never, t, ⟨at_, ?_⟩, fun u at_' => only u ((removed u x).mpr at_'.1)⟩
      intro ended
      have idle := follows t
      rw [ended] at idle
      have idle : (s.own t).hand = .nothing := idle
      rw [idle] at at_
      contradiction

/-- A server that has just started, with two threads. -/
def begun : Config Bool Shared Local Op Res where
  shared := { server := started.shared }
  own _ := {}
  code _ := .ret ()

theorem begun_initial : Initial begun.shared ∧ ∀ t, begun.own t = {} ∧ begun.code t = .ret () :=
  ⟨⟨started_initial.1, ⟨rfl, rfl, rfl⟩, rfl⟩, fun _ => ⟨rfl, rfl⟩⟩

/-- The first connection of the server. -/
def firstConnection : Connection := ⟨0, 1⟩

/-- A client connects and closes. -/
def visited : List (Label Bool Choice Event) :=
  calling false (.accept false) 13 ++ calling true (.dequeue (first 0) none 0) 14

theorem visited_runs :
    ((system Bool).runUnder (Semantics.Guarded fun s _ _ op _ => Found s op) begun visited).map
      (fun s => s.shared.notices) =
        some [⟨0, 0, some firstConnection⟩, ⟨0, 1, some firstConnection⟩] := by
  decide +kernel

theorem reported_once_after_closing :
    ∃ s, (system Bool).runUnder (Semantics.Guarded fun s _ _ op _ => Found s op) begun visited =
      some s ∧
      s.shared.notices = [⟨0, 0, some firstConnection⟩, ⟨0, 1, some firstConnection⟩] ∧
        Balanced s := by
  obtain ⟨s, ran, ended⟩ := Option.map_eq_some_iff.mp visited_runs
  exact ⟨s, ran, ended, reported_once_when_found
    (System.runUnder_reachable (.initial begun_initial) ran)⟩

/-- What a client has sent arrives, and neither the answer nor the next read can be posted. -/
def refused : List (Label Bool Choice Event) :=
  calling false (.accept false) 13 ++
    .enter true (.dequeue (first 0) none 5) :: List.replicate 32 (.step true ⟨some 0⟩)

theorem refused_runs : ((system Bool).run begun refused).map (fun s => s.shared.notices) =
    some [⟨0, 0, some firstConnection⟩, ⟨0, 1, some firstConnection⟩, ⟨0, 1, none⟩] := by
  decide +kernel

theorem reported_twice : ¬ ∀ s : Config Bool Shared Local Op Res, (system Bool).Reachable s →
    Balanced s := by
  intro balanced
  obtain ⟨s, ran, ended⟩ := Option.map_eq_some_iff.mp refused_runs
  have reached := System.run_reachable (.initial begun_initial) ran
  obtain ⟨x, about, -⟩ := (balanced s reached).named ⟨0, 1, none⟩ (by simp [ended])
  cases about

end TestIOCP.Server.Notices
