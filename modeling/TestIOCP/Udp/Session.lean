import TestIOCP.Udp.Delivery
import TestIOCP.Serial

/-! The sockets of one receiver whose calls run one at a time. -/
namespace TestIOCP.Udp
open Transition Program Semantics

variable {O : Type}

/-- The only open socket is m_UdpSocket, and at most one read is outstanding on it. -/
structure Single (s : Shared Unit O) : Prop where
  sockets : s.sockets = (s.receivers ()).m_UdpSocket.toList
  reads : s.pool.reading.countP (fun p => (s.receivers ()).m_UdpSocket = some p.socket) ≤ 1

/-- No read is outstanding on the socket of the receiver. -/
def Unread (s : Shared Unit O) : Prop :=
  ∀ p ∈ s.pool.reading, (s.receivers ()).m_UdpSocket ≠ some p.socket

/-- What a call must find: Start no earlier session, unless it finds one running, and the
handler of a received datagram no other read on the socket. -/
def Alone (s : Shared Unit O) : Entry Unit → Prop
  | .start r => (s.receivers r).m_nStatus = .run ∨ (s.receivers r).m_UdpSocket = none
  | .consume povlp _ false => ∀ posted ∈ s.pool.reading.find? (fun x => x.req = povlp),
      Unread { s with pool.reading := s.pool.reading.erase posted }
  | _ => True

instance (s : Shared Unit O) : Decidable (Unread s) :=
  inferInstanceAs (Decidable (∀ p ∈ s.pool.reading, _))

instance (s : Shared Unit O) : (e : Entry Unit) → Decidable (Alone s e)
  | .start _ => inferInstanceAs (Decidable (_ ∨ _))
  | .consume povlp _ false => inferInstanceAs (Decidable
      (∀ posted ∈ s.pool.reading.find? (fun x => x.req = povlp),
        Unread { s with pool.reading := s.pool.reading.erase posted }))
  | .init _ | .stop _ | .consume _ _ true | .returnBuf _ => .isTrue trivial

def Unguarded (_ : Shared Unit O) (_ : Op Unit O) : Prop := True

instance (s : Shared Unit O) (op : Op Unit O) : Decidable (Unguarded s op) := .isTrue trivial

/-- Between two calls; socket numbers are never used again. -/
structure Sessions (s : Shared Unit O) : Prop extends Single s where
  known : ∀ p ∈ s.pool.reading, p.socket < s.nextSock
  socketKnown : ∀ h, (s.receivers ()).m_UdpSocket = some h → h < s.nextSock

/-- An operation that neither opens, closes nor forgets a socket nor posts a read. -/
def Plain : Op Unit O → Prop
  | .set _ f => ∀ x, (f x).m_UdpSocket = x.m_UdpSocket
  | .makeMultiSocket | .closesocket _ | .wsaRecv _ _ _ => False
  | _ => True

/-- What plain operations leave alone. -/
def sockets (s : Shared Unit O) : List Sock × Sock × List Posted × Option Sock :=
  (s.sockets, s.nextSock, s.pool.reading, (s.receivers ()).m_UdpSocket)

variable {observers : Unit → List O} {s s' : Shared Unit O} {h : Hand}

/-- Posted reads are no matter of the pools. -/
theorem Pool.step_reading {p p' : Pool Unit O} {op : Op Unit O} {c : Outcome} {h' : Hand}
    {res : Res op} (taken : p.step h op c = some (p', h', res)) : p'.reading = p.reading := by
  cases op <;> simp only [Pool.step, reduceCtorEq] at taken
  case bufPop | reqPop =>
    split at taken <;>
    · cases taken
      rfl
  case importData =>
    split at taken
    · cases taken
      rfl
    · split at taken
      · cases taken
        rfl
      · contradiction
  all_goals
    cases taken
    rfl

theorem plain_sockets {op : Op Unit O} {c : Outcome} {h' : Hand} {res : Res op} (plain : Plain op)
    (taken : step s h op c = some (s', h', res)) : sockets s' = sockets s := by
  unfold step at taken
  split at taken
  case h_1 | h_4 | h_7 | h_8 =>
    cases taken
    rfl
  case h_2 r f =>
    cases taken
    simp only [Plain] at plain
    simp [sockets, plain]
  case h_6 r =>
    split at taken
    · contradiction
    · cases taken
      rfl
  case h_3 | h_5 | h_9 | h_10 => exact absurd plain id
  case h_11 =>
    obtain ⟨⟨pool, hand, r⟩, performed, same⟩ := Option.map_eq_some_iff.mp taken
    cases same
    simp [sockets, Pool.step_reading performed]

/-- Sessions are a matter of the sockets. -/
theorem Sessions.congr (sessions : Sessions s) (same : sockets s' = sockets s) : Sessions s' := by
  simp only [sockets, Prod.mk.injEq] at same
  obtain ⟨open_, next, reading, socket⟩ := same
  obtain ⟨⟨owned, reads⟩, known, socketKnown⟩ := sessions
  refine ⟨⟨by rw [open_, owned, socket], by rwa [reading, socket]⟩, ?_, ?_⟩
  · rwa [reading, next]
  · rwa [socket, next]

theorem Unread.congr (unread : Unread s) (same : sockets s' = sockets s) : Unread s' := by
  simp only [sockets, Prod.mk.injEq] at same
  obtain ⟨-, -, reading, socket⟩ := same
  rwa [Unread, reading, socket]

theorem every_ensures {α : Type} {p : Call Unit O α} (every : p.Every Plain) :
    p.Ensures step Unguarded s h (fun _ s' _ => sockets s' = sockets s) :=
  every.ensures (I := fun s' => sockets s' = sockets s)
    (fun _ _ _ _ _ _ _ plain same taken => (plain_sockets plain taken).trans same) rfl

theorem set_every {f : Receiver → Receiver} (socket : ∀ x, (f x).m_UdpSocket = x.m_UdpSocket) :
    (set () f : Call Unit O Unit).Every Plain :=
  ⟨socket, fun _ => trivial⟩

theorem sessions_ensures {α : Type} {p : Call Unit O α} (every : p.Every Plain)
    (sessions : Sessions s) : p.Ensures step Unguarded s h (fun _ s' _ => Sessions s') :=
  (every_ensures every).mono fun _ _ _ same => sessions.congr same

theorem unread_ensures {α : Type} {p : Call Unit O α} (every : p.Every Plain)
    (sessions : Sessions s)
    (unread : Unread s) :
    p.Ensures step Unguarded s h (fun _ s' _ => Sessions s' ∧ Unread s') :=
  (every_ensures every).mono fun _ _ _ same => ⟨sessions.congr same, unread.congr same⟩

theorem ensures_get {α : Type} {Q : α → Shared Unit O → Hand → Prop}
    (rest : Receiver → Call Unit O α) :
    (get () >>= rest).Ensures step Unguarded s h Q ↔
      (rest (s.receivers ())).Ensures step Unguarded s h Q := by
  constructor
  · exact fun ensures => ensures trivial .success s h _ rfl
  · intro ensures _ c s' h' this taken
    simp only [step, Option.some.injEq, Prod.mk.injEq] at taken
    obtain ⟨rfl, rfl, rfl⟩ := taken
    exact ensures

theorem set_ensures {f : Receiver → Receiver} :
    (set () f : Call Unit O Unit).Ensures step Unguarded s h (fun _ s' _ =>
      s' = { s with receivers := Function.update s.receivers () (f (s.receivers ())) }) := by
  intro _ c s' h' res taken
  simp only [step, Option.some.injEq, Prod.mk.injEq] at taken
  exact taken.1.symm

theorem makeMultiSocket_ensures :
    (perform .makeMultiSocket : Call Unit O (Option Sock)).Ensures step Unguarded s h
      (fun socket s' _ => (socket = none ∧ s' = s) ∨ (socket = some s.nextSock ∧
        s' = { s with sockets := s.nextSock :: s.sockets, nextSock := s.nextSock + 1 })) := by
  intro _ c s' h' socket taken
  simp only [step] at taken
  split at taken
  all_goals
    simp only [Option.some.injEq, Prod.mk.injEq] at taken
    obtain ⟨rfl, -, rfl⟩ := taken
  · exact .inl ⟨rfl, rfl⟩
  · exact .inr ⟨rfl, rfl⟩

theorem closesocket_ensures {open_ : Sock} :
    (perform (.closesocket open_) : Call Unit O Unit).Ensures step Unguarded s h
      (fun _ s' _ => s' = { s with sockets := s.sockets.erase open_ }) := by
  intro _ c s' h' res taken
  simp only [step, Option.some.injEq, Prod.mk.injEq] at taken
  exact taken.1.symm

/-- WSARecv posts a read on the socket that it is given, or fails. -/
theorem wsaRecv_cases {socket : Option Sock} {q : Req} {b : Buf} {c : Outcome} {h' : Hand}
    {res : Outcome} (taken : step s h (.wsaRecv socket q b) c = some (s', h', res)) :
    (sockets s' = sockets s ∧ res = .failed) ∨ (∃ open_, socket = some open_ ∧
      s' = { s with pool.reading := ⟨q, b, open_⟩ :: s.pool.reading } ∧ res = c) := by
  cases socket with
  | none =>
    simp only [step, Option.some.injEq, Prod.mk.injEq] at taken
    obtain ⟨rfl, -, rfl⟩ := taken
    exact .inl ⟨rfl, rfl⟩
  | some open_ =>
    simp only [step] at taken
    split at taken
    all_goals
      simp only [Option.some.injEq, Prod.mk.injEq] at taken
      obtain ⟨rfl, -, rfl⟩ := taken
    · exact .inr ⟨open_, rfl, rfl, rfl⟩
    · exact .inl ⟨rfl, rfl⟩

/-- The read is the only one on the socket. -/
theorem Sessions.post (sessions : Sessions s) (unread : Unread s) {open_ : Sock}
    (socket : (s.receivers ()).m_UdpSocket = some open_) (q : Req) (b : Buf) :
    Sessions { s with pool.reading := ⟨q, b, open_⟩ :: s.pool.reading } := by
  have known := sessions.socketKnown open_ socket
  refine ⟨⟨sessions.sockets, ?_⟩, fun p inside => ?_, sessions.socketKnown⟩
  · have none_ : s.pool.reading.countP (fun p => (s.receivers ()).m_UdpSocket = some p.socket) =
        0 :=
      List.countP_eq_zero.mpr fun p inside => by simpa using unread p inside
    simp only [List.countP_cons, none_]
    split <;> simp
  · rcases List.mem_cons.mp inside with rfl | before
    · exact known
    · exact sessions.known p before

theorem read_sessions (sessions : Sessions s) (unread : Unread s) :
    (read () : Call Unit O Int).Ensures step Unguarded s h (fun _ s' _ => Sessions s') := by
  refine (unread_ensures (takeBuf_every trivial trivial) sessions unread).seq ?_
  rintro b s h ⟨sessions, unread⟩
  refine (unread_ensures (p := perform (.clearRef b)) (.perform trivial) sessions unread).seq ?_
  rintro _ s h ⟨sessions, unread⟩
  refine (unread_ensures (takeReq_every trivial trivial fun _ => trivial) sessions unread).seq ?_
  rintro q s h ⟨sessions, unread⟩
  refine (unread_ensures (p := perform (.setDataBuf q b RECVBUFSIZE)) (.perform trivial) sessions
    unread).seq ?_
  rintro _ s h ⟨sessions, unread⟩
  rw [ensures_get]
  refine Ensures.bind fun _ c s' h' res taken => ?_
  have after : Sessions s' := by
    rcases wsaRecv_cases taken with ⟨same, -⟩ | ⟨open_, socket, rfl, -⟩
    · exact sessions.congr same
    · exact sessions.post unread socket q b
  cases res with
  | failed =>
    exact sessions_ensures ⟨fun _ => rfl,
      fun _ => ⟨trivial, fun _ => ⟨trivial, fun _ => trivial⟩⟩⟩ after
  | pending =>
    exact sessions_ensures ⟨fun _ => rfl, fun _ => ⟨fun _ => rfl, fun _ => trivial⟩⟩ after
  | success =>
    exact sessions_ensures ⟨fun _ => rfl, fun _ => ⟨fun _ => rfl, fun _ => trivial⟩⟩ after

/-- A completion is taken off the port. -/
theorem Sessions.dequeue (sessions : Sessions s) (posted : Posted) :
    Sessions { s with pool.reading := s.pool.reading.erase posted } :=
  ⟨⟨sessions.sockets, List.erase_sublist.countP_le.trans sessions.reads⟩,
    fun p inside => sessions.known p (List.mem_of_mem_erase inside), sessions.socketKnown⟩

theorem consumeReq_sessions (sessions : Sessions s) {bytenumber : Int} {error : Bool} {povlp : Req}
    (unread : error = false → Unread s) :
    (consumeReq observers () bytenumber error povlp).Ensures step Unguarded s h
      (fun _ s' _ => Sessions s') := by
  cases error with
  | true =>
    refine sessions_ensures ((set_every fun _ => rfl).bind fun _ =>
        (Every.perform trivial).bind fun req => ?_)
      sessions
    have ending : (do
        reqPush povlp
        set () fun s => { s with m_nStatus := .error }
        return -1 : Call Unit O Int).Every Plain :=
      ⟨trivial, fun _ => (set_every fun _ => rfl).bind fun _ => trivial⟩
    cases req.m_pDataBuf with
    | none => exact ending
    | some b => exact ⟨trivial, fun _ => ending⟩
  | false =>
    refine Ensures.seq (unread_ensures (set_every fun _ => rfl) sessions (unread rfl)) ?_
    rintro _ s h ⟨sessions, unread⟩
    refine (unread_ensures (p := perform (.reqGet povlp)) (.perform trivial) sessions unread).seq ?_
    rintro req s h ⟨sessions, unread⟩
    refine Ensures.seq (unread_ensures (set_every fun _ => rfl) sessions unread) ?_
    rintro _ s h ⟨sessions, unread⟩
    refine Ensures.seq (unread_ensures (set_every fun _ => rfl) sessions unread) ?_
    rintro _ s h ⟨sessions, unread⟩
    have ending {s : Shared Unit O} {h : Hand} (sessions : Sessions s) (unread : Unread s) : (do
        reqPush povlp
        let _ ← read ()
        return 0 : Call Unit O Int).Ensures step Unguarded s h (fun _ s' _ => Sessions s') := by
      refine (unread_ensures (p := reqPush povlp) (.perform trivial) sessions unread).seq ?_
      rintro _ s h ⟨sessions, unread⟩
      exact (read_sessions sessions unread).seq fun _ _ _ sessions => sessions
    cases req.m_pDataBuf with
    | none =>
      exact (unread_ensures (p := perform .fault) (.perform trivial) sessions unread).seq
        fun _ s h ⟨sessions, unread⟩ => ending sessions unread
    | some b =>
      exact (unread_ensures (readedDataProcess_every trivial trivial trivial trivial (fun _ _ =>
          trivial) trivial) sessions unread).seq
        fun _ s h ⟨sessions, unread⟩ => ending sessions unread

/-- A new socket, on which nothing is outstanding. -/
theorem Sessions.create (sessions : Sessions s) (closed : (s.receivers ()).m_UdpSocket = none)
    (x : Receiver) (socket : x.m_UdpSocket = some s.nextSock) :
    let s' := { s with
      sockets := s.nextSock :: s.sockets
      nextSock := s.nextSock + 1
      receivers := Function.update s.receivers () x }
    Sessions s' ∧ Unread s' := by
  have none_ : s.sockets = [] := by rw [sessions.sockets, closed]; rfl
  have unread (p : Posted) (inside : p ∈ s.pool.reading) : x.m_UdpSocket ≠ some p.socket := by
    rw [socket]
    exact fun same => absurd (sessions.known p inside) (by simp [Option.some.inj same])
  refine ⟨⟨⟨?_, ?_⟩, fun p inside => ?_, fun h has => ?_⟩, by simpa [Unread] using unread⟩
  · simp [none_, socket]
  · have zero : s.pool.reading.countP (fun p => x.m_UdpSocket = some p.socket) = 0 :=
      List.countP_eq_zero.mpr fun p inside => by simpa using unread p inside
    simp [zero]
  · exact (sessions.known p inside).trans (Nat.lt_succ_self _)
  · simp only [Function.update_self, socket, Option.some.injEq] at has
    exact has ▸ Nat.lt_succ_self _

theorem start_sessions (sessions : Sessions s)
    (alone : (s.receivers ()).m_nStatus = .run ∨ (s.receivers ()).m_UdpSocket = none) :
    (start () : Call Unit O Int).Ensures step Unguarded s h (fun _ s' _ => Sessions s') := by
  simp only [start, ensures_get]
  split
  · exact sessions
  rename_i running
  have closed := alone.resolve_left running
  refine Ensures.seq makeMultiSocket_ensures ?_
  rintro _ _ h (⟨rfl, rfl⟩ | ⟨rfl, rfl⟩)
  all_goals
    refine Ensures.seq set_ensures ?_
    rintro _ _ h rfl
  · exact sessions.congr (by simp [sockets, closed])
  · obtain ⟨sessions, unread⟩ := sessions.create closed
      { s.receivers () with m_UdpSocket := some s.nextSock } rfl
    refine (unread_ensures (p := perform (.associateDevice s.nextSock)) (.perform trivial) sessions
      unread).seq ?_
    rintro associated s h ⟨sessions, unread⟩
    split
    · exact sessions
    · refine Ensures.seq (unread_ensures (set_every fun _ => rfl) sessions unread) ?_
      rintro _ s h ⟨sessions, unread⟩
      refine Ensures.seq (unread_ensures (set_every fun _ => rfl) sessions unread) ?_
      rintro _ s h ⟨sessions, unread⟩
      refine Ensures.seq (unread_ensures (set_every fun _ => rfl) sessions unread) ?_
      rintro _ s h ⟨sessions, unread⟩
      exact (read_sessions sessions unread).seq fun _ _ _ sessions => sessions

/-- The socket is closed and forgotten. -/
theorem Sessions.close (sessions : Sessions s) {open_ : Sock}
    (socket : (s.receivers ()).m_UdpSocket = some open_) (x : Receiver)
    (closed : x.m_UdpSocket = none) :
    Sessions { s with
      sockets := s.sockets.erase open_
      receivers := Function.update s.receivers () x } := by
  refine ⟨⟨?_, ?_⟩, sessions.known, ?_⟩
  · simp [sessions.sockets, socket, closed]
  · simp [closed]
  · simp [closed]

theorem stop_sessions (sessions : Sessions s) :
    (stop observers ()).Ensures step Unguarded s h (fun _ s' _ => Sessions s') := by
  refine Ensures.seq (sessions_ensures (set_every fun _ => rfl) sessions) fun _ s h sessions => ?_
  have ending {s : Shared Unit O} {h : Hand} (sessions : Sessions s) : (do
      (observers ()).forM importNull
      set () fun s => { s with m_nRecvBytesNum := 0 }
      return 0 : Call Unit O Int).Ensures step Unguarded s h (fun _ s' _ => Sessions s') := by
    refine sessions_ensures ?_ sessions
    exact (Every.forM fun _ _ => .perform trivial).bind fun _ => ⟨fun _ => rfl, fun _ => trivial⟩
  rw [ensures_get]
  cases socket : (s.receivers ()).m_UdpSocket with
  | none => exact ending sessions
  | some open_ =>
    refine Ensures.seq closesocket_ensures ?_
    rintro _ _ h rfl
    refine Ensures.seq set_ensures ?_
    rintro _ _ h rfl
    exact ending (sessions.close socket _ rfl)

theorem enter_sessions [DecidableEq O] (sessions : Sessions s) {e : Entry Unit} (alone : Alone s e)
    {p : Call Unit O Unit} (entered : enter observers s e = some (s', h, p)) :
    p.Ensures step Unguarded s' h (fun _ s _ => Sessions s) := by
  cases e with
  | init =>
    cases entered
    exact (sessions_ensures (initObject_every trivial (fun _ => trivial) trivial fun _ =>
      trivial) sessions).seq fun _ _ _ sessions => sessions
  | start =>
    cases entered
    exact (start_sessions sessions alone).seq fun _ _ _ sessions => sessions
  | stop =>
    cases entered
    exact (stop_sessions sessions).seq fun _ _ _ sessions => sessions
  | consume povlp bytenumber error =>
    obtain ⟨posted, found, same⟩ := Option.map_eq_some_iff.mp entered
    cases same
    refine (consumeReq_sessions (sessions.dequeue posted) fun suc => ?_).seq
      fun _ _ _ sessions => sessions
    subst suc
    exact alone posted found
  | returnBuf delivery =>
    obtain ⟨due, -, same⟩ := Option.map_eq_some_iff.mp entered
    cases same
    refine (sessions_ensures (returnBuf_every trivial trivial) ?_).seq
      fun _ _ _ sessions => sessions
    exact sessions.congr rfl

theorem Initial.sessions (first : Initial s) : Sessions s := by
  obtain ⟨-, -, -, -, reading, -, -, receivers, sockets⟩ := first
  have closed := (receivers ()).1
  refine ⟨⟨?_, ?_⟩, ?_, ?_⟩ <;> simp [reading, closed, sockets]

theorem single_when_alone {T : Type} [DecidableEq T] [DecidableEq O] {observers : Unit → List O}
    {s : Config T (Shared Unit O) Hand (Op Unit O) Res}
    (run : ((semantics observers).system Initial {}).ReachableUnder (Serial Alone Unguarded) s) :
    (∀ t, s.code t = .ret ()) → Single s.shared := by
  intro rest
  have sessions : Sessions s.shared := holds_at_rest (I := Sessions) (fun _ first => first.sessions)
    (fun _ _ _ _ _ sessions alone entered => enter_sessions sessions alone entered) run rest
  exact sessions.toSingle

/-- One receiver without observers. -/
def alone : System (Config Bool (Shared Unit Nat) Hand (Op Unit Nat) Res)
    (Label Bool Outcome (Entry Unit)) :=
  (semantics fun _ => []).system Initial {}

theorem unused_alone : alone.initial unused :=
  ⟨⟨rfl, rfl, rfl, rfl, rfl, rfl, rfl, fun _ => ⟨rfl, rfl⟩, rfl⟩, fun _ => ⟨rfl, rfl⟩⟩

/-- Start, a datagram, Stop, Start again, and then the aborted read of the first session. -/
def restarting : List (Label Bool Outcome (Entry Unit)) :=
  List.flatten [calling true (.init ()) 4 .success, calling true (.start ()) 16 .success,
    calling true (.consume 0 10 false) 15 .success, calling true (.stop ()) 5 .success,
    calling true (.start ()) 17 .success, calling true (.consume 0 0 true) 5 .success]

theorem restarting_runs :
    (alone.runUnder (Serial Alone Unguarded) unused restarting).map
      (fun s => decide ((∀ t, s.code t = .ret ()) ∧ s.shared.sockets = [1] ∧
        s.shared.pool.reading = [⟨1, 1, 1⟩])) = some true := by
  decide +kernel

theorem single_after_restarting :
    ∃ s, alone.runUnder (Serial Alone Unguarded) unused restarting = some s ∧
      s.shared.sockets = [1] ∧ Single s.shared := by
  obtain ⟨s, ran, ended⟩ := Option.map_eq_some_iff.mp restarting_runs
  obtain ⟨rest, sockets, -⟩ := of_decide_eq_true ended
  exact ⟨s, ran, sockets,
    single_when_alone (System.runUnder_reachable (.initial unused_alone) ran) rest⟩

def Anytime (_ : Shared Unit O) (_ : Entry Unit) : Prop := True

instance (s : Shared Unit O) (e : Entry Unit) : Decidable (Anytime s e) := .isTrue trivial

/-- The read fails, and the receiver is started again. -/
def startingAgain : List (Label Bool Outcome (Entry Unit)) :=
  List.flatten [calling true (.init ()) 4 .success, calling true (.start ()) 16 .success,
    calling true (.consume 0 0 true) 5 .success, calling true (.start ()) 16 .success]

theorem startingAgain_runs :
    (alone.runUnder (Serial Anytime Unguarded) unused startingAgain).map
      (fun s => decide ((∀ t, s.code t = .ret ()) ∧ s.shared.sockets = [1, 0])) = some true := by
  decide +kernel

theorem two_sockets_after_error :
    ¬ ∀ s, alone.ReachableUnder (Serial Anytime Unguarded) s →
      (∀ t, s.code t = .ret ()) → Single s.shared := by
  intro single
  obtain ⟨s, ran, ended⟩ := Option.map_eq_some_iff.mp startingAgain_runs
  obtain ⟨rest, sockets⟩ := of_decide_eq_true ended
  have now := (single s (System.runUnder_reachable (.initial unused_alone) ran) rest).sockets
  have few := congrArg List.length now
  rw [sockets] at few
  cases socket : (s.shared.receivers ()).m_UdpSocket <;> simp [socket] at few

end TestIOCP.Udp
