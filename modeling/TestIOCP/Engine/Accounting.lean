import TestIOCP.Engine.Released

/-! What the five counters of a connecter say about its outstanding operations. They
wrap around, so IsOver compares two sums that may lie on different sides of the
overflow. -/
namespace TestIOCP.Engine.Connecter
open Transition Program Semantics

variable {s s' : Shared Connecter} {l : Task} {w v : Obj} {due : Int}

def outstanding (s : Shared Connecter) (w : Obj) : Nat :=
  (operations s w).length

/-- How often ReleaseObject was called for an object. -/
def releases (s : Shared Connecter) (w : Obj) : Nat :=
  s.released.countP (fun x => x.1 = w)

/-- The operations that were posted less the completions, as the code would compute it. -/
def balance (counters : Counter → Int) : Int :=
  wrap (counters .m_nRecvNum + counters .m_nWriteNum - counters .m_nRecvedNum -
    counters .m_nWritedNum - counters .m_nErrorNum)

/-- The counters tell what is outstanding, and ReleaseObject came once, at the end. -/
structure Accounts (s : Shared Connecter) (w : Obj) : Prop where
  balance : balance (s.counters w) = outstanding s w
  once : releases s w ≤ 1
  late : 0 < releases s w → outstanding s w = 0 ∧ (s.objects w).m_TcpSocket = none

/-- While no call is running, every connecter accounts for its operations. -/
def Accountable {T : Type} (s : Config T (Shared Connecter) Task (Op Connecter) Res) : Prop :=
  (∀ t, s.code t = .ret ()) → ∀ w < s.shared.allocated, Accounts s.shared w

/-- What a post and a release test must find: fewer than 2^31 operations are outstanding,
and the sums that IsOver compares have not been separated by the overflow. -/
def InRange (s : Shared Connecter) : Op Connecter → Prop
  | .post _ req => outstanding s req.m_pObserver + 1 < 2 ^ 31
  | .isOver w => outstanding s w = 0 ∨
    (outstanding s w : Int) ≤ wrap (s.counters w .m_nWriteNum + s.counters w .m_nRecvNum) + 2 ^ 31
  | _ => True

instance (s : Shared Connecter) : (op : Op Connecter) → Decidable (InRange s op)
  | .post _ req => inferInstanceAs (Decidable (outstanding s req.m_pObserver + 1 < 2 ^ 31))
  | .isOver _ => inferInstanceAs (Decidable (_ ∨ _))
  | .get _ | .set _ _ | .zero _ _ | .count _ _ | .associateDevice _ | .closesocket _ | .replies _
  | .release _ | .workerPop | .workerNew | .workerPush _ | .acceptNum _ => .isTrue trivial

/-- The books of a connecter; due is how many more operations than are outstanding the
counters still have to learn about. -/
structure Books (s : Shared Connecter) (w : Obj) (due : Int) : Prop where
  balance : (2 ^ 32 : Int) ∣ s.counters w .m_nWriteNum + s.counters w .m_nRecvNum -
    (s.counters w .m_nRecvedNum + s.counters w .m_nWritedNum + s.counters w .m_nErrorNum) -
    (outstanding s w + due)
  few : outstanding s w < 2 ^ 31
  socket : ∀ h, (s.objects w).m_TcpSocket = some h → h ∈ s.sockets
  fresh : ∀ h, (s.objects w).m_TcpSocket = some h → h ∉ s.associated →
    (s.objects w).m_bConnected = false ∧ operations s w = []
  once : releases s w ≤ 1
  late : 0 < releases s w → operations s w = [] ∧ (s.objects w).m_TcpSocket = none

/-- A disconnect is only posted by a Stop that closes the socket. -/
def Closing (s : Shared Connecter) (w : Obj) : Prop :=
  ∀ posted ∈ operations s w, posted.req.m_nOperateType = .SOCKET_DISCONNECT →
    (s.objects w).m_TcpSocket = none

/-- What does not depend on a call that is running. -/
structure Separate (s : Shared Connecter) : Prop where
  known : ∀ posted ∈ s.pending, posted.req.m_pObserver < s.allocated
  releasedKnown : ∀ x ∈ s.released, x.1 < s.allocated
  apart : ∀ u < s.allocated, ∀ v < s.allocated, ∀ h, (s.objects u).m_TcpSocket = some h →
    (s.objects v).m_TcpSocket = some h → u = v

structure Rests (s : Shared Connecter) : Prop where
  separate : Separate s
  books : ∀ w < s.allocated, Books s w 0 ∧ Closing s w

/-- A call works on an object. -/
structure Busy (s : Shared Connecter) (w : Obj) (due : Int) : Prop where
  separate : Separate s
  known : w < s.allocated
  books : Books s w due
  others : ∀ v < s.allocated, v ≠ w → Books s v 0 ∧ Closing s v

theorem wrap_range (i : Int) : -2 ^ 31 ≤ wrap i ∧ wrap i < 2 ^ 31 ∧
    (2 ^ 32 : Int) ∣ wrap i - i := by
  have low := @Int.le_bmod i (2 ^ 32) (by decide)
  have high := @Int.bmod_lt i (2 ^ 32) (by decide)
  have same := Int.dvd_bmod_sub_self (x := i) (m := 2 ^ 32)
  refine ⟨?_, ?_, same⟩ <;> simp only [wrap] <;> omega

/-- With no overflow between its sums, the release test is exact. -/
theorem Books.over_iff (books : Books s w 0) (range : InRange s (.isOver w)) :
    Over (s.counters w) ↔ outstanding s w = 0 := by
  obtain ⟨divides, few, -⟩ := books
  have posted := wrap_range (s.counters w .m_nWriteNum + s.counters w .m_nRecvNum)
  have counted := wrap_range (s.counters w .m_nRecvedNum + s.counters w .m_nWritedNum +
    s.counters w .m_nErrorNum)
  simp only [InRange] at range
  simp only [Over]
  omega

/-- When it finds the sums separated it takes a session for over that is not. -/
theorem Books.over_of_separated (books : Books s w 0) (range : ¬ InRange s (.isOver w)) :
    Over (s.counters w) ∧ 0 < outstanding s w := by
  obtain ⟨divides, few, -⟩ := books
  have posted := wrap_range (s.counters w .m_nWriteNum + s.counters w .m_nRecvNum)
  have counted := wrap_range (s.counters w .m_nRecvedNum + s.counters w .m_nWritedNum +
    s.counters w .m_nErrorNum)
  simp only [InRange] at range
  simp only [Over]
  omega

/-- Nothing of a connecter changes. -/
theorem Books.congr (books : Books s v due) (counters : s'.counters v = s.counters v)
    (pending : operations s' v = operations s v)
    (socket : (s'.objects v).m_TcpSocket = (s.objects v).m_TcpSocket)
    (connected : (s'.objects v).m_bConnected = (s.objects v).m_bConnected)
    (system : ∀ h, (s.objects v).m_TcpSocket = some h →
      (h ∈ s.sockets → h ∈ s'.sockets) ∧ (h ∈ s.associated → h ∈ s'.associated))
    (released : releases s' v = releases s v) : Books s' v due := by
  obtain ⟨balance, few, own, fresh, once, late⟩ := books
  rw [outstanding, ← pending] at balance few
  refine ⟨counters ▸ balance, few, fun h has => ?_, fun h has unbound => ?_, released ▸ once, ?_⟩
  · rw [socket] at has
    exact (system h has).1 (own h has)
  · rw [socket] at has
    rw [connected, pending]
    exact fresh h has fun bound => unbound ((system h has).2 bound)
  · rw [released, pending, socket]
    exact late

theorem Closing.congr (closing : Closing s v) (pending : operations s' v = operations s v)
    (socket : (s'.objects v).m_TcpSocket = (s.objects v).m_TcpSocket) : Closing s' v := by
  rw [Closing, pending, socket]
  exact closing

namespace Separate

theorem congr (separate : Separate s) (allocated : s'.allocated = s.allocated)
    (pending : ∀ posted ∈ s'.pending, posted ∈ s.pending ∨ posted.req.m_pObserver < s.allocated)
    (released : ∀ x ∈ s'.released, x ∈ s.released ∨ x.1 < s.allocated)
    (socket : ∀ v h, (s'.objects v).m_TcpSocket = some h → (s.objects v).m_TcpSocket = some h) :
    Separate s' := by
  constructor
  · intro posted inside
    rw [allocated]
    exact (pending posted inside).elim (separate.known posted) id
  · intro x inside
    rw [allocated]
    exact (released x inside).elim (separate.releasedKnown x) id
  · rw [allocated]
    exact fun u known v known' h has has' =>
      separate.apart u known v known' h (socket u h has) (socket v h has')

end Separate

/-- The socket of the object has a completion port. -/
def Bound (s : Shared Connecter) (w : Obj) : Prop :=
  ∀ h, (s.objects w).m_TcpSocket = some h → h ∈ s.associated

theorem Books.bound (books : Books s w due) (connected : (s.objects w).m_bConnected = true) :
    Bound s w := by
  intro h has
  by_contra unbound
  exact absurd connected (by simp [(books.fresh h has unbound).1])

theorem Books.unreleased (books : Books s w due) (own : (s.objects w).m_TcpSocket = some h) :
    releases s w = 0 := by
  by_contra back
  exact absurd own (by simp [(books.late (Nat.pos_of_ne_zero back)).2])

namespace Busy

/-- The history of the sessions does not matter. -/
theorem ignore (busy : Busy s w due) (serving : List Obj) (begun : List (Obj × Nat)) :
    Busy { s with serving, begun } w due := by
  refine ⟨busy.separate.congr rfl (fun _ => .inl) (fun _ => .inl) fun _ _ => id, busy.known,
    busy.books.congr rfl rfl rfl rfl (fun _ _ => ⟨id, id⟩) rfl, fun v known other => ?_⟩
  obtain ⟨books, closing⟩ := busy.others v known other
  exact ⟨books.congr rfl rfl rfl rfl (fun _ _ => ⟨id, id⟩) rfl, closing.congr rfl rfl⟩

/-- A field of the object is set. -/
theorem set (busy : Busy s w due) {f : Connecter → Connecter}
    (socket : ∀ h, (f (s.objects w)).m_TcpSocket = some h → (s.objects w).m_TcpSocket = some h)
    (connected : Bound s w ∨ ((f (s.objects w)).m_bConnected = true →
      (s.objects w).m_bConnected = true)) :
    Busy { s with objects := Function.update s.objects w (f (s.objects w)) } w due := by
  refine ⟨busy.separate.congr rfl (fun _ => .inl) (fun _ => .inl) fun v h => ?_, busy.known, ?_,
    fun v known other => ?_⟩
  · by_cases same : v = w
    · subst same
      simpa using socket h
    · simp [same]
  · obtain ⟨balance, few, own, fresh, once, late⟩ := busy.books
    refine ⟨balance, few, fun h has => ?_, fun h has unbound => ?_, once, fun back => ?_⟩
    · exact own h (socket h (by simpa using has))
    · have before := socket h (by simpa using has)
      refine (fresh h before unbound).imp_left fun apart => ?_
      rcases connected with bound | connected
      · exact absurd (bound h before) unbound
      · rw [Bool.eq_false_iff] at apart ⊢
        exact fun now => apart (connected (by simpa using now))
    · refine (late back).imp_right fun closed => ?_
      rw [Option.eq_none_iff_forall_ne_some] at closed ⊢
      exact fun h has => closed h (socket h (by simpa using has))
  · obtain ⟨books, closing⟩ := busy.others v known other
    exact ⟨books.congr rfl rfl (by simp [other]) (by simp [other]) (fun _ _ => ⟨id, id⟩) rfl,
      closing.congr rfl (by simp [other])⟩

theorem count (busy : Busy s w due) (c : Counter) :
    Busy (s.write w c (wrap (s.counters w c + 1))) w (if c.posts then due + 1 else due - 1) := by
  refine ⟨busy.separate.congr rfl (fun _ => .inl) (fun _ => .inl) fun _ _ => id, busy.known, ?_,
    fun v known other => ?_⟩
  · obtain ⟨balance, few, own, fresh, once, late⟩ := busy.books
    refine ⟨?_, few, own, fresh, once, late⟩
    have counted := wrap_range (s.counters w c + 1)
    have same : outstanding (s.write w c (wrap (s.counters w c + 1))) w = outstanding s w := rfl
    rw [same]
    simp only [Shared.write, Function.update_self, Function.update_apply]
    cases c <;> simp [Counter.posts] <;> omega
  · obtain ⟨books, closing⟩ := busy.others v known other
    exact ⟨books.congr (by simp [Shared.write, other]) rfl rfl rfl (fun _ _ => ⟨id, id⟩) rfl,
      closing.congr rfl rfl⟩

/-- An operation is posted and not counted yet. -/
theorem post (busy : Busy s w due) (bound : Bound s w) (unreleased : releases s w = 0)
    (few : outstanding s w + 1 < 2 ^ 31) (type : OperateType) :
    Busy { s with pending := ⟨⟨w, type⟩, s.connection w⟩ :: s.pending } w (due - 1) := by
  have more : operations { s with pending := ⟨⟨w, type⟩, s.connection w⟩ :: s.pending } w =
      ⟨⟨w, type⟩, s.connection w⟩ :: operations s w := by
    simp [operations]
  refine ⟨busy.separate.congr rfl (fun posted inside => ?_) (fun _ => .inl) fun _ _ => id,
    busy.known, ⟨?_, ?_, busy.books.socket, fun h has unbound => ?_, busy.books.once, ?_⟩,
    fun v known other => ?_⟩
  · rcases List.mem_cons.mp inside with rfl | before
    · exact .inr busy.known
    · exact .inl before
  · have balance := busy.books.balance
    rw [outstanding, more, List.length_cons]
    rw [outstanding] at balance
    push_cast
    omega
  · rw [outstanding, more, List.length_cons]
    exact few
  · exact absurd (bound h has) unbound
  · intro back
    have : releases s w ≠ 0 := Nat.ne_of_gt back
    exact absurd unreleased this
  · obtain ⟨books, closing⟩ := busy.others v known other
    have same : operations { s with pending := ⟨⟨w, type⟩, s.connection w⟩ :: s.pending } v =
        operations s v := by
      simp [operations, Ne.symm other]
    exact ⟨books.congr rfl same rfl rfl (fun _ _ => ⟨id, id⟩) rfl, closing.congr same rfl⟩

/-- The socket of the object is closed and forgotten. -/
theorem close (busy : Busy s w due) (own : (s.objects w).m_TcpSocket = some h) :
    Busy { s with
      sockets := s.sockets.erase h
      associated := s.associated.erase h
      objects := Function.update s.objects w { s.objects w with m_TcpSocket := none } } w due := by
  refine ⟨busy.separate.congr rfl (fun _ => .inl) (fun _ => .inl) fun v k => ?_, busy.known, ?_,
    fun v known other => ?_⟩
  · by_cases same : v = w
    · subst same
      simp
    · simp [same]
  · obtain ⟨balance, few, -, -, once, late⟩ := busy.books
    exact ⟨balance, few, by simp, by simp, once, fun back => ⟨(late back).1, by simp⟩⟩
  · obtain ⟨books, closing⟩ := busy.others v known other
    refine ⟨books.congr rfl rfl (by simp [other]) (by simp [other]) (fun k has => ?_) rfl,
      closing.congr rfl (by simp [other])⟩
    have apart : k ≠ h := by
      rintro rfl
      exact other (busy.separate.apart v known w busy.known k has own)
    exact ⟨(List.mem_erase_of_ne apart).mpr, (List.mem_erase_of_ne apart).mpr⟩

/-- A session whose operations have all been completed is released. -/
theorem release (busy : Busy s w 0) (over_ : outstanding s w = 0) (unreleased : releases s w = 0)
    (closed : (s.objects w).m_TcpSocket = none) (list : List Obj) (connection : Nat) :
    Rests { s with m_WorkerList := list, released := (w, connection) :: s.released } := by
  refine ⟨busy.separate.congr rfl (fun _ => .inl) (fun x inside => ?_) fun _ _ => id,
    fun v known => ?_⟩
  · rcases List.mem_cons.mp inside with rfl | before
    · exact .inr busy.known
    · exact .inl before
  · by_cases same : v = w
    · subst same
      obtain ⟨balance, few, own, fresh, -, -⟩ := busy.books
      have none_ : operations s v = [] := List.length_eq_zero_iff.mp over_
      refine ⟨⟨balance, few, own, fresh, ?_, fun _ => ⟨none_, closed⟩⟩, fun _ _ _ => closed⟩
      simp only [releases] at unreleased ⊢
      simp [unreleased]
    · obtain ⟨books, closing⟩ := busy.others v known same
      exact ⟨books.congr rfl rfl rfl rfl (fun _ _ => ⟨id, id⟩) (by simp [releases, Ne.symm same]),
        closing.congr rfl rfl⟩

theorem rests (busy : Busy s w 0) (closing : Closing s w) : Rests s := by
  refine ⟨busy.separate, fun v known => ?_⟩
  by_cases same : v = w
  · subst same
    exact ⟨busy.books, closing⟩
  · exact busy.others v known same

end Busy

@[simp] theorem inRange_get {α : Type} {Q : α → Shared Connecter → Task → Prop}
    (rest : Connecter → ConnecterCall α) :
    (Engine.get w >>= rest).Ensures step InRange s l Q ↔
      (rest (s.objects w)).Ensures step InRange s l Q := by
  simp only [Engine.get, perform, perform_bind, ensures_op]
  exact ⟨fun ensures => ensures trivial {}, fun ensures _ _ => ensures⟩

theorem set_ensures {f : Connecter → Connecter} :
    (Engine.set w f).Ensures step InRange s l (fun _ s' l' => l' = l ∧
      s' = { s with objects := Function.update s.objects w (f (s.objects w)) }) := by
  intro _ choice s' l' r taken
  obtain ⟨performed, rfl⟩ := step_iff.mp taken
  cases performed
  exact ⟨rfl, rfl⟩

theorem Busy.count_ensures (busy : Busy s w due) (c : Counter) :
    (Engine.count w c : ConnecterCall Unit).Ensures step InRange s l (fun _ s' _ =>
      s'.objects = s.objects ∧ s'.pending = s.pending ∧ s'.associated = s.associated ∧
        s'.released = s.released ∧ Busy s' w (if c.posts then due + 1 else due - 1)) := by
  intro _ choice s' l' r taken
  obtain ⟨performed, rfl⟩ := step_iff.mp taken
  cases performed
  exact ⟨rfl, rfl, rfl, rfl, busy.count c⟩

/-- What a post leaves: its operation may be outstanding. -/
structure PostedBy (s s' : Shared Connecter) (w : Obj) (type : OperateType) : Prop where
  socket : (s'.objects w).m_TcpSocket = (s.objects w).m_TcpSocket
  associated : s'.associated = s.associated
  released : releases s' w = releases s w
  pending : operations s' w = operations s w ∨
    ∃ connection, operations s' w = ⟨⟨w, type⟩, connection⟩ :: operations s w

theorem PostedBy.closing (posted : PostedBy s s' w type) (other : type ≠ .SOCKET_DISCONNECT)
    (closing : Closing s w) : Closing s' w := by
  rw [Closing, posted.socket]
  rcases posted.pending with same | ⟨connection, more⟩
  · rw [same]
    exact closing
  · rw [more]
    intro p inside disconnect
    rcases List.mem_cons.mp inside with rfl | before
    · exact absurd disconnect other
    · exact closing p before disconnect

theorem Busy.postCounted_ensures (busy : Busy s w due) (bound : Bound s w) (type : OperateType)
    {c : Counter} (posts : c.posts = true) :
    (postCounted w type c : ConnecterCall Int).Ensures step InRange s l (fun r s' _ =>
      PostedBy s s' w type ∧ Busy s' w due ∧ (r = 0 ∨ r = -4)) := by
  simp only [postCounted, inRange_get, perform, perform_bind, ensures_op]
  intro few choice
  have few : outstanding s w + 1 < 2 ^ 31 := few
  rcases post_cases s l choice (Endpoint.m_TcpSocket (s.objects w)) w type with
    same | ⟨⟨⟨h, -, own⟩, suc⟩, same⟩
  all_goals rw [same]
  · refine (set_ensures (f := fun s => Endpoint.withStatus s .error)).seq ?_
    rintro _ _ _ ⟨rfl, rfl⟩
    exact ⟨⟨by simp [Endpoint.withStatus], rfl, rfl, .inl rfl⟩,
      busy.set (f := fun x => Endpoint.withStatus x .error) (fun _ => id) (.inr id), .inr rfl⟩
  · have begun : s.posted l w type = { s with
        serving := (s.begin l w).serving
        begun := (s.begin l w).begun
        pending := ⟨⟨w, type⟩, s.connection w⟩ :: s.pending } := by
      cases l <;> rfl
    have posting : Busy (s.posted l w type) w (due - 1) := begun ▸
      (busy.post bound (busy.books.unreleased own) few type).ignore _ _
    have counted (l₁ : Task) : (do Engine.count w c; return 0 : ConnecterCall Int).Ensures step
        InRange (s.posted l w type) l₁ (fun r s' _ => PostedBy s s' w type ∧ Busy s' w due ∧
            (r = 0 ∨ r = -4)) := by
      refine (posting.count_ensures c).seq ?_
      rintro _ s' l' ⟨objects, pending, associated, released, busy⟩
      rw [if_pos posts, Int.sub_add_cancel] at busy
      refine ⟨⟨by rw [objects, begun], by rw [associated, begun], ?_, .inr ⟨s.connection w, ?_⟩⟩,
        busy, .inl rfl⟩
      · rw [releases, released, begun]
        rfl
      · rw [operations, pending, begun]
        simp [operations]
    cases outcome : choice.outcome with
    | failed => exact absurd outcome suc
    | pending => exact counted _
    | success => exact counted _

/-- Stop leaves the object without a socket. -/
theorem Busy.stop_ensures (busy : Busy s w due) :
    (stop w).Ensures step InRange s l (fun _ s' _ =>
      (s'.objects w).m_TcpSocket = none ∧ releases s' w = releases s w ∧ Busy s' w due) := by
  refine set_ensures.seq ?_
  rintro _ _ _ ⟨rfl, rfl⟩
  replace busy := busy.set (f := fun s => { s with m_nStatus := .stop }) (fun _ => id) (.inr id)
  have closing {s₂ : Shared Connecter} {l : Task} (busy : Busy s₂ w due)
      (released : releases s₂ w = releases s w) {h : Sock}
      (own : (s₂.objects w).m_TcpSocket = some h) :
      (do
        perform (.closesocket h)
        Engine.set w fun s => { s with m_TcpSocket := none }
        return 0 : ConnecterCall Int).Ensures step InRange s₂ l (fun _ s' _ =>
          (s'.objects w).m_TcpSocket = none ∧ releases s' w = releases s w ∧ Busy s' w due) := by
    refine (ensures_op _ _).mpr fun _ _ => set_ensures.seq ?_
    rintro _ _ _ ⟨rfl, rfl⟩
    exact ⟨by simp, released, busy.close own⟩
  simp only [inRange_get]
  split
  · rename_i h own
    split
    · rename_i connected
      refine (busy.postCounted_ensures (busy.books.bound connected) .SOCKET_DISCONNECT rfl).seq ?_
      rintro _ s' l' ⟨posted, busy, _⟩
      exact closing busy posted.released (posted.socket.trans own)
    · exact closing busy rfl own
  · rename_i closed
    exact ⟨closed, rfl, busy⟩

theorem Busy.uninitObject_ensures (busy : Busy s w due) :
    (uninitObject w).Ensures step InRange s l (fun _ s' _ =>
      (s'.objects w).m_TcpSocket = none ∧ releases s' w = releases s w ∧ Busy s' w due) :=
  busy.stop_ensures.seq fun _ _ _ ended => ended

/-- The release test of a session whose socket is closed. -/
theorem Busy.releaseIfOver_ensures (busy : Busy s w 0) (closed : (s.objects w).m_TcpSocket = none)
    (unreleased : releases s w = 0) :
    (releaseIfOver w).Ensures step InRange s l (fun _ s' _ => Rests s') := by
  have closing {s' : Shared Connecter}
      (closed : (s'.objects w).m_TcpSocket = none) : Closing s' w :=
    fun _ _ _ => closed
  refine (ensures_op _ _).mpr fun range choice => ?_
  simp only [Shared.perform]
  by_cases over_ : Over (s.counters w)
  · have silent := (busy.books.over_iff range).mp over_
    have tested := busy.ignore (s.serving.filter (· ≠ w)) s.begun
    rw [if_pos over_]
    simp only
    change Ensures _ _ (Engine.get w >>= _) _ _ _
    rw [inRange_get]
    split
    · exact (ensures_op _ _).mpr fun _ _ => tested.release silent unreleased closed _ _
    · exact tested.rests (closing closed)
  · rw [if_neg over_]
    exact busy.rests (closing closed)

theorem Busy.close_ensures (busy : Busy s w 0) (unreleased : releases s w = 0) (ret : Int) :
    (do let _ ← uninitObject w; releaseIfOver w; return ret : ConnecterCall Int).Ensures step
      InRange
      s l (fun _ s' _ => Rests s') := by
  refine busy.uninitObject_ensures.seq ?_
  rintro _ s l ⟨closed, same, busy⟩
  exact (busy.releaseIfOver_ensures closed (same.trans unreleased)).seq fun _ _ _ rests => rests

theorem Busy.readOrClose_ensures (busy : Busy s w 0) (bound : Bound s w) (closing : Closing s w)
    (unreleased : releases s w = 0) :
    (readOrClose w).Ensures step InRange s l (fun _ s' _ => Rests s') := by
  refine (busy.postCounted_ensures bound .SOCKET_READ rfl).seq ?_
  rintro r s' l ⟨posted, busy, _⟩
  split
  · refine busy.uninitObject_ensures.seq ?_
    rintro _ s'' l ⟨closed, same, busy⟩
    refine set_ensures.seq ?_
    rintro _ _ _ ⟨rfl, rfl⟩
    have failed := busy.set (f := fun s => { s with m_nStatus := .error }) (fun _ => id) (.inr id)
    exact (failed.releaseIfOver_ensures (by simpa using closed)
      (same.trans (posted.released.trans unreleased))).seq fun _ _ _ rests => rests
  · exact busy.rests (posted.closing (by simp) closing)

/-- The handler of a completion owes its count. -/
theorem Rests.complete (rests : Rests s) {posted : Posted} (member : posted ∈ s.pending) :
    let w := posted.req.m_pObserver
    let s' := { s with pending := s.pending.erase posted }
    Busy s' w 1 ∧ Bound s' w ∧ Closing s' w ∧ releases s' w = 0 ∧
      (posted.req.m_nOperateType = .SOCKET_DISCONNECT → (s.objects w).m_TcpSocket = none) := by
  intro w s'
  have known := rests.separate.known posted member
  obtain ⟨books, closing⟩ := rests.books w known
  have here : posted ∈ operations s w := by simpa [operations] using ⟨member, rfl⟩
  have fewer : ∀ p ∈ operations s' w, p ∈ operations s w := by
    simp only [s', operations, List.mem_filter]
    exact fun p inside => ⟨List.mem_of_mem_erase inside.1, inside.2⟩
  have less : operations s' w = (operations s w).erase posted := by
    simp only [s', operations, List.erase_filter]
  have one : outstanding s' w + 1 = outstanding s w := by
    rw [outstanding, less, List.length_erase_of_mem here, outstanding]
    have := List.length_pos_of_mem here
    omega
  have unreleased : releases s w = 0 := by
    by_contra back
    rw [(books.late (Nat.pos_of_ne_zero back)).1] at here
    cases here
  refine ⟨⟨?_, known, ⟨?_, ?_, books.socket, fun h has unbound => ?_, books.once, fun back => ?_⟩,
    fun v below other => ?_⟩, fun h has => ?_, fun p inside =>
      closing p (fewer p inside), unreleased,
    closing posted here⟩
  · exact rests.separate.congr rfl (fun _ inside => .inl (List.mem_of_mem_erase inside))
      (fun _ => .inl) fun _ _ => id
  · have balance := books.balance
    have same : s'.counters = s.counters := rfl
    rw [same]
    omega
  · have few := books.few
    omega
  · rw [(books.fresh h has unbound).2] at here
    cases here
  · exact absurd unreleased (Nat.ne_of_gt back)
  · obtain ⟨books, closing⟩ := rests.books v below
    have same : operations s' v = operations s v := operations_erase (Ne.symm other)
    exact ⟨books.congr rfl same rfl rfl (fun _ _ => ⟨id, id⟩) rfl, closing.congr same rfl⟩
  · by_contra unbound
    rw [(books.fresh h has unbound).2] at here
    cases here

theorem consumeReq_accounts {posted : Posted} (rests : Rests s) (member : posted ∈ s.pending)
    (bytenumber : Nat) (error : Bool) :
    (consumeReq bytenumber error posted.req).Ensures step InRange
      { s with pending := s.pending.erase posted } l (fun _ s' _ => Rests s') := by
  obtain ⟨busy, bound, closing, unreleased, disconnect⟩ := rests.complete member
  simp only [consumeReq]
  cases error with
  | true =>
    refine busy.uninitObject_ensures.seq ?_
    rintro _ s₁ l ⟨closed, same, busy⟩
    refine set_ensures.seq ?_
    rintro _ _ _ ⟨rfl, rfl⟩
    replace busy := busy.set (f := fun s => { s with m_nStatus := .error }) (fun _ => id) (.inr id)
    refine (busy.count_ensures .m_nErrorNum).seq ?_
    rintro _ s₂ l ⟨objects, _, _, released, busy⟩
    refine (busy.releaseIfOver_ensures (by simpa [objects] using closed) ?_).seq
      fun _ _ _ rests => rests
    rw [releases, released]
    exact same.trans unreleased
  | false =>
    have counted (c : Counter) (completes : c.posts = false) {α : Type}
        {rest : ConnecterCall α} (ensures : ∀ s' l, Busy s' posted.req.m_pObserver 0 →
          Bound s' posted.req.m_pObserver → Closing s' posted.req.m_pObserver →
          releases s' posted.req.m_pObserver = 0 →
          (s'.objects posted.req.m_pObserver = s.objects posted.req.m_pObserver) →
          rest.Ensures step InRange s' l (fun _ s' _ => Rests s')) :
        (do Engine.count posted.req.m_pObserver c; rest : ConnecterCall α).Ensures step InRange
          { s with pending := s.pending.erase posted } l (fun _ s' _ => Rests s') := by
      refine (busy.count_ensures c).seq ?_
      rintro _ s' l ⟨objects, pending, associated, released, busy⟩
      rw [completes] at busy
      refine ensures s' l busy ?_ ?_ ?_ (by rw [objects])
      · rw [Bound, objects, associated]
        exact bound
      · exact closing.congr (by rw [operations, pending]; rfl) (by rw [objects])
      · rw [releases, released]
        exact unreleased
    cases operate : posted.req.m_nOperateType
    case SOCKET_CONNECT =>
      refine counted .m_nRecvedNum rfl fun s' l busy bound closing unreleased _ => ?_
      refine set_ensures.seq ?_
      rintro _ _ _ ⟨rfl, rfl⟩
      refine Busy.readOrClose_ensures
        (busy.set (f := fun s => { s with m_bConnected := true }) (fun _ => id) (.inl bound))
        (fun h has => bound h (by simpa using has)) (closing.congr rfl (by simp)) unreleased
    case SOCKET_DISCONNECT =>
      refine set_ensures.seq ?_
      rintro _ _ _ ⟨rfl, rfl⟩
      replace busy := busy.set (f := fun s => { s with m_bConnected := false }) (fun _ => id)
        (.inr (by simp))
      refine (busy.count_ensures .m_nRecvedNum).seq ?_
      rintro _ s' l ⟨objects, pending, associated, released, busy⟩
      refine (busy.releaseIfOver_ensures ?_ ?_).seq fun _ _ _ rests => rests
      · rw [objects]
        simpa using disconnect operate
      · rw [releases, released]
        exact unreleased
    case SOCKET_READ =>
      refine counted .m_nRecvedNum rfl fun s' l busy bound closing unreleased _ => ?_
      split
      · exact busy.close_ensures unreleased (-1)
      · exact busy.readOrClose_ensures bound closing unreleased
    case SOCKET_WRITE =>
      refine counted .m_nWritedNum rfl fun s' l busy _ closing _ _ => ?_
      exact busy.rests closing
    all_goals
      refine counted .m_nErrorNum rfl fun s' l busy _ _ unreleased _ => ?_
      exact busy.close_ensures unreleased (-2)

theorem Rests.busy (rests : Rests s) (known : w < s.allocated) : Busy s w 0 :=
  ⟨rests.separate, known, (rests.books w known).1, fun v below _ => rests.books v below⟩

theorem stop_accounts (rests : Rests s) (known : w < s.allocated) :
    (stop w).Ensures step InRange s l (fun _ s' _ => Rests s') :=
  (rests.busy known).stop_ensures.mono fun _ _ _ ⟨closed, _, busy⟩ =>
    busy.rests fun _ _ _ => closed

theorem write_accounts (rests : Rests s) (known : w < s.allocated) :
    (write w).Ensures step InRange s l (fun _ s' _ => Rests s') := by
  simp only [write, inRange_get]
  split
  · exact rests
  · rename_i running
    have connected : (s.objects w).m_bConnected = true := by
      simp only [Bool.or_eq_true, Bool.not_eq_true', not_or] at running
      simpa using running.2
    refine ((rests.busy known).postCounted_ensures ((rests.books w known).1.bound connected)
      .SOCKET_WRITE rfl).mono ?_
    rintro _ s' l ⟨posted, busy, _⟩
    exact busy.rests (posted.closing (by simp) (rests.books w known).2)

/-- A counter is reset; the books need not balance before all of them are. -/
theorem Busy.zero (busy : Busy s w due) (c : Counter) : ∃ due, Busy (s.write w c 0) w due := by
  obtain ⟨separate, known, ⟨-, few, own, fresh, once, late⟩, others⟩ := busy
  let counters := (s.write w c 0).counters w
  let rest : Int := counters .m_nWriteNum + counters .m_nRecvNum -
    (counters .m_nRecvedNum + counters .m_nWritedNum + counters .m_nErrorNum) - outstanding s w
  have balance : (2 ^ 32 : Int) ∣ counters .m_nWriteNum + counters .m_nRecvNum -
      (counters .m_nRecvedNum + counters .m_nWritedNum + counters .m_nErrorNum) -
      (outstanding s w + rest) := by
    simp [rest]
  refine ⟨rest, separate.congr rfl (fun _ => .inl) (fun _ => .inl) fun _ _ => id, known,
    ⟨balance, few, own, fresh, once, late⟩, fun v known other => ?_⟩
  obtain ⟨books, closing⟩ := others v known other
  exact ⟨books.congr (by simp [Shared.write, other]) rfl rfl rfl (fun _ _ => ⟨id, id⟩) rfl,
    closing.congr rfl rfl⟩

theorem Busy.zero_ensures (busy : Busy s w due) (c : Counter) :
    (Engine.zero w c : ConnecterCall Unit).Ensures step InRange s l (fun _ s' _ =>
      s' = s.write w c 0 ∧ ∃ due, Busy s' w due) := by
  intro _ choice s' l' r taken
  obtain ⟨performed, rfl⟩ := step_iff.mp taken
  cases performed
  exact ⟨rfl, busy.zero c⟩

/-- Before the first operation all counters are zero. -/
theorem Busy.balanced (busy : Busy s w due) (zeroed : ∀ c, s.counters w c = 0)
    (silent : operations s w = []) : Busy s w 0 := by
  obtain ⟨separate, known, ⟨-, few, own, fresh, once, late⟩, others⟩ := busy
  refine ⟨separate, known, ⟨?_, few, own, fresh, once, late⟩, others⟩
  simp [zeroed, outstanding, silent]

/-- The association that succeeds is the first one of the socket. -/
theorem associateDevice_cases (s : Shared Connecter) (l : Task) (choice : Choice)
    (socket : Option Sock) :
    s.perform l choice (.associateDevice socket) = (s, false) ∨ ∃ h, socket = some h ∧
      h ∉ s.associated ∧ s.perform l choice (.associateDevice socket) =
        ({ s with associated := h :: s.associated }, true) := by
  cases socket with
  | none => exact .inl rfl
  | some h =>
    simp only [Shared.perform]
    split
    · rename_i accepted
      exact .inr ⟨h, rfl, accepted.2.1, rfl⟩
    · exact .inl rfl

theorem Busy.associate (busy : Busy s w due) (h : Sock) :
    Busy { s with associated := h :: s.associated } w due := by
  have more (k : Sock) : (k ∈ s.sockets → k ∈ s.sockets) ∧
      (k ∈ s.associated → k ∈ h :: s.associated) := ⟨id, List.mem_cons_of_mem _⟩
  refine ⟨busy.separate.congr rfl (fun _ => .inl) (fun _ => .inl) fun _ _ => id, busy.known,
    busy.books.congr rfl rfl rfl rfl (fun k _ => more k) rfl, fun v known other => ?_⟩
  obtain ⟨books, closing⟩ := busy.others v known other
  exact ⟨books.congr rfl rfl rfl rfl (fun k _ => more k) rfl, closing.congr rfl rfl⟩

theorem start_accounts (rests : Rests s) (known : w < s.allocated) :
    (start w).Ensures step InRange s l (fun _ s' _ => Rests s') := by
  have busy := rests.busy known
  simp only [start, inRange_get]
  split
  · exact rests
  simp only [inRange_get, perform, perform_bind, ensures_op]
  intro _ choice
  rcases associateDevice_cases s l choice (s.objects w).m_TcpSocket with same |
    ⟨h, own, unbound, same⟩
  all_goals rw [same]
  · exact rests
  have silent := (busy.books.fresh h own unbound).2
  simp only [Bool.not_true, Bool.false_eq_true, if_false]
  refine ((busy.associate h).zero_ensures _).seq ?_
  rintro _ _ _ ⟨rfl, _, busy⟩
  refine (busy.zero_ensures _).seq ?_
  rintro _ _ _ ⟨rfl, _, busy⟩
  refine (busy.zero_ensures _).seq ?_
  rintro _ _ _ ⟨rfl, _, busy⟩
  refine (busy.zero_ensures _).seq ?_
  rintro _ _ _ ⟨rfl, _, busy⟩
  refine (busy.zero_ensures _).seq ?_
  rintro _ _ _ ⟨rfl, due, busy⟩
  replace busy := busy.balanced (fun c => by cases c <;> simp [Shared.write]) silent
  refine set_ensures.seq ?_
  rintro _ _ _ ⟨rfl, rfl⟩
  replace busy := busy.set (f := fun s => { s with m_bConnected := false }) (fun _ => id)
    (.inr (by simp))
  refine (busy.postCounted_ensures (fun k has => ?_) .SOCKET_CONNECT rfl).seq ?_
  · have same : k = h := Option.some.inj (Eq.trans (by simpa [Shared.write] using has.symm) own)
    exact same ▸ List.mem_cons_self
  · rintro r s' l ⟨posted, busy, _⟩
    have closing : Closing s' w := by
      refine posted.closing (by simp) fun p inside => ?_
      have inside : p ∈ operations s w := inside
      rw [silent] at inside
      cases inside
    split
    · refine set_ensures.seq ?_
      rintro _ _ _ ⟨rfl, rfl⟩
      exact (busy.set (f := fun s => { s with m_nStatus := .run }) (fun _ => id) (.inr id)).rests
        (closing.congr rfl (by simp))
    · exact busy.rests closing

theorem create_accounts (rests : Rests s) (pallocater : Option Obj) (hTcpSocket : Option Sock)
    (free : ¬ ∃ socket ∈ s.sockets, hTcpSocket = some socket) :
    (initObject s.allocated pallocater hTcpSocket).Ensures step InRange
      { s with
        allocated := s.allocated + 1
        objects := Function.update s.objects s.allocated constructed
        counters := Function.update s.counters s.allocated fun _ => 0
        sockets := hTcpSocket.toList ++ s.sockets } l (fun _ s' _ => Rests s') := by
  have created (object : Connecter) (socket : object.m_TcpSocket = hTcpSocket)
      (apart : object.m_bConnected = false) : Rests { s with
        allocated := s.allocated + 1
        objects := Function.update s.objects s.allocated object
        counters := Function.update s.counters s.allocated fun _ => 0
        sockets := hTcpSocket.toList ++ s.sockets } := by
    have silent : operations s s.allocated = [] :=
      List.filter_eq_nil_iff.mpr fun posted inside =>
        by simpa using (rests.separate.known posted inside).ne
    have unreleased : releases s s.allocated = 0 :=
      List.countP_eq_zero.mpr fun x inside => by
        simpa using (rests.separate.releasedKnown x inside).ne
    have unused (v : Obj) (below : v < s.allocated) (h : Sock)
        (has : (s.objects v).m_TcpSocket = some h) : hTcpSocket ≠ some h := fun same =>
      free ⟨h, (rests.books v below).1.socket h has, same⟩
    refine ⟨⟨fun p inside => ?_, fun x inside => ?_, fun u known v known' h has has' => ?_⟩,
      fun v known => ?_⟩
    · exact (rests.separate.known p inside).trans (Nat.lt_succ_self _)
    · exact (rests.separate.releasedKnown x inside).trans (Nat.lt_succ_self _)
    · simp only [Function.update_apply] at has has'
      rcases Nat.lt_succ_iff_lt_or_eq.mp known with before | rfl <;>
        rcases Nat.lt_succ_iff_lt_or_eq.mp known' with before' | rfl
      · rw [if_neg before.ne] at has
        rw [if_neg before'.ne] at has'
        exact rests.separate.apart u before v before' h has has'
      · rw [if_neg before.ne] at has
        rw [if_pos rfl, socket] at has'
        exact absurd has' (unused u before h has)
      · rw [if_pos rfl, socket] at has
        rw [if_neg before'.ne] at has'
        exact absurd has (unused v before' h has')
      · rfl
    · rcases Nat.lt_succ_iff_lt_or_eq.mp known with before | rfl
      · obtain ⟨books, closing⟩ := rests.books v before
        refine ⟨books.congr (by simp [before.ne]) rfl (by simp [before.ne]) (by simp [before.ne])
          (fun h _ => ⟨List.mem_append_right _, id⟩) rfl, closing.congr rfl (by simp [before.ne])⟩
      · refine ⟨⟨?_, ?_, fun h has => ?_, fun _ _ _ => ⟨by simpa using apart, silent⟩, ?_, ?_⟩, ?_⟩
        · change _ ∣ _ - ((outstanding s s.allocated : Nat) + 0 : Int)
          simp [outstanding, silent]
        · change outstanding s s.allocated < _
          simp [outstanding, silent]
        · simp only [Function.update_self, socket] at has
          simp [has]
        · exact unreleased.le.trans (Nat.zero_le _)
        · exact fun back => absurd unreleased (Nat.ne_of_gt back)
        · intro p inside
          have inside : p ∈ operations s s.allocated := inside
          rw [silent] at inside
          cases inside
  simp only [initObject, Engine.set, perform, perform_bind, ensures_op, inRange_get]
  intro _ _ _ _
  simp only [Shared.perform, Function.update_idem, Function.update_self]
  split <;> exact created _ rfl rfl

/-- Every call may be made at any time. -/
def Anytime (_ : Shared Connecter) (_ : Entry) : Prop := True

instance (s : Shared Connecter) (e : Entry) : Decidable (Anytime s e) := .isTrue trivial

theorem enter_accounts (rests : Rests s) {e : Entry} {p : ConnecterCall Unit}
    (entered : enter s e = some (s', l, p)) :
    p.Ensures step InRange s' l (fun _ s _ => Rests s) := by
  cases e <;> simp only [enter] at entered <;> split at entered
  case create.isTrue => cases entered
  case create.isFalse pallocater hTcpSocket free =>
    cases entered
    exact (create_accounts rests _ _ free).seq fun _ _ _ rests => rests
  case start.isTrue w known =>
    cases entered
    exact (start_accounts rests known).seq fun _ _ _ rests => rests
  case stop.isTrue w known =>
    cases entered
    exact (stop_accounts rests known).seq fun _ _ _ rests => rests
  case write.isTrue w known =>
    cases entered
    exact (write_accounts rests known).seq fun _ _ _ rests => rests
  case complete.isTrue posted bytenumber error member =>
    cases entered
    exact (consumeReq_accounts rests member bytenumber error).seq fun _ _ _ rests => rests
  all_goals cases entered

theorem Initial.rests (first : Initial s) : Rests s := by
  have none_ (w : Obj) : ¬ w < s.allocated := by simp [first.allocated]
  obtain ⟨-, -, released⟩ := first.history
  refine ⟨⟨?_, ?_, fun u known => absurd known (none_ u)⟩, fun w known => absurd known (none_ w)⟩
  · simp [first.pending]
  · simp [released]

/-- A number that the other one differs from by a multiple of the word size. -/
theorem wrap_eq {i n : Int} (same : (2 ^ 32 : Int) ∣ i - n) (low : 0 ≤ n) (high : n < 2 ^ 31) :
    wrap i = n := by
  have range := wrap_range i
  omega

theorem Books.accounts (books : Books s w 0) : Accounts s w := by
  refine ⟨?_, books.once, fun back => (books.late back).imp_left List.length_eq_zero_iff.mpr⟩
  have few := books.few
  have divides := books.balance
  exact wrap_eq (by omega) (by omega) (by omega)

theorem accounts_in_range {T : Type} [DecidableEq T]
    {s : Config T (Shared Connecter) Task (Op Connecter) Res}
    (run : (system T).ReachableUnder (Serial Anytime InRange) s) : Accountable s := by
  intro rest w known
  have rests : Rests s.shared := holds_at_rest (I := Rests) (fun _ first => first.rests)
    (fun _ _ _ _ _ rests _ entered => enter_accounts rests entered) run rest
  exact (rests.books w known).1.accounts

theorem stopping_runs_in_range :
    ((system Unit).runUnder (Serial Anytime InRange) unused stopping).map
      (fun s => s.shared.released) = some [(0, 0)] := by
  decide +kernel

theorem accounts_after_stopping :
    ∃ s, (system Unit).runUnder (Serial Anytime InRange) unused stopping = some s ∧
      s.shared.released = [(0, 0)] ∧ Accountable s := by
  obtain ⟨s, ran, released⟩ := Option.map_eq_some_iff.mp stopping_runs_in_range
  exact ⟨s, ran, released, accounts_in_range
    (System.runUnder_reachable (.initial unused_initial) ran)⟩

end TestIOCP.Engine.Connecter
