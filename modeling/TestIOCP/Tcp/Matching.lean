import TestIOCP.Refinement
import TestIOCP.Tcp.Balance
import TestIOCP.Tcp.Parts
import TestIOCP.Tcp.Worker
import TestIOCP.Tcp.Connecter

/-! The state of CTcpWorker or CTcpConnecter without the lists of buffers and requests, and
the parts of calls that both classes have: each of their runs is matched by one without
the lists. There a Read or a Write that finds no memory is one that the system refuses. -/
namespace TestIOCP.Tcp
open Transition Program
open Engine (Endpoint Counter)

/-- The object of a class and its fields without the counters. -/
class Outlined (F : Type) (G : outParam Type) [Counted F] [Endpoint G] where
  Outlines : G → F → Prop
  socket : ∀ {g : G} {o : F}, Outlines g o → Endpoint.m_TcpSocket g = Endpoint.m_TcpSocket o
  withStatus : ∀ {g : G} {o : F} (status : Status), Outlines g o →
    Outlines (Endpoint.withStatus g status) (Endpoint.withStatus o status)
  withCounters : ∀ {g : G} {o : F} (counters : Counter → Int), Outlines g o →
    Outlines g (Counted.withCounters o counters)
  counters_withStatus : ∀ (o : F) status,
    Counted.counters (Endpoint.withStatus o status) = Counted.counters o
  counters_withCounters : ∀ (o : F) counters,
    Counted.counters (Counted.withCounters o counters) = counters

open Outlined (Outlines)

/-- The result of the last Read or Write is known by its sign only. -/
instance : Outlined Rtsp.Pooled Engine.Worker where
  Outlines g o := g.m_TcpSocket = o.worker.m_TcpSocket ∧ g.m_nStatus = o.worker.m_nStatus ∧
    (g.res < 0 ↔ o.worker.res < 0)
  socket outlines := outlines.1
  withStatus _ outlines := ⟨outlines.1, rfl, outlines.2.2⟩
  withCounters _ outlines := outlines
  counters_withStatus _ _ := rfl
  counters_withCounters _ _ := rfl

instance : Outlined Connecter Engine.Connecter where
  Outlines g o := g = o.toConnecter
  socket := by
    rintro g o rfl
    rfl
  withStatus := by
    rintro g o status rfl
    rfl
  withCounters _ same := same
  counters_withStatus _ _ := rfl
  counters_withCounters _ _ := rfl

section
variable {F G α β : Type} [Counted F] [Endpoint G] [Outlined F G] {s s' : Shared F} {l : Unit}
  {t : Engine.Shared G} {k : Engine.Task} {qs : List Req} {q : Req} {w : Obj}
  {Q : α → Shared F → Unit → β → Engine.Shared G → Engine.Task → Prop}

/-- A posted operation without its request. -/
def Shared.outline (s : Shared F) (p : Posted) : Engine.IOReq :=
  ⟨p.object, (s.reqs p.req).m_nOperateType⟩

/-- The state without the lists; qs are the requests in the hands of the call. The sockets
of the objects are open, and no two objects have the same. -/
structure Matches (s : Shared F) (qs : List Req) (t : Engine.Shared G) : Prop where
  objects : ∀ u, Outlines (t.objects u) (s.objects u)
  counters : ∀ u, t.counters u = Counted.counters (s.objects u)
  requests : Requests (fun _ => True) s qs
  pending : (t.pending.map Engine.Posted.req).Perm (s.pending.map s.outline)
  open_ : ∀ u x, Endpoint.m_TcpSocket (s.objects u) = some x → x ∈ t.sockets
  once : ∀ u v x, Endpoint.m_TcpSocket (s.objects u) = some x →
    Endpoint.m_TcpSocket (s.objects v) = some x → u = v

/-- An operation that touches no object and no request. -/
def Silent : Op F → Prop
  | .get _ | .bufPop | .bufNew | .bufAllocated | .bufPush _ | .reqAllocated | .reqGet _
  | .memcpy _ _ | .wsaSocket => True
  | _ => False

/-- What Read and Write return: 0, or a negative number that says what was missing. -/
def Agree (a b : Int) : Prop :=
  a = 0 ∧ b = 0 ∨ a < 0 ∧ b < 0

/-- One method refines another. -/
abbrev Refined (p : Call F α) (p' : Engine.Call G β) :=
  Refines step Free Engine.step p p'

omit [Counted F] [Endpoint G] [Outlined F G] in
theorem refined_op {op : Op F} {rest : Res op → Call F α} {p' : Engine.Call G β}
    (each : ∀ outcome, Refined (rest (s.perform outcome op).2) p' (s.perform outcome op).1 () t k
      Q) :
    Refined (perform op >>= rest) p' s l t k Q :=
  ensures_op.mpr each

omit [Counted F] [Endpoint G] [Outlined F G] in
theorem refined_get {rest : F → Call F α} {rest' : G → Engine.Call G β}
    (next : Refined (rest (s.objects w)) (rest' (t.objects w)) s () t k Q) :
    Refined (get w >>= rest) (Engine.get w >>= rest') s l t k Q :=
  refined_op fun _ => .right (c := {}) rfl next

omit [Counted F] [Endpoint G] [Outlined F G] in
/-- A field is read once more. -/
theorem refined_read {rest : F → Call F α} {p' : Engine.Call G β}
    (next : Refined (rest (s.objects w)) p' s () t k Q) :
    Refined (get w >>= rest) p' s l t k Q :=
  refined_op fun _ => next

omit [Counted F] [Endpoint G] [Outlined F G] in
theorem refined_reqGet {rest : IOReq → Call F α} {p' : Engine.Call G β}
    (next : Refined (rest (s.reqs q)) p' s () t k Q) :
    Refined (perform (.reqGet q) >>= rest) p' s l t k Q :=
  refined_op fun _ => next

omit [Counted F] [Endpoint G] [Outlined F G] in
theorem engine_refused (socket : Option Sock) (req : Engine.IOReq) :
    Engine.step t k (.post socket req) ⟨.failed, 0⟩ = some (t, k, .failed) := by
  simp [Engine.step, Engine.Shared.perform, Engine.Task.after]

omit [Counted F] [Endpoint G] [Outlined F G] in
/-- An operation on an open socket may be accepted. -/
theorem engine_accepted {x : Sock} (req : Engine.IOReq) (open_ : x ∈ t.sockets) {r : Outcome}
    (accepted : r ≠ .failed) : ∃ serving begun k',
      Engine.step t k (.post (some x) req) ⟨r, 0⟩ =
        some ({ t with
          serving, begun
          pending := ⟨req, t.connection req.m_pObserver⟩ :: t.pending }, k', r) := by
  refine ⟨(t.begin k req.m_pObserver).serving, (t.begin k req.m_pObserver).begun,
    k.after (F := G) (.post (some x) req) r, ?_⟩
  cases k <;> simp [Engine.step, Engine.Shared.perform, Engine.Shared.begin, open_, accepted]

omit [Counted F] [Endpoint G] [Outlined F G] in
theorem engine_isOver : ∃ serving k', Engine.step t k (.isOver w) {} =
    some ({ t with serving }, k', decide (Engine.Over (t.counters w))) := by
  by_cases over_ : Engine.Over (t.counters w)
  · refine ⟨t.serving.filter (· ≠ w), .ending w, ?_⟩
    simp [Engine.step, Engine.Shared.perform, Engine.Task.after, over_]
  · refine ⟨t.serving, k, ?_⟩
    simp [Engine.step, Engine.Shared.perform, Engine.Task.after, over_]

namespace Matches

/-- A step on the lists that leaves the posted requests alone. -/
theorem congr {qs' : List Req} (same : Matches s qs t) (objects : s'.objects = s.objects)
    (requests : Requests (fun _ => True) s' qs') (pending : s'.pending = s.pending)
    (reqs : ∀ p ∈ s.pending, s'.reqs p.req = s.reqs p.req) : Matches s' qs' t := by
  have outlines : s'.pending.map s'.outline = s.pending.map s.outline := by
    rw [pending]
    exact List.map_congr_left fun p inside => by simp [Shared.outline, reqs p inside]
  constructor
  · rw [objects]
    exact same.objects
  · rw [objects]
    exact same.counters
  · exact requests
  · rw [outlines]
    exact same.pending
  · rw [objects]
    exact same.open_
  · rw [objects]
    exact same.once

/-- The rest of the state without lists is free. -/
theorem beyond (same : Matches s qs t) {t' : Engine.Shared G} (objects : t'.objects = t.objects)
    (counters : t'.counters = t.counters) (pending : t'.pending = t.pending)
    (sockets : t'.sockets = t.sockets) : Matches s qs t' := by
  constructor
  · rw [objects]
    exact same.objects
  · rw [counters]
    exact same.counters
  · exact same.requests
  · rw [pending]
    exact same.pending
  · rw [sockets]
    exact same.open_
  · exact same.once

/-- The fields of an object change, and its socket may be closed. -/
theorem update (same : Matches s qs t) {t' : Engine.Shared G} {o : F} {g : G}
    (outlines : Outlines g o)
    (objects : t'.objects = Function.update t.objects w g)
    (counters : t'.counters = Function.update t.counters w (Counted.counters o))
    (pending : t'.pending = t.pending)
    (socket : ∀ x, Endpoint.m_TcpSocket o = some x → x ∈ t'.sockets ∧
      ∀ u, u ≠ w → Endpoint.m_TcpSocket (s.objects u) ≠ some x)
    (others : ∀ u x, u ≠ w → Endpoint.m_TcpSocket (s.objects u) = some x → x ∈ t'.sockets) :
    Matches { s with objects := Function.update s.objects w o } qs t' := by
  constructor
  · intro u
    rw [objects]
    by_cases self : u = w
    · subst self
      simpa using outlines
    · simpa [self] using same.objects u
  · intro u
    rw [counters]
    by_cases self : u = w
    · subst self
      simp
    · simpa [self] using same.counters u
  · exact same.requests.congr rfl rfl rfl rfl
  · rw [pending]
    exact same.pending
  · intro u x has
    by_cases self : u = w
    · subst self
      exact (socket x (by simpa using has)).1
    · exact others u x self (by simpa [self] using has)
  · intro u v x has has'
    by_cases self : u = w
    · subst self
      by_cases self' : v = u
      · exact self'.symm
      · exact absurd (by simpa [self'] using has') ((socket x (by simpa using has)).2 v self')
    · by_cases self' : v = w
      · subst self'
        exact absurd (by simpa [self] using has) ((socket x (by simpa using has')).2 u self)
      · exact same.once u v x (by simpa [self] using has) (by simpa [self'] using has')

theorem counters_kept (same : Matches s qs t) {o : F}
    (counters : Counted.counters o = Counted.counters (s.objects w)) :
    t.counters = Function.update t.counters w (Counted.counters o) := by
  rw [counters, ← same.counters, Function.update_eq_self]

/-- An object keeps its socket and its counters. -/
theorem write (same : Matches s qs t) {o : F} {g : G} (outlines : Outlines g o)
    (counters : Counted.counters o = Counted.counters (s.objects w))
    (socket : Endpoint.m_TcpSocket o = Endpoint.m_TcpSocket (s.objects w)) :
    Matches { s with objects := Function.update s.objects w o } qs
      { t with objects := Function.update t.objects w g } := by
  refine same.update outlines rfl (same.counters_kept counters) rfl (fun x has => ?_)
    fun u x _ has => same.open_ u x has
  rw [socket] at has
  exact ⟨same.open_ w x has, fun u other has' => other (same.once u w x has' has)⟩

theorem set (same : Matches s qs t) {f : F → F} {f' : G → G}
    (outlines : ∀ g o, Outlines g o → Outlines (f' g) (f o))
    (counters : ∀ o, Counted.counters (f o) = Counted.counters o)
    (socket : ∀ o, Endpoint.m_TcpSocket (f o) = Endpoint.m_TcpSocket o) :
    Refined (Tcp.set w f) (Engine.set w f') s l t k fun _ s' _ _ t' _ => Matches s' qs t' :=
  refined_op fun _ => .right (c := {}) rfl
    (.ret (same.write (outlines _ _ (same.objects w)) (counters _) (socket _)))

/-- A field that only the object has. -/
theorem quiet (same : Matches s qs t) {f : F → F}
    (outlines : ∀ g o, Outlines g o → Outlines g (f o))
    (counters : ∀ o, Counted.counters (f o) = Counted.counters o)
    (socket : ∀ o, Endpoint.m_TcpSocket (f o) = Endpoint.m_TcpSocket o) :
    (Tcp.set w f : Call F Unit).Ensures step Free s l fun _ s' _ => Matches s' qs t := by
  refine perform_ensures fun _ => ?_
  have same := same.write (outlines _ _ (same.objects w)) (counters _) (socket _)
  rwa [Function.update_eq_self] at same

theorem setStatus (same : Matches s qs t) (status : Status) :
    Refined (Tcp.setStatus w status) (Engine.set w fun g => Endpoint.withStatus g status) s l t k
      fun _ s' _ _ t' _ => Matches s' qs t' :=
  same.set (fun _ _ outlines => Outlined.withStatus status outlines)
    (fun o => Outlined.counters_withStatus o status) fun o => Endpoint.socket_withStatus o status

/-- A counter is set. -/
theorem counter (same : Matches s qs t) (c : Counter) (i : Int) :
    Matches { s with objects := Function.update s.objects w (Counted.withCounters (s.objects w)
      (Function.update (Counted.counters (s.objects w)) c i)) } qs (t.write w c i) := by
  have outlines := Outlined.withCounters (Function.update (Counted.counters (s.objects w)) c i)
    (same.objects w)
  refine same.update (g := t.objects w) outlines (Function.update_eq_self w _).symm ?_ rfl ?_
    fun u x _ has => same.open_ u x has
  · rw [Outlined.counters_withCounters, ← same.counters]
    rfl
  · intro x has
    rw [← Outlined.socket outlines, Outlined.socket (same.objects w)] at has
    exact ⟨same.open_ w x has, fun u other has' => other (same.once u w x has' has)⟩

theorem zero (same : Matches s qs t) (c : Counter) :
    Refined (Tcp.zero w c) (Engine.zero w c) s l t k fun _ s' _ _ t' _ => Matches s' qs t' :=
  refined_op fun _ => .right (c := {}) rfl (.ret (same.counter c 0))

theorem count (same : Matches s qs t) (c : Counter) :
    Refined (Tcp.count w c) (Engine.count w c) s l t k fun _ s' _ _ t' _ => Matches s' qs t' := by
  refine refined_op fun _ => .right (c := {}) rfl (.ret ?_)
  rw [same.counters w]
  exact same.counter c _

/-- What happens to the lists of buffers and of sockets is silent. -/
theorem silent (same : Matches s qs t) {p : Call F α} (every : p.Every Silent) :
    p.Ensures step Free s l fun _ s' _ => Matches s' qs t := by
  refine every.ensures (I := fun s' => Matches s' qs t) (fun s' l op outcome s'' l' r plain same
    taken => ?_) same
  simp only [step, Option.some.injEq, Prod.mk.injEq] at taken
  obtain ⟨rfl, -, -⟩ := taken
  have lists {s'' : Shared F} (objects : s''.objects = s'.objects)
      (list : s''.m_IOReqList.eles = s'.m_IOReqList.eles) (pending : s''.pending = s'.pending)
      (reqs : s''.reqs = s'.reqs) (newReqs : s''.newReqs = s'.newReqs) : Matches s'' qs t :=
    same.congr objects (same.requests.congr list pending reqs newReqs) pending
      fun _ _ => by rw [reqs]
  cases op
  case get | bufAllocated | bufPush | reqAllocated | reqGet | memcpy =>
    exact lists rfl rfl rfl rfl rfl
  case bufPop | bufNew | wsaSocket =>
    simp only [Shared.perform]
    split <;> exact lists rfl rfl rfl rfl rfl
  all_goals exact absurd plain id

theorem reqPush (same : Matches s (q :: qs) t) :
    (Tcp.reqPush q : Call F Unit).Ensures step Free s l fun _ s' _ => Matches s' qs t :=
  perform_ensures fun _ => same.congr rfl same.requests.push rfl fun _ _ => rfl

/-- A request is made, if there is memory. -/
theorem reqNew (same : Matches s qs t) (m_pObserver : Option Obj) :
    (perform (.reqNew m_pObserver) : Call F (Option Req)).Ensures step Free s l fun r s' _ =>
      Matches s' (r.toList ++ qs) t := by
  refine perform_ensures fun _ => ?_
  by_cases memory : s.available = true
  · simp only [Shared.perform, if_pos memory]
    refine same.congr rfl (same.requests.new _) rfl fun p inside => ?_
    exact Function.update_of_ne (Nat.ne_of_lt (same.requests.known p inside)) _ _
  · simp only [Shared.perform, if_neg memory]
    exact same

theorem takeReq (same : Matches s qs t) (m_pObserver : Option Obj) :
    (Tcp.takeReq m_pObserver : Call F (Option Req)).Ensures step Free s l fun r s' _ =>
      Matches s' (r.toList ++ qs) t := by
  simp only [Tcp.takeReq, perform, perform_bind, ensures_op, Shared.perform]
  intro _
  cases list : s.m_IOReqList.eles with
  | cons q rest => exact same.congr rfl (same.requests.pop list) rfl fun _ _ => rfl
  | nil =>
    by_cases memory : s.available = true
    · simp only [ensures_op, Shared.perform, memory, if_true]
      intro _ _
      refine same.congr rfl ((same.requests.new _).congr rfl rfl rfl rfl) rfl fun p inside => ?_
      exact Function.update_of_ne (Nat.ne_of_lt (same.requests.known p inside)) _ _
    · simp only [ensures_op, Shared.perform, memory]
      exact fun _ => same

/-- A request in the hands of the call is written. -/
theorem reqSet (same : Matches s (q :: qs) t) (f : IOReq → IOReq) :
    (perform (.reqSet q f) : Call F Unit).Ensures step Free s l fun _ s' _ =>
      Matches s' (q :: qs) t ∧ s'.reqs q = f (s.reqs q) :=
  perform_ensures fun _ => ⟨same.congr rfl (same.requests.write _) rfl fun p inside =>
    Function.update_of_ne (same.requests.apart p inside) _ _, Function.update_self _ _ _⟩

/-- The system accepts an operation, or refuses it. -/
theorem post (same : Matches s (q :: qs) t) {type : OperateType} {b : Option Buf} (len : Nat)
    (noted : (s.reqs q).m_pObserver = some w ∧ (s.reqs q).m_nOperateType = type ∧
      (s.reqs q).m_pDataBuf = b) :
    Refined (perform (.post w (Endpoint.m_TcpSocket (s.objects w)) q b len))
      (Engine.perform (.post (Endpoint.m_TcpSocket (t.objects w)) ⟨w, type⟩)) s l t k
      fun r s' _ r' t' _ => r' = r ∧
        (r = .failed ∧ s' = s ∧ t' = t ∨ r ≠ .failed ∧ Matches s' qs t') := by
  rw [Outlined.socket (same.objects w)]
  refine post_ensures ?_ fun r accepted some_ => ?_
  · exact ⟨⟨.failed, 0⟩, t, k, .failed, engine_refused _ _, rfl, .inl ⟨rfl, rfl, rfl⟩⟩
  · obtain ⟨x, has⟩ := Option.ne_none_iff_exists'.mp some_
    obtain ⟨serving, begun, k', taken⟩ :=
      engine_accepted (k := k) ⟨w, type⟩ (same.open_ w x has) accepted
    rw [has]
    refine ⟨⟨r, 0⟩, _, k', r, taken, rfl, .inr ⟨accepted, same.objects, same.counters, ?_, ?_,
      same.open_, same.once⟩⟩
    · exact same.requests.post (p := ⟨q, b, w, some x⟩) ⟨noted.1, noted.2.2, trivial⟩
    · have outline : s.outline ⟨q, b, w, some x⟩ = ⟨w, type⟩ := by
        simp [Shared.outline, noted.2.1]
      exact (same.pending.cons _).trans (by rw [← outline]; exact .refl _)

/-- Without memory nothing is posted. -/
theorem refused (same : Matches s qs t) (type : OperateType) (c : Counter) :
    Refined (Tcp.setStatus w .error) (Engine.postCounted w type c) s l t k
      fun _ s' _ b t' _ => b < 0 ∧ Matches s' qs t' :=
  .right (c := {}) rfl <| .right (engine_refused _ _) <|
    (same.setStatus .error).last fun _ _ _ _ _ _ same => ⟨by decide, same⟩

theorem missing (same : Matches s qs t) (type : OperateType) (c : Counter) {a : Int}
    (failed : a < 0) :
    Refined (do Tcp.setStatus w .error; return a) (Engine.postCounted w type c) s l t k
      fun a s' _ b t' _ => Agree a b ∧ Matches s' qs t' :=
  (same.refused type c).tail fun _ _ _ _ _ _ after => ⟨.inr ⟨failed, after.1⟩, after.2⟩

/-- Read and Write. -/
theorem transfer (same : Matches s qs t) (type : OperateType) (m_pObserver : Option Obj)
    (size : Nat) {noBuf noReq : Int} (negative : noBuf < 0 ∧ noReq < 0) (c : Counter) :
    Refined (Tcp.transfer w type m_pObserver size noBuf noReq c) (Engine.postCounted w type c)
      s l t k fun a s' _ b t' _ => Agree a b ∧ Matches s' qs t' := by
  refine .silent (same.silent (takeBuf_every trivial trivial trivial)) fun found s l same => ?_
  cases found with
  | none => exact same.missing type c negative.1
  | some pDataBuf =>
    refine .silent (same.takeReq m_pObserver) fun found s l same => ?_
    cases found with
    | none => exact same.missing type c negative.2
    | some pIOReq =>
      refine .silent (same.reqSet _) fun _ s l after => ?_
      obtain ⟨same, req⟩ := after
      have noted : (s.reqs pIOReq).m_pObserver = some w ∧
          (s.reqs pIOReq).m_nOperateType = type ∧
          (s.reqs pIOReq).m_pDataBuf = some pDataBuf := by
        rw [req]
        exact ⟨rfl, rfl, rfl⟩
      split
      on_goal 1 => refine refined_op fun _ => ?_
      all_goals
        refine refined_get ?_
        refine (same.post size noted).seq fun r s' l r' t' k after => ?_
        rcases after with ⟨rfl, ⟨rfl, rfl, rfl⟩ | ⟨accepted, same⟩⟩
        · have back : Refined (do
                Tcp.setStatus w .error
                Tcp.bufPush (some pDataBuf)
                Tcp.reqPush pIOReq
                return -4)
              (do Engine.set w fun g => Endpoint.withStatus g .error; return -4) s' l t' k
              fun a s' _ b t' _ => Agree a b ∧ Matches s' qs t' := by
            refine (same.setStatus .error).seq fun _ s l _ t k same => ?_
            refine .silent (same.silent (.perform trivial)) fun _ s l same => ?_
            refine .silent same.reqPush fun _ s l same => ?_
            exact .ret ⟨.inr (by decide), same⟩
          exact back
        · cases r' with
          | failed => exact absurd rfl accepted
          | pending | success =>
            exact (same.count c).seq fun _ _ _ _ _ _ same => .ret ⟨.inl ⟨rfl, rfl⟩, same⟩

/-- ConnectEx and DisconnectEx. -/
theorem postBare (same : Matches s (q :: qs) t) (type : OperateType) :
    Refined (Tcp.postBare w q type) (Engine.postCounted w type .m_nRecvNum) s l t k
      fun a s' _ b t' _ => Agree a b ∧ Matches s' qs t' := by
  refine .silent (same.reqSet _) fun _ s l after => ?_
  obtain ⟨same, req⟩ := after
  have noted : (s.reqs q).m_pObserver = some w ∧ (s.reqs q).m_nOperateType = type ∧
      (s.reqs q).m_pDataBuf = none := by
    rw [req]
    exact ⟨rfl, rfl, rfl⟩
  refine refined_get ?_
  refine (same.post 0 noted).seq fun r s' l r' t' k after => ?_
  rcases after with ⟨rfl, ⟨rfl, rfl, rfl⟩ | ⟨accepted, same⟩⟩
  · have back : Refined (do Tcp.setStatus w .error; Tcp.reqPush q; return -4)
        (do Engine.set w fun g => Endpoint.withStatus g .error; return -4) s' l t' k
        fun a s' _ b t' _ => Agree a b ∧ Matches s' qs t' := by
      refine (same.setStatus .error).seq fun _ s l _ t k same => ?_
      exact .silent same.reqPush fun _ s l same => .ret ⟨.inr (by decide), same⟩
    exact back
  · cases r' with
    | failed => exact absurd rfl accepted
    | pending | success =>
      exact (same.count _).seq fun _ _ _ _ _ _ same => .ret ⟨.inl ⟨rfl, rfl⟩, same⟩

theorem isOver (same : Matches s qs t) :
    Refined (Tcp.isOver w) (Engine.perform (.isOver w)) s l t k fun a s' _ b t' _ =>
      b = a ∧ Matches s' qs t' := by
  obtain ⟨serving, k', taken⟩ := engine_isOver (t := t) (k := k) (w := w)
  refine refined_op fun _ => .right taken (.ret ⟨?_, ?_⟩)
  · rw [same.counters w]
    rfl
  · exact same.beyond rfl rfl rfl rfl

/-- An object that is over goes to its allocater. -/
theorem release (same : Matches s qs t) :
    Refined (perform (.release w)) (Engine.perform (.release w)) s l t k
      fun _ s' _ _ t' _ => Matches s' qs t' :=
  refined_op fun _ => .right (c := {}) rfl (.ret (same.beyond rfl rfl rfl rfl))

/-- An object closes its socket and goes on. -/
theorem close (same : Matches s qs t) {x : Sock} (has : Endpoint.m_TcpSocket (s.objects w) = some x)
    {f : F → F} {f' : G → G} {p : Call F α} {p' : Engine.Call G β}
    (next : ∀ s l t k, Matches s qs t → Refined p p' s l t k Q)
    (outlines : ∀ g o, Outlines g o → Outlines (f' g) (f o))
    (counters : ∀ o, Counted.counters (f o) = Counted.counters o)
    (socket : ∀ o, Endpoint.m_TcpSocket (f o) = none) :
    Refined (do perform (.closesocket x); Tcp.set w f; p)
      (do Engine.perform (.closesocket x); Engine.set w f'; p') s l t k Q := by
  refine refined_op fun _ => .right (c := {}) rfl ?_
  refine refined_op fun _ => .right (c := {}) rfl (next _ _ _ _ ?_)
  refine same.update (outlines _ _ (same.objects w)) rfl (same.counters_kept (counters _)) rfl
    (by simp [socket]) ?_
  intro u y other has'
  refine (List.mem_erase_of_ne ?_).mpr (same.open_ u y has')
  rintro rfl
  exact other (same.once u w y has' has)

/-- An object is given a socket. -/
theorem give (same : Matches s qs t) {f : F → F} {f' : G → G} {sock : Option Sock}
    (outlines : ∀ g o, Outlines g o → Outlines (f' g) (f o))
    (counters : ∀ o, Counted.counters (f o) = Counted.counters o)
    (socket : ∀ o, Endpoint.m_TcpSocket (f o) = sock)
    (given : ∀ x, sock = some x → x ∈ t.sockets ∧
      ∀ u, u ≠ w → Endpoint.m_TcpSocket (s.objects u) ≠ some x) :
    Refined (Tcp.set w f) (Engine.set w f') s l t k fun _ s' _ _ t' _ => Matches s' qs t' := by
  refine refined_op fun _ => .right (c := {}) rfl (.ret ?_)
  refine same.update (outlines _ _ (same.objects w)) rfl (same.counters_kept (counters _)) rfl
    (fun x has => given x ((socket _).symm.trans has)) fun u x _ has => same.open_ u x has

/-- The lists get one element more each. -/
theorem stock (same : Matches s qs t) (m_pObserver : Option Obj) :
    (Tcp.stock m_pObserver : Call F Unit).Ensures step Free s l fun _ s' _ => Matches s' qs t := by
  refine Ensures.seq (same.silent (.perform trivial)) fun b s l same => ?_
  refine Ensures.seq (same.silent (.perform trivial)) fun _ s l same => ?_
  refine Ensures.seq (same.silent (.perform trivial)) fun _ s l same => ?_
  refine (same.reqNew m_pObserver).seq fun made s l same => ?_
  cases made with
  | none => exact same
  | some q => exact same.reqPush.seq fun _ _ _ same => same.silent (.perform trivial)

/-- The socket of an object is associated with the port. -/
theorem associate (same : Matches s qs t) {x : Sock}
    (has : Endpoint.m_TcpSocket (t.objects w) = some x) (apart : x ∉ t.associated) :
    Refined (perform (.associateDevice (Endpoint.m_TcpSocket (s.objects w))))
      (Engine.perform (.associateDevice (Endpoint.m_TcpSocket (t.objects w)))) s l t k
      fun a s' _ b t' _ => b = a ∧ Matches s' qs t' := by
  have inside := same.open_ w x ((Outlined.socket (same.objects w)).symm.trans has)
  rw [has]
  refine refined_op fun outcome => ?_
  by_cases done : outcome = .failed
  · have refused : Engine.step t k (.associateDevice (some x)) ⟨.failed, 0⟩ =
        some (t, k, false) := by
      simp [Engine.step, Engine.Shared.perform, Engine.Task.after]
    refine .right refused (.ret ⟨?_, same⟩)
    simp [Shared.perform, done]
  · have accepted : Engine.step t k (.associateDevice (some x)) ⟨.success, 0⟩ =
        some ({ t with associated := x :: t.associated }, k, true) := by
      simp [Engine.step, Engine.Shared.perform, Engine.Task.after, inside, apart]
    refine .right accepted (.ret ⟨?_, same.beyond rfl rfl rfl rfl⟩)
    simp [Shared.perform, done]

/-- What completes here completes there. -/
theorem complete (same : Matches s qs t) {posted : Posted} (inside : posted ∈ s.pending)
    (observer : (s.reqs posted.req).m_pObserver = some w) :
    ∃ posted' ∈ t.pending, posted'.req = ⟨w, (s.reqs posted.req).m_nOperateType⟩ ∧
      Matches { s with pending := s.pending.erase posted } (posted.req :: qs)
        { t with pending := t.pending.erase posted' } := by
  obtain ⟨noted, -⟩ := same.requests.noted posted inside
  obtain rfl : posted.object = w := Option.some.inj (noted.symm.trans observer)
  obtain ⟨posted', inside', req⟩ :=
    List.mem_map.mp (same.pending.mem_iff.mpr (List.mem_map_of_mem inside))
  refine ⟨posted', inside', req, same.objects, same.counters, same.requests.complete inside, ?_,
    same.open_, same.once⟩
  have here := (List.perm_cons_erase inside).map s.outline
  have there := (List.perm_cons_erase inside').map Engine.Posted.req
  have both := there.symm.trans (same.pending.trans here)
  rw [List.map_cons, List.map_cons, req] at both
  exact both.cons_inv

end Matches

/-- Before the first call the lists are empty and nothing is posted. -/
theorem matches_unused (t : Engine.Shared G) {objects : Obj → F} (object : F)
    (outlines : ∀ u, Outlines (t.objects u) (objects u))
    (counters : ∀ u, t.counters u = Counted.counters (objects u))
    (closed : ∀ u, Endpoint.m_TcpSocket (objects u) = none) (pending : t.pending = []) :
    Matches { unused object with objects } [] t := by
  refine ⟨outlines, counters, ⟨.refl _, by simp [unused]⟩, ?_, ?_, ?_⟩
  · rw [pending]
    exact .refl _
  · intro u x has
    simp [closed u] at has
  · intro u v x has
    simp [closed u] at has

end

end TestIOCP.Tcp
