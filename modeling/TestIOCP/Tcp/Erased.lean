import TestIOCP.Tcp.Matching

/-! The methods of CTcpWorker and CTcpConnecter are embedded twice, with and without the lists
of buffers and requests. Every run of a method is matched by a run of its namesake without
them, with the same result up to the number of an error, and every run of calls by one of the
same calls. -/
namespace TestIOCP.Tcp
open Transition Program Semantics
open Engine (Endpoint WorkerType)
open Outlined (Outlines)

namespace Worker
variable {s : Shared Rtsp.Pooled} {l : Unit} {t : Engine.Shared Engine.Worker} {k : Engine.Task}
  {qs : List Req} {q : Req} {w : Obj}

theorem stop_refined (same : Matches s qs t) :
    Refined (stop w) (Engine.stop w) s l t k fun a s' _ b t' _ => b = a ∧ Matches s' qs t' := by
  refine (same.setStatus .stop).seq fun _ s l _ t k same => refined_get ?_
  rw [(same.objects w).1]
  cases has : (s.objects w).worker.m_TcpSocket with
  | none => exact .ret ⟨rfl, same⟩
  | some x =>
    refine same.close has (fun _ _ _ _ same => .ret ⟨rfl, same⟩) ?_ (fun _ => rfl) fun _ => rfl
    exact fun g o outlines => ⟨rfl, outlines.2⟩

theorem uninitObject_refined (same : Matches s qs t) :
    Refined (uninitObject w) (Engine.uninitObject w) s l t k fun _ s' _ _ t' _ =>
      Matches s' qs t' :=
  (stop_refined same).seq fun _ _ _ _ _ _ after => .ret after.2

theorem releaseIfOver_refined (same : Matches s qs t) :
    Refined (releaseIfOver w) (Engine.releaseIfOver w) s l t k fun _ s' _ _ t' _ =>
      Matches s' qs t' := by
  refine same.isOver.seq ?_
  rintro _ s l over_ t k ⟨rfl, same⟩
  cases over_ with
  | false => exact .ret same
  | true =>
    refine same.release.seq fun _ s l _ t k same => ?_
    exact .right (c := {}) rfl (.ret (same.beyond rfl rfl rfl rfl))

theorem read_refined (same : Matches s qs t) :
    Refined (read w) (Engine.read w) s l t k fun a s' _ b t' _ => Agree a b ∧ Matches s' qs t' :=
  same.transfer .SOCKET_READ (some w) _ (by decide) .m_nRecvNum

theorem write_refined (same : Matches s qs t) (datsize : Nat) :
    Refined (write w datsize) (Engine.write w) s l t k fun a s' _ b t' _ =>
      Agree a b ∧ Matches s' qs t' :=
  same.transfer .SOCKET_WRITE (some w) datsize (by decide) .m_nWriteNum

/-- Each reply is a Write. -/
theorem writes_refined (same : Matches s qs t) (replies : List Rtsp.Reply) :
    Refined (replies.forM fun reply => discard (write w reply.message.length))
      (Engine.writes w replies.length) s l t k fun _ s' _ _ t' _ => Matches s' qs t' := by
  induction replies generalizing s l t k with
  | nil => exact .ret same
  | cons reply replies ih =>
    have first : Refined (discard (write w reply.message.length))
        (do let _ ← Engine.write w; pure ()) s l t k fun _ s' _ _ t' _ => Matches s' qs t' :=
      (write_refined same _).seq fun _ _ _ _ _ _ after => .ret after.2
    have next := first.seq fun _ s l _ t k same => ih same
    rwa [bind_assoc] at next

theorem readedDataProcess_refined (same : Matches s qs t) (type : WorkerType) (b : Option Buf)
    (env : Rtsp.Env) (data : List CString.Byte) :
    Refined (readedDataProcess type w b env data) (Engine.readedDataProcess type w) s l t k
      fun a s' _ b t' _ => Agree a b ∧ Matches s' qs t' := by
  cases type with
  | CTcpWorker =>
    refine (write_refined same data.length).tail fun res s l _ t k after => ?_
    exact Ensures.seq (after.2.silent (.perform trivial)) fun _ _ _ same => ⟨after.1, same⟩
  | CRtspServer =>
    refine refined_read ?_
    generalize Rtsp.ReadedDataProcess env (s.objects w).server data = answered
    obtain ⟨server, replies⟩ := answered
    have process (s l) (same : Matches s qs t) : Refined (do
          replies.forM fun reply => discard (write w reply.message.length)
          bufPush b
          return 0)
        (do Engine.writes w (← Engine.perform (.replies w)); return 0) s l t k
        fun a s' _ b t' _ => Agree a b ∧ Matches s' qs t' := by
      refine .right (c := ⟨.success, replies.length⟩) rfl ?_
      exact (writes_refined same replies).seq fun _ s l _ t k same =>
        .silent (same.silent (.perform trivial)) fun _ s l same => .ret ⟨.inl ⟨rfl, rfl⟩, same⟩
    exact .silent (same.quiet (fun _ _ => id) (fun _ => rfl) fun _ => rfl)
      fun _ s l same => process s l same

/-- What the branches of ConsumeReq end with. -/
theorem quit_refined (same : Matches s qs t) {p : WorkerCall Unit} {p' : Engine.WorkerCall Unit}
    (between : ∀ s l t k, Matches s qs t →
      Refined p p' s l t k fun _ s' _ _ t' _ => Matches s' qs t') (n : Int) :
    Refined (do let _ ← uninitObject w; p; releaseIfOver w; return n)
      (do let _ ← Engine.uninitObject w; p'; Engine.releaseIfOver w; return n) s l t k
      fun a s' _ b t' _ => b = a ∧ Matches s' qs t' := by
  refine (uninitObject_refined same).seq fun _ s l _ t k same => ?_
  refine (between s l t k same).seq fun _ s l _ t k same => ?_
  exact (releaseIfOver_refined same).seq fun _ _ _ _ _ _ same => .ret ⟨rfl, same⟩

/-- The result of Read or Write is noted. -/
theorem res_refined (same : Matches s qs t) {res res' : Int} (agree : Agree res res') :
    Refined (set w fun o => { o with worker := { o.worker with res } })
      (Engine.set w fun g => { g with res := res' }) s l t k fun _ s' _ _ t' _ =>
      Matches s' qs t' := by
  refine same.set (fun g o outlines => ⟨outlines.1, outlines.2.1, ?_⟩) (fun _ => rfl) fun _ => rfl
  rcases agree with ⟨rfl, rfl⟩ | ⟨negative, negative'⟩
  · rfl
  · exact iff_of_true negative' negative

/-- Its sign decides about the branch. -/
theorem branch_refined (same : Matches s qs t) {p p₀ : WorkerCall Int}
    {p' p₀' : Engine.WorkerCall Int}
    {Q : Int → Shared Rtsp.Pooled → Unit → Int → Engine.Shared Engine.Worker → Engine.Task → Prop}
    (negative : Refined p p' s () t k Q) (otherwise : Refined p₀ p₀' s () t k Q) :
    Refined (do if (← get w).worker.res < 0 then p else p₀)
      (do if (← Engine.get w).res < 0 then p' else p₀') s l t k Q := by
  obtain ⟨-, -, sign⟩ := same.objects w
  refine refined_get ?_
  by_cases failed : (s.objects w).worker.res < 0
  · rw [if_pos failed, if_pos (sign.mpr failed)]
    exact negative
  · rw [if_neg failed, if_neg fun failed' => failed (sign.mp failed')]
    exact otherwise

theorem consumeReq_refined (same : Matches s (q :: qs) t) (type : WorkerType) (env : Rtsp.Env)
    (data : List CString.Byte) (error : Bool) :
    Refined (consumeReq type w env data error q)
      (Engine.consumeReq type data.length error ⟨w, (s.reqs q).m_nOperateType⟩) s l t k
      fun a s' _ b t' _ => b = a ∧ Matches s' qs t' := by
  refine refined_reqGet ?_
  have nothing (s l t k) (same : Matches s qs t) :
      Refined (pure () : WorkerCall Unit) (pure () : Engine.WorkerCall Unit) s l t k
        fun _ s' _ _ t' _ => Matches s' qs t' :=
    .ret same
  have counts (s l t k) (same : Matches s qs t) :
      Refined (count w .m_nErrorNum : WorkerCall Unit) (Engine.count w .m_nErrorNum) s l t k
        fun _ s' _ _ t' _ => Matches s' qs t' :=
    same.count .m_nErrorNum
  cases error with
  | true =>
    simp only [Bool.not_true, Bool.false_eq_true, if_false]
    split
    on_goal 1 => refine .silent (same.silent (.perform trivial)) fun _ s l same => ?_
    all_goals
      refine .silent same.reqPush fun _ s l same => ?_
      refine (same.setStatus .error).seq fun _ s l _ t k same => ?_
      exact quit_refined same counts (-4)
  | false =>
    simp only [Bool.not_false, if_true]
    cases (s.reqs q).m_nOperateType with
    | SOCKET_READ =>
      refine (same.count _).seq fun _ s l _ t k same => ?_
      split
      · refine .silent (same.silent (.perform trivial)) fun _ s l same => ?_
        refine .silent same.reqPush fun _ s l same => ?_
        exact quit_refined same nothing (-1)
      · refine (readedDataProcess_refined same type _ env data).seq fun res s l res' t k after => ?_
        refine (res_refined after.2 after.1).seq fun _ s l _ t k same => ?_
        refine .silent same.reqPush fun _ s l same => ?_
        refine branch_refined same (quit_refined same nothing (-2)) ?_
        refine (read_refined same).seq fun res s l res' t k after => ?_
        refine (res_refined after.2 after.1).seq fun _ s l _ t k same => ?_
        exact branch_refined same (quit_refined same nothing 0) (.ret ⟨rfl, same⟩)
    | SOCKET_WRITE =>
      refine (same.count _).seq fun _ s l _ t k same => ?_
      refine .silent (same.silent (.perform trivial)) fun _ s l same => ?_
      exact .silent same.reqPush fun _ s l same => .ret ⟨rfl, same⟩
    | _ =>
      refine .silent (same.silent (.perform trivial)) fun _ s l same => ?_
      refine .silent same.reqPush fun _ s l same => ?_
      exact quit_refined same counts (-3)

/-- The worker is given an open socket that no other object has, or INVALID_SOCKET. -/
theorem initObject_refined (same : Matches s qs t) {insock : Option Sock}
    (given : ∀ x, insock = some x → x ∈ t.sockets ∧
      ∀ u, u ≠ w → Endpoint.m_TcpSocket (s.objects u) ≠ some x) :
    Refined (initObject w insock) (Engine.initObject w insock) s l t k fun a s' _ b t' _ =>
      b = a ∧ Matches s' qs t' := by
  rw [initObject, Engine.initObject]
  split
  · exact .ret ⟨rfl, same⟩
  · refine Refines.seq (same.give (fun g o outlines => ⟨rfl, outlines.2⟩) (fun _ => rfl)
      (fun _ => rfl) given) fun _ s l _ t k same => ?_
    refine .silent (same.stock (some w)) fun _ s l same => ?_
    exact (same.setStatus .stop).seq fun _ _ _ _ _ _ same => .ret ⟨rfl, same⟩

/-- It has a socket that is not associated with the port yet, or it is running. -/
theorem start_refined (same : Matches s qs t) (ready : (t.objects w).m_nStatus ≠ .run →
      ∃ x, (t.objects w).m_TcpSocket = some x ∧ x ∉ t.associated) :
    Refined (start w) (Engine.start w) s l t k fun a s' _ b t' _ =>
      b = a ∧ Matches s' qs t' := by
  obtain ⟨socket, status, -⟩ := same.objects w
  refine refined_get ?_
  rw [status] at ready ⊢
  split
  · exact .ret ⟨rfl, same⟩
  · rename_i idle
    obtain ⟨x, has, apart⟩ := ready idle
    refine refined_get ?_
    refine (same.associate has apart).seq fun _ s l done t k after => ?_
    obtain ⟨rfl, same⟩ := after
    cases done with
    | false => exact .ret ⟨rfl, same⟩
    | true =>
      refine (same.zero _).seq fun _ s l _ t k same => ?_
      refine (same.zero _).seq fun _ s l _ t k same => ?_
      refine (same.zero _).seq fun _ s l _ t k same => ?_
      refine (same.zero _).seq fun _ s l _ t k same => ?_
      refine (read_refined same).seq fun res s l res' t k after => ?_
      obtain ⟨⟨rfl, rfl⟩ | ⟨negative, negative'⟩, same⟩ := after
      · exact (same.setStatus .run).seq fun _ _ _ _ _ _ same => .ret ⟨rfl, same⟩
      · rw [if_neg negative.ne, if_neg negative'.ne]
        exact .ret ⟨rfl, same⟩

/-- Workers before the first connection, with the lists empty. -/
theorem initial_matches (first : Engine.Initial t) (o : Rtsp.Pooled) :
    Matches (F := Rtsp.Pooled)
      { unused o with objects := fun u => ⟨t.objects u, t.counters u, o.server⟩ } [] t :=
  matches_unused t o (fun _ => ⟨rfl, rfl, Iff.rfl⟩) (fun _ => rfl)
    (fun u => (first.constructed u).1) first.pending

/-- A completion that a worker handles is one that the worker without lists handles, with the
same result. -/
theorem completion_refined (same : Matches s [] t) {type : WorkerType} {posted : Posted}
    {env : Rtsp.Env} {data : List CString.Byte} {error : Bool} {s' : Shared Rtsp.Pooled}
    {p : WorkerCall Unit}
    (entered : enter type s (.complete posted env data error) = some (s', l, p)) :
    ∃ posted' t' k p',
      Engine.enter type t (.complete posted' data.length error) = some (t', k, p') ∧
      Refined p p' s' l t' k fun _ s' _ _ t' _ => Matches s' [] t' := by
  simp only [enter] at entered
  split at entered
  · rename_i inside
    obtain ⟨w, observer, entered⟩ := Option.map_eq_some_iff.mp entered
    obtain ⟨posted', inside', req, same⟩ := same.complete inside observer
    cases entered
    refine ⟨posted', _, _, _, if_pos inside', ?_⟩
    rw [req]
    exact (consumeReq_refined same type env data error).seq fun _ _ _ _ _ _ after => .ret after.2
  · cases entered

/-- No call but the handling of a completion. -/
def Completing (_ : Shared Rtsp.Pooled) : Entry → Prop
  | .complete _ _ _ _ => True
  | .initObject _ _ | .start _ | .stop _ | .read _ | .write _ _ => False

/-- Workers that have been started handle their completions, in any order. -/
theorem completions_refined {T U : Type} [DecidableEq T] [DecidableEq U] (u : U) (type : WorkerType)
    (rested : (Engine.semantics type).Rested Engine.Initial .idle U t) (same : Matches s [] t)
    {c : Config T (Shared Rtsp.Pooled) Unit (Op Rtsp.Pooled) Res}
    (run : ((semantics type).system (· = s) ()).ReachableUnder (Serial Completing Free) c)
    (rest : ∀ t, c.code t = .ret ()) :
    ∃ t, (Engine.semantics type).Rested Engine.Initial .idle U t ∧ Matches c.shared [] t := by
  refine rested_of_refined (R := fun s t => Matches s [] t) u ?_ ?_ run rest
  · rintro _ rfl
    exact ⟨t, rested, same⟩
  · intro s t e s' l p same completing entered
    cases e with
    | complete posted env data error =>
      obtain ⟨posted', after⟩ := completion_refined same entered
      exact ⟨.complete posted' data.length error, after⟩
    | _ => exact completing.elim

end Worker

namespace Connecter
variable {s : Shared Connecter} {l : Unit} {t : Engine.Shared Engine.Connecter} {k : Engine.Task}
  {qs : List Req} {q : Req} {w : Obj}

/-- An operation that leaves the sockets of the objects alone. -/
def Steady : Op Connecter → Prop
  | .set _ f => ∀ o, (f o).m_TcpSocket = o.m_TcpSocket
  | _ => True

theorem steady_ensures {α : Type} {p : ConnecterCall α} (every : p.Every Steady) :
    p.Ensures step Free s l fun _ s' _ =>
      (s'.objects w).m_TcpSocket = (s.objects w).m_TcpSocket := by
  refine every.ensures (I := fun s' : Shared Connecter =>
    (s'.objects w).m_TcpSocket = (s.objects w).m_TcpSocket)
    (fun s' l op outcome s'' l' r steady same taken => ?_) rfl
  simp only [step, Option.some.injEq, Prod.mk.injEq] at taken
  obtain ⟨rfl, -, -⟩ := taken
  refine Eq.trans ?_ same
  refine perform_objects s' outcome op w
    (P := fun o o' => o'.m_TcpSocket = o.m_TcpSocket) (fun _ => rfl) ?_
  rintro u f rfl
  exact steady

theorem steady_postBare (type : OperateType) :
    (postBare w q type : ConnecterCall Int).Every Steady := by
  refine Every.bind (.perform trivial) fun _ => Every.bind (.perform trivial) fun _ =>
    Every.bind (.perform trivial) fun outcome => ?_
  cases outcome with
  | failed =>
    exact Every.bind (.perform fun _ => rfl) fun _ => Every.bind (.perform trivial) fun _ => trivial
  | pending | success => exact Every.bind (.perform fun _ => rfl) fun _ => trivial

theorem connect_refined (same : Matches s qs t) :
    Refined (connect w) (Engine.Connecter.connect w) s l t k fun a s' _ b t' _ =>
      Agree a b ∧ Matches s' qs t' := by
  refine .silent (same.takeReq none) fun found s l same => ?_
  cases found with
  | none => exact same.missing .SOCKET_CONNECT .m_nRecvNum (by decide)
  | some q => exact same.postBare .SOCKET_CONNECT

theorem read_refined (same : Matches s qs t) :
    Refined (read w) (Engine.Connecter.read w) s l t k fun a s' _ b t' _ =>
      Agree a b ∧ Matches s' qs t' :=
  same.transfer .SOCKET_READ none _ (by decide) .m_nRecvNum

theorem write_refined (same : Matches s qs t) (datsize : Nat) :
    Refined (write w datsize) (Engine.Connecter.write w) s l t k fun a s' _ b t' _ =>
      Agree a b ∧ Matches s' qs t' := by
  refine refined_get ?_
  rw [same.objects w]
  split
  · exact .ret ⟨.inr (by decide), same⟩
  · exact same.transfer .SOCKET_WRITE none datsize (by decide) .m_nWriteNum

/-- The socket is closed when DisconnectEx has been called, whatever that has returned. -/
theorem stop_refined (same : Matches s qs t) :
    Refined (stop w) (Engine.Connecter.stop w) s l t k fun a s' _ b t' _ =>
      b = a ∧ Matches s' qs t' := by
  refine (same.setStatus .stop).seq fun _ s l _ t k same => refined_get ?_
  rw [same.objects w]
  cases has : (s.objects w).m_TcpSocket with
  | none => exact .ret ⟨rfl, same⟩
  | some x =>
    have closes (s : Shared Connecter) (l t k) (same : Matches s qs t)
        (has : (s.objects w).m_TcpSocket = some x) :
        Refined (do
            perform (.closesocket x)
            set w fun o => { o with m_TcpSocket := none }
            return 0 : ConnecterCall Int)
          (do
            Engine.perform (.closesocket x)
            Engine.set w fun g => { g with m_TcpSocket := none }
            return 0 : Engine.ConnecterCall Int) s l t k fun a s' _ b t' _ =>
          b = a ∧ Matches s' qs t' := by
      refine same.close has (fun _ _ _ _ same => .ret ⟨rfl, same⟩) ?_ (fun _ => rfl) fun _ => rfl
      rintro g o rfl
      rfl
    refine refined_read ?_
    dsimp only
    by_cases connected : (s.objects w).m_bConnected = true
    · rw [if_pos connected, if_pos connected]
      refine .silent ((same.takeReq none).and
        (steady_ensures (w := w) (takeReq_every trivial trivial trivial))) fun found s l after => ?_
      obtain ⟨same, socket⟩ := after
      rw [← socket] at has
      cases found with
      | none =>
        refine ((same.refused _ _).and (steady_ensures (w := w) (.perform fun _ => rfl))).seq
          fun _ s l _ t k after => ?_
        exact closes s l t k after.1.2 (after.2.trans has)
      | some q =>
        have disconnects : Refined (discard (postBare w q .SOCKET_DISCONNECT))
            (Engine.postCounted w .SOCKET_DISCONNECT .m_nRecvNum) s l t k fun _ s' _ _ t' _ =>
              Matches s' qs t' ∧ (s'.objects w).m_TcpSocket = (s.objects w).m_TcpSocket :=
          ((same.postBare _).and (steady_ensures (steady_postBare _))).tail
            fun _ _ _ _ _ _ after => ⟨after.1.2, after.2⟩
        exact disconnects.seq fun _ s l _ t k after => closes s l t k after.1 (after.2.trans has)
    · rw [if_neg connected, if_neg connected]
      exact closes s () t k same has

theorem connected_refined (same : Matches s qs t) (m_bConnected : Bool) :
    Refined (set w fun o => { o with m_bConnected })
      (Engine.set w fun g => { g with m_bConnected }) s l t k fun _ s' _ _ t' _ =>
      Matches s' qs t' := by
  refine same.set ?_ (fun _ => rfl) fun _ => rfl
  rintro g o rfl
  rfl

theorem uninitObject_refined (same : Matches s qs t) :
    Refined (uninitObject w) (Engine.Connecter.uninitObject w) s l t k fun _ s' _ _ t' _ =>
      Matches s' qs t' :=
  (stop_refined same).seq fun _ _ _ _ _ _ after => .ret after.2

theorem releaseIfOver_refined (same : Matches s qs t) :
    Refined (releaseIfOver w) (Engine.Connecter.releaseIfOver w) s l t k fun _ s' _ _ t' _ =>
      Matches s' qs t' := by
  refine same.isOver.seq ?_
  rintro _ s l over_ t k ⟨rfl, same⟩
  cases over_ with
  | false => exact .ret same
  | true =>
    refine refined_get ?_
    rw [same.objects w]
    split
    · exact same.release
    · exact .ret same

/-- What the branches of ConsumeReq end with. -/
theorem quit_refined (same : Matches s qs t) {p : ConnecterCall Unit}
    {p' : Engine.ConnecterCall Unit} (between : ∀ s l t k, Matches s qs t →
      Refined p p' s l t k fun _ s' _ _ t' _ => Matches s' qs t') (n : Int) :
    Refined (do let _ ← uninitObject w; p; releaseIfOver w; return n)
      (do let _ ← Engine.Connecter.uninitObject w; p'; Engine.Connecter.releaseIfOver w; return n)
      s l t k fun a s' _ b t' _ => b = a ∧ Matches s' qs t' := by
  refine (uninitObject_refined same).seq fun _ s l _ t k same => ?_
  refine (between s l t k same).seq fun _ s l _ t k same => ?_
  exact (releaseIfOver_refined same).seq fun _ _ _ _ _ _ same => .ret ⟨rfl, same⟩

theorem readedDataProcess_refined (same : Matches s qs t) (b : Option Buf) :
    Refined (readedDataProcess b) Engine.Connecter.readedDataProcess s l t k
      fun a s' _ b t' _ => a = 0 ∧ b = 0 ∧ Matches s' qs t' :=
  .silent (same.silent (.perform trivial)) fun _ _ _ same => .ret ⟨rfl, rfl, same⟩

theorem readOrClose_refined (same : Matches s qs t) :
    Refined (readOrClose w) (Engine.Connecter.readOrClose w) s l t k fun a s' _ b t' _ =>
      b = a ∧ Matches s' qs t' := by
  refine (read_refined same).seq fun res s l res' t k after => ?_
  obtain ⟨⟨rfl, rfl⟩ | ⟨negative, negative'⟩, same⟩ := after
  · exact .ret ⟨rfl, same⟩
  · rw [if_pos negative, if_pos negative']
    exact quit_refined same (fun s l t k same => same.setStatus .error) (-1)

theorem consumeReq_refined (same : Matches s (q :: qs) t) (bytenumber : Nat) (error : Bool) :
    Refined (consumeReq w bytenumber error q)
      (Engine.Connecter.consumeReq bytenumber error ⟨w, (s.reqs q).m_nOperateType⟩) s l t k
      fun a s' _ b t' _ => b = a ∧ Matches s' qs t' := by
  refine refined_reqGet ?_
  have nothing (s l t k) (same : Matches s qs t) :
      Refined (pure () : ConnecterCall Unit) (pure () : Engine.ConnecterCall Unit) s l t k
        fun _ s' _ _ t' _ => Matches s' qs t' :=
    .ret same
  cases error with
  | true =>
    simp only [Bool.not_true, Bool.false_eq_true, if_false]
    split
    on_goal 1 => refine .silent (same.silent (.perform trivial)) fun _ s l same => ?_
    all_goals
      refine .silent same.reqPush fun _ s l same => ?_
      refine (uninitObject_refined same).seq fun _ s l _ t k same => ?_
      refine (same.setStatus .error).seq fun _ s l _ t k same => ?_
      refine (same.count _).seq fun _ s l _ t k same => ?_
      exact (releaseIfOver_refined same).seq fun _ _ _ _ _ _ same => .ret ⟨rfl, same⟩
  | false =>
    simp only [Bool.not_false, if_true]
    cases (s.reqs q).m_nOperateType with
    | SOCKET_CONNECT =>
      refine (same.count _).seq fun _ s l _ t k same => ?_
      refine (connected_refined same true).seq fun _ s l _ t k same => ?_
      exact .silent same.reqPush fun _ s l same => readOrClose_refined same
    | SOCKET_DISCONNECT =>
      refine (connected_refined same false).seq fun _ s l _ t k same => ?_
      refine .silent same.reqPush fun _ s l same => ?_
      refine (same.count _).seq fun _ s l _ t k same => ?_
      exact (releaseIfOver_refined same).seq fun _ _ _ _ _ _ same => .ret ⟨rfl, same⟩
    | SOCKET_READ =>
      refine (same.count _).seq fun _ s l _ t k same => ?_
      split
      · refine .silent (same.silent (.perform trivial)) fun _ s l same => ?_
        refine .silent same.reqPush fun _ s l same => ?_
        exact quit_refined same nothing (-1)
      · refine (readedDataProcess_refined same _).seq ?_
        rintro _ s l _ t k ⟨rfl, rfl, same⟩
        exact .silent same.reqPush fun _ s l same => readOrClose_refined same
    | SOCKET_WRITE =>
      refine (same.count _).seq fun _ s l _ t k same => ?_
      refine .silent (same.silent (.perform trivial)) fun _ s l same => ?_
      exact .silent same.reqPush fun _ s l same => .ret ⟨rfl, same⟩
    | _ =>
      refine (same.count _).seq fun _ s l _ t k same => ?_
      refine .silent (same.silent (.perform trivial)) fun _ s l same => ?_
      refine .silent same.reqPush fun _ s l same => ?_
      exact quit_refined same nothing (-2)

/-- The connecter has a socket that is not associated with the port yet. -/
def Fresh (t : Engine.Shared Engine.Connecter) (w : Obj) : Prop :=
  ∃ x, (t.objects w).m_TcpSocket = some x ∧ x ∉ t.associated

/-- It has one when Start needs one. -/
def Startable (t : Engine.Shared Engine.Connecter) (w : Obj) : Prop :=
  (t.objects w).m_nStatus ≠ .run → Fresh t w

theorem start_refined (same : Matches s qs t) (ready : Startable t w) :
    Refined (start w) (Engine.Connecter.start w) s l t k fun a s' _ b t' _ =>
      b = a ∧ Matches s' qs t' := by
  have fields := same.objects w
  refine refined_get ?_
  rw [Startable, Fresh] at ready
  rw [fields] at ready ⊢
  split
  · exact .ret ⟨rfl, same⟩
  · rename_i idle
    obtain ⟨x, has, apart⟩ := ready idle
    refine refined_get ?_
    refine (same.associate (fields ▸ has) apart).seq fun _ s l done t k after => ?_
    obtain ⟨rfl, same⟩ := after
    cases done with
    | false => exact .ret ⟨rfl, same⟩
    | true =>
      refine (same.zero _).seq fun _ s l _ t k same => ?_
      refine (same.zero _).seq fun _ s l _ t k same => ?_
      refine (same.zero _).seq fun _ s l _ t k same => ?_
      refine (same.zero _).seq fun _ s l _ t k same => ?_
      refine (same.zero _).seq fun _ s l _ t k same => ?_
      refine (connected_refined same false).seq fun _ s l _ t k same => ?_
      refine (connect_refined same).seq fun res s l res' t k after => ?_
      obtain ⟨⟨rfl, rfl⟩ | ⟨negative, negative'⟩, same⟩ := after
      · exact (same.setStatus .run).seq fun _ _ _ _ _ _ same => .ret ⟨rfl, same⟩
      · rw [if_neg negative.ne, if_neg negative'.ne]
        exact .ret ⟨rfl, same⟩

/-- Nothing but WSASocket makes a socket. -/
theorem nextSock_ensures {α : Type} {p : ConnecterCall α} (every : p.Every (· ≠ .wsaSocket)) :
    p.Ensures step Free s l fun _ s' _ => s'.nextSock = s.nextSock := by
  refine every.ensures (I := fun s' : Shared Connecter => s'.nextSock = s.nextSock)
    (fun s' l op outcome s'' l' r other same taken => ?_) rfl
  simp only [step, Option.some.injEq, Prod.mk.injEq] at taken
  obtain ⟨rfl, -, -⟩ := taken
  refine Eq.trans ?_ same
  cases op
  case wsaSocket => exact absurd rfl other
  case bufPop | bufNew | reqPop | reqNew | post | socketPop | workerPop | workerNew =>
    simp only [Shared.perform]
    split <;> rfl
  all_goals rfl

theorem engine_initObject (t : Engine.Shared Engine.Connecter) (k : Engine.Task)
    (pallocater : Option Obj) (hTcpSocket : Option Sock) :
    (Engine.Connecter.initObject w pallocater hTcpSocket).Can Engine.step t k fun b t' _ =>
      b = (if hTcpSocket = none then -1 else 0) ∧
        t' = { t with
          objects := Function.update t.objects w
            { t.objects w with m_pAllocater := pallocater, m_TcpSocket := hTcpSocket } } := by
  refine ⟨{}, _, _, _, rfl, {}, _, _, _, rfl, {}, _, _, _, rfl, ?_⟩
  simp only [Function.update_self, Function.update_idem]
  cases hTcpSocket <;> exact ⟨rfl, rfl⟩

theorem stock_others : (stock none : ConnecterCall Unit).Every (· ≠ .wsaSocket) := by
  refine Every.bind (.perform (by simp)) fun _ => Every.bind (.perform (by simp)) fun _ =>
    Every.bind (.perform (by simp)) fun _ => Every.bind (.perform (by simp)) fun made => ?_
  cases made with
  | none => trivial
  | some q => exact Every.bind (.perform (by simp)) fun _ => .perform (by simp)

/-- MakeTcpClientSocket gives the connecter a new socket, or none. -/
theorem created (same : Matches s qs t) (made : Option Sock) (apart : ∀ x, made = some x →
      ∀ u, u ≠ w → (s.objects u).m_TcpSocket ≠ some x) (nextSock : Sock) :
    Matches { s with
        nextSock
        objects := Function.update s.objects w { s.objects w with m_TcpSocket := made } } qs
      { t with
        sockets := made.toList ++ t.sockets
        objects := Function.update t.objects w { t.objects w with m_TcpSocket := made } } := by
  have outlines : Outlines { t.objects w with m_TcpSocket := made }
      { s.objects w with m_TcpSocket := made } := by
    rw [same.objects w]
    rfl
  refine Matches.congr (same.update (w := w) outlines rfl (same.counters_kept rfl) rfl ?_ ?_) rfl
    (same.requests.congr rfl rfl rfl rfl) rfl fun _ _ => rfl
  · rintro x has
    obtain rfl : made = some x := has
    exact ⟨by simp, fun u other => apart x rfl u other⟩
  · exact fun u x _ has => List.mem_append_right _ (same.open_ u x has)

/-- InitObject does what it does with the socket that the system has made, if there is one. -/
theorem initObject_refined (same : Matches s qs t) (below : ∀ x ∈ t.sockets, x < s.nextSock)
    (bound : ∀ x ∈ t.associated, x ∈ t.sockets) (pallocater : Option Obj) :
    (initObject w true pallocater).Ensures step Free s l fun a s' _ =>
      ∃ hTcpSocket, (∀ x, hTcpSocket = some x → x = s.nextSock) ∧
        (Engine.Connecter.initObject w pallocater hTcpSocket).Can Engine.step
          { t with sockets := hTcpSocket.toList ++ t.sockets } k
          fun b t' _ => b = a ∧ Matches s' qs t' ∧ t'.allocated = t.allocated ∧
            (b = 0 → Fresh t' w) := by
  have owned : Engine.Connecter.mk (t.objects w).m_TcpSocket (t.objects w).m_nStatus
      (t.objects w).m_bConnected pallocater = { (s.objects w).toConnecter with
        m_pAllocater := pallocater } := by
    rw [same.objects w]
  have allocated := same.write (w := w) (o := { s.objects w with m_pAllocater := pallocater })
    owned rfl rfl
  refine ensures_perform.mpr fun _ => ?_
  refine Ensures.seq ((allocated.stock none).and (nextSock_ensures stock_others)) ?_
  rintro _ s₂ l ⟨same, next⟩
  have ends (nextSock : Sock) (made : Option Sock) (new : ∀ x, made = some x → x = s.nextSock) :
      (do
        set w fun o => { o with m_TcpSocket := made }
        if (← get w).m_TcpSocket = none then return -1
        return 0 : ConnecterCall Int).Ensures step Free { s₂ with nextSock } () fun a s' _ =>
      ∃ hTcpSocket, (∀ x, hTcpSocket = some x → x = s.nextSock) ∧
        (Engine.Connecter.initObject w pallocater hTcpSocket).Can Engine.step
          { t with sockets := hTcpSocket.toList ++ t.sockets } k
          fun b t' _ => b = a ∧ Matches s' qs t' ∧ t'.allocated = t.allocated ∧
            (b = 0 → Fresh t' w) := by
    have given := created (w := w) same made (fun x has u _ has' =>
      Nat.lt_irrefl _ (new x has ▸ below x (same.open_ u x has'))) nextSock
    have fresh (x : Sock) (has : made = some x) : x ∉ t.associated := fun inside =>
      Nat.lt_irrefl _ (new x has ▸ below x (bound x inside))
    refine ensures_perform.mpr fun _ => ensures_get.mpr ?_
    simp only [Shared.perform, Function.update_self]
    split
    all_goals
      rename_i socket
      refine ⟨made, new, (engine_initObject _ k pallocater made).mono ?_⟩
      rintro _ _ _ ⟨rfl, rfl⟩
      simp only [Function.update_self, Function.update_idem] at given
      refine ⟨by simp [socket], given, rfl, fun succeeded => ?_⟩
    · simp [socket] at succeeded
    · obtain ⟨x, has⟩ := Option.ne_none_iff_exists'.mp socket
      exact ⟨x, by simp [has], fresh x has⟩
  refine ensures_perform.mpr fun outcome => ?_
  by_cases made : outcome ≠ .failed
  · simp only [Shared.perform, if_pos made]
    exact ends _ _ fun x has => (Option.some.inj has).symm.trans next
  · simp only [Shared.perform, if_neg made]
    exact ends s₂.nextSock none (by simp)

/-- Connecters before the first call, as the constructor leaves them. -/
theorem initial_matches (pending : t.pending = [])
    (objects : ∀ u, t.objects u = Engine.Connecter.constructed) (o : Connecter) :
    Matches (F := Connecter)
      { unused o with objects := fun u => ⟨t.objects u, t.counters u⟩ } [] t :=
  matches_unused t o (fun _ => rfl) (fun _ => rfl)
    (fun u => congrArg Engine.Connecter.m_TcpSocket (objects u)) pending

/-- The calls that the owner of a connecter makes after InitObject, and completions. -/
def Called (t : Engine.Shared Engine.Connecter) : Entry → Prop
  | .start w => w < t.allocated ∧ Startable t w
  | .stop w | .write w _ => w < t.allocated
  | .complete _ _ _ => True
  | .initObject _ _ _ | .read _ | .connect _ => False

/-- A call of the owner or a completion is one of the connecters without lists. -/
theorem enter_refined (same : Matches s [] t) {e : Entry} (called : Called t e)
    {s' : Shared Connecter} {p : ConnecterCall Unit} (entered : enter s e = some (s', l, p)) :
    ∃ e' t' k p', Engine.Connecter.enter t e' = some (t', k, p') ∧
      Refined p p' s' l t' k fun _ s' _ _ t' _ => Matches s' [] t' := by
  cases e with
  | initObject | read | connect => exact called.elim
  | start w =>
    cases entered
    refine ⟨.start w, _, _, _, if_pos called.1, ?_⟩
    exact (start_refined same called.2).seq fun _ _ _ _ _ _ after => .ret after.2
  | stop w =>
    cases entered
    refine ⟨.stop w, _, _, _, if_pos called, ?_⟩
    exact (stop_refined same).seq fun _ _ _ _ _ _ after => .ret after.2
  | write w datsize =>
    cases entered
    refine ⟨.write w, _, _, _, if_pos called, ?_⟩
    exact (write_refined same datsize).seq fun _ _ _ _ _ _ after => .ret after.2
  | complete posted bytenumber error =>
    simp only [enter] at entered
    split at entered
    · rename_i inside
      obtain ⟨w, observer, entered⟩ := Option.map_eq_some_iff.mp entered
      obtain ⟨posted', inside', req, same⟩ := same.complete inside observer
      cases entered
      refine ⟨.complete posted' bytenumber error, _, _, _, if_pos inside', ?_⟩
      rw [req]
      exact (consumeReq_refined same bytenumber error).seq fun _ _ _ _ _ _ after => .ret after.2
    · cases entered

/-- Write and Stop of the first n connecters, and completions. -/
def Handling (n : Nat) (_ : Shared Connecter) : Entry → Prop
  | .stop w | .write w _ => w < n
  | .complete _ _ _ => True
  | .initObject _ _ _ | .start _ | .read _ | .connect _ => False

/-- Connecters stay allocated. -/
theorem engine_allocated {n : Nat} {t t' : Engine.Shared Engine.Connecter} {k k' : Engine.Task}
    {op : Engine.Op Engine.Connecter} {choice : Engine.Choice} {r : Engine.Res op}
    (known : n ≤ t.allocated) (taken : Engine.step t k op choice = some (t', k', r)) :
    n ≤ t'.allocated := by
  simp only [Engine.step, Option.some.injEq, Prod.mk.injEq] at taken
  obtain ⟨rfl, -, -⟩ := taken
  refine Nat.le_trans known ?_
  cases op
  case workerNew => exact Nat.le_succ _
  case post => cases k <;> simp only [Engine.Shared.perform] <;> split <;> exact Nat.le_refl _
  case isOver | associateDevice | workerPop =>
    simp only [Engine.Shared.perform]
    repeat' split
    all_goals exact Nat.le_refl _
  all_goals exact Nat.le_refl _

theorem engine_entered {e : Engine.Connecter.Entry} {t' : Engine.Shared Engine.Connecter}
    {p' : Engine.ConnecterCall Unit}
    (entered : Engine.Connecter.enter t e = some (t', k, p')) : t.allocated ≤ t'.allocated := by
  cases e <;> simp only [Engine.Connecter.enter] at entered <;> split at entered <;> cases entered
  case create => exact Nat.le_succ _
  all_goals exact Nat.le_refl _

/-- The next connecter is created, and started if it has got a socket. -/
theorem started_refined {U : Type} [DecidableEq U] (u : U)
    (rested : Engine.Connecter.semantics.Rested Engine.Connecter.Initial .idle U t)
    (same : Matches s [] t) (below : ∀ x ∈ t.sockets, x < s.nextSock)
    (bound : ∀ x ∈ t.associated, x ∈ t.sockets)
    (objects : t.objects t.allocated = Engine.Connecter.constructed)
    (counters : t.counters t.allocated = fun _ => 0) (pallocater : Option Obj) :
    (do if (← initObject t.allocated true pallocater) = 0 then discard (start t.allocated)
      : ConnecterCall Unit).Ensures step Free s l fun _ s' _ =>
      ∃ t', Engine.Connecter.semantics.Rested Engine.Connecter.Initial .idle U t' ∧
        Matches s' [] t' ∧ t.allocated < t'.allocated := by
  let w := t.allocated
  have more : Matches s [] { t with allocated := w + 1 } := same.beyond rfl rfl rfl rfl
  have entered (hTcpSocket : Option Sock) (new : ∀ x, hTcpSocket = some x → x = s.nextSock) :
      Engine.Connecter.semantics.enter t (.create pallocater hTcpSocket) =
        some ({ t with allocated := w + 1, sockets := hTcpSocket.toList ++ t.sockets }, .idle,
          Engine.discard (Engine.Connecter.initObject w pallocater hTcpSocket)) := by
    have unused : ¬ ∃ x ∈ t.sockets, hTcpSocket = some x := by
      rintro ⟨x, inside, has⟩
      exact Nat.lt_irrefl _ (new x has ▸ below x inside)
    simp only [Engine.Connecter.semantics, Engine.Connecter.enter, if_neg unused]
    rw [← objects, ← counters, Function.update_eq_self, Function.update_eq_self]
  refine Ensures.seq (initObject_refined (k := .idle) more below bound pallocater) ?_
  rintro a s₁ l ⟨hTcpSocket, new, can⟩
  have ran : (Engine.discard (Engine.Connecter.initObject w pallocater hTcpSocket)).Can Engine.step
      { t with allocated := w + 1, sockets := hTcpSocket.toList ++ t.sockets } .idle
      fun _ t' _ => Matches s₁ [] t' ∧ w < t'.allocated ∧ (a = 0 → Fresh t' w) := by
    refine Can.bind (can.mono ?_)
    rintro b t' k' ⟨rfl, same, known, fresh⟩
    exact ⟨same, known ▸ Nat.lt_succ_self w, fresh⟩
  obtain ⟨t₁, -, ⟨same, known, fresh⟩, rested⟩ := rested.call u (entered hTcpSocket new) ran
  split
  · rename_i succeeded
    obtain ⟨e, t₂, k, p, entered, refined⟩ :=
      enter_refined (e := .start w) same ⟨known, fun _ => fresh succeeded⟩ rfl
    refine Ensures.mono (refined.keeps (fun _ _ _ _ _ _ _ => engine_allocated)
      (Nat.le_trans known (engine_entered entered))) fun _ s₂ _ can => ?_
    obtain ⟨t₃, -, ⟨same, known⟩, rested⟩ := rested.call u entered can
    exact ⟨t₃, rested, same, known⟩
  · exact ⟨t₁, rested, same, known⟩

/-- Connecters that have been started handle their completions, and their owner calls Write
and Stop, in any order. -/
theorem calls_refined {T U : Type} [DecidableEq T] [DecidableEq U] (u : U)
    (rested : Engine.Connecter.semantics.Rested Engine.Connecter.Initial .idle U t)
    (same : Matches s [] t)
    {c : Config T (Shared Connecter) Unit (Op Connecter) Res}
    (run : (semantics.system (· = s) ()).ReachableUnder (Serial (Handling t.allocated) Free) c)
    (rest : ∀ t, c.code t = .ret ()) :
    ∃ t, Engine.Connecter.semantics.Rested Engine.Connecter.Initial .idle U t ∧
      Matches c.shared [] t := by
  let n := t.allocated
  suffices matched : ∃ t, Engine.Connecter.semantics.Rested Engine.Connecter.Initial .idle U t ∧
      Matches c.shared [] t ∧ n ≤ t.allocated by
    obtain ⟨t', rested, same, -⟩ := matched
    exact ⟨t', rested, same⟩
  refine rested_of_refined (R := fun s t => Matches s [] t ∧ n ≤ t.allocated) u ?_ ?_ run rest
  · rintro _ rfl
    exact ⟨t, rested, same, Nat.le_refl _⟩
  · rintro s t e s' l p ⟨same, known⟩ handling entered
    have called : Called t e := by
      cases e with
      | stop w | write w datsize => exact Nat.lt_of_lt_of_le handling known
      | complete => trivial
      | _ => exact handling.elim
    obtain ⟨e', t', k, p', entered', refined⟩ := enter_refined same called entered
    exact ⟨e', t', k, p', entered', refined.keeps (fun _ _ _ _ _ _ _ => engine_allocated)
      (known.trans (engine_entered entered'))⟩

end Connecter

end TestIOCP.Tcp
