import TestIOCP.Ledger
import TestIOCP.Server.Notices
import TestIOCP.Server.Connections

/-! The consumer of the server is told of every connection once, as long as every
CloseClient finds its client. -/
namespace TestIOCP.Server.Notices
open Transition Program

variable {T α β : Type}

/-- What an operation is when nobody looks at notices. -/
def erased : (op : Op) → Program Server.Op Server.Res (Res op)
  | .op _ o => Program.perform o
  | .report _ _ => .ret ()

@[simp] theorem lift_erased (closing : Bool) (p : Server.Call α) :
    (lift closing p).translate erased = p := by
  induction p with
  | ret a => rfl
  | call o rest ih => exact congrArg (Program.call o) (funext ih)

@[simp] theorem report_erased (c : Client) (status_code : Int) :
    (report c status_code).translate erased = .ret () := rfl

theorem translate_ite {p : Prop} [Decidable p] (a b : Call α) :
    (if p then a else b).translate erased = if p then a.translate erased else
      b.translate erased := by
  split <;> rfl

@[simp] theorem closeClient_erased (c : Client) :
    (closeClient c).translate erased = Server.closeClient c := by
  simp [closeClient, Server.closeClient]

@[simp] theorem postRead_erased (c : Client) :
    (postRead c).translate erased = Server.clientStatusNotify c := by
  simp only [postRead, Server.clientStatusNotify, translate_bind, translate_ite, closeClient_erased,
    lift_erased]
  rfl

theorem reply_erased (c : Client) (b : Block) (n : BitVec 32) :
    (reply c b n).translate erased = Server.reply c b n := by
  simp only [reply, Server.reply, translate_bind, translate_ite, closeClient_erased, lift_erased]
  rfl

theorem operateNotify_erased (opertype : Int) (c : Client) (ret_code : BitVec 32) (b : Block)
    (n : BitVec 32) :
    (operateNotify opertype c ret_code b n).translate erased =
      Server.operateNotify opertype c ret_code b n := by
  simp only [operateNotify, Server.operateNotify, translate_bind, translate_ite, closeClient_erased,
    postRead_erased, reply_erased]
  rfl

theorem notify_erased (c : Client) (r : Record) (ret_code transferred : BitVec 32) :
    (notify c r ret_code transferred).translate erased =
      Server.notify c r ret_code transferred := by
  simp only [notify, Server.notify, translate_bind, lift_erased, operateNotify_erased]
  rfl

theorem workThread_erased (lasterr : Option (BitVec 32)) (c : Client) (r : Record)
    (transferred : BitVec 32) :
    (workThread lasterr c r transferred).translate erased =
      Server.workThread lasterr c r transferred := by
  cases lasterr with
  | some lasterr => exact notify_erased c r lasterr transferred
  | none =>
    simp only [workThread, Server.workThread, translate_bind, translate_ite, notify_erased]
    rfl

theorem acceptThread_erased (sAccept : Option Sock) :
    (acceptThread sAccept).translate erased = Server.acceptThread sAccept := by
  simp only [acceptThread, Server.acceptThread, clientStatusNotify, translate_bind, translate_ite,
    postRead_erased, lift_erased]
  rfl

theorem handle_erased {s s' : Server.Shared} {e : Event} {l : Task} {p : Server.Call Unit}
    (entered : Server.enter s e = some (s', l, p)) : (handle s e).translate erased = p := by
  cases e with
  | accept invalid =>
    cases invalid
    all_goals
      cases entered
      exact acceptThread_erased _
  | dequeue posted lasterr transferred =>
    simp only [Server.enter] at entered
    split at entered
    · contradiction
    rename_i c key
    split at entered
    · cases entered
      simpa [handle, key] using workThread_erased lasterr c posted.record transferred
    · contradiction
  | closeClient c =>
    simp only [Server.enter] at entered
    split at entered
    · cases entered
      simp [handle]
    · contradiction

variable {s s' : Shared} {l l' : Local} {hand : Hand} {closing : Bool}

theorem note_same (s : Shared) (hand : Hand) (closing : Bool) (o : Server.Op) (r : Server.Res o) :
    (s.note hand closing o r).1.server = s.server ∧
      (s.note hand closing o r).1.notices = s.notices := by
  cases o <;> simp only [Shared.note, and_self]
  case createIoCompletionPort sock c =>
    split
    · split <;> exact ⟨rfl, rfl⟩
    · exact ⟨rfl, rfl⟩
  case eraseRealClient c =>
    split
    · exact ⟨rfl, rfl⟩
    · split <;> exact ⟨rfl, rfl⟩

theorem step_op {o : Server.Op} {choice : Choice} {r : Server.Res o}
    (performed : step s l (.op closing o) choice = some (s', l', r)) :
    r = (s.server.perform choice o).2 ∧
      s' = ({ s with server := (s.server.perform choice o).1 }.note l.hand closing o r).1 ∧
      l' =
          ⟨l.task.after o r, ({ s with server := (s.server.perform choice o).1 }.note l.hand
              closing o r).2⟩ := by
  simp only [step, Option.some.injEq, Prod.mk.injEq] at performed
  obtain ⟨rfl, rfl, rfl⟩ := performed
  exact ⟨rfl, rfl, rfl⟩

/-- Without notices, the server is the one of Server.Calls. -/
theorem erases : semantics.Erases semanticsAny Shared.server Local.task erased := by
  constructor
  · intro s e s₁ l p entered
    obtain ⟨⟨server, task, p'⟩, enters, same⟩ := Option.map_eq_some_iff.mp entered
    cases same
    refine ⟨.inl e, ?_⟩
    rw [handle_erased enters]
    exact enters
  · intro s l op choice s₁ l₁ r performed
    cases op with
    | op closing o =>
      obtain ⟨rfl, rfl, rfl⟩ := step_op performed
      refine .inr ⟨o, .ret, choice, _, rfl, ?_, rfl⟩
      rw [(note_same _ _ _ _ _).1]
      rfl
    | report c status_code =>
      cases performed
      exact .inl ⟨rfl, rfl, rfl⟩

/-- What the server of Server.Calls guarantees. -/
def Served (s : Config T Shared Local Op Res) : Prop :=
  Partition s.shared.server (fun t => (s.own t).task) ∧
    ∀ t, ((s.code t).translate erased).Follows clientDiscipline (s.own t).task (fun _ => Task.Empty)

theorem served_of_run [DecidableEq T] {s : Config T Shared Local Op Res}
    {guard : Config T Shared Local Op Res → Label T Choice Event → Prop}
    (run : (system T).ReachableUnder guard s) : Served s :=
  partition_of_run (erases.reachable (fun _ first => first.server) rfl run)

theorem Served.tends {s : Config T Shared Local Op Res} {t : T} {closing : Bool} {o : Server.Op}
    {rest : Res (.op closing o) → Call Unit} (served : Served s)
    (code : s.code t = .call (.op closing o) rest) : Tends (s.own t).task o := by
  have follows := served.2 t
  rw [code] at follows
  exact follows.1

/-- What a call must have to do with a connection before an operation. -/
def Reports (hand : Hand) : Op → Prop
  | .report c status_code => ∃ k,
    (status_code = 0 ∧ hand = .announcing ⟨c, k⟩) ∨ (status_code = 1 ∧ hand = .removed ⟨c, k⟩)
  | .op true (.eraseRealClient _) | .op _ .getFreeClient => hand = .nothing
  | .op _ (.createIoCompletionPort _ c) => ∃ k, hand = .connecting ⟨c, k⟩
  | .op _ _ => ∀ x, hand ≠ .announcing x

/-- And after it. -/
def Reported (hand hand' : Hand) : (op : Op) → Res op → Prop
  | .report _ _, _ => hand' = .nothing
  | .op true (.eraseRealClient c), _ => ∃ k, hand' = .removed ⟨c, k⟩
  | .op _ .getFreeClient, c => ∃ k, hand' = .connecting ⟨c, k⟩
  | .op _ (.createIoCompletionPort _ _), ok =>
    ∃ x, hand = .connecting x ∧ hand' = if ok then .announcing x else .nothing
  | .op _ _, _ => hand' = hand

def reportDiscipline : Discipline Local Op Res where
  pre l op := Reports l.hand op
  post l op r l' := Reported l.hand l'.hand op r

/-- The operations that have nothing to do with connections. -/
def Op.Quiet : Op → Prop
  | .report _ _ | .op true (.eraseRealClient _) | .op _ .getFreeClient
  | .op _ (.createIoCompletionPort _ _) => False
  | .op _ _ => True

theorem Op.Quiet.reports {op : Op} (quiet : op.Quiet) (none : ∀ x, hand ≠ .announcing x) :
    Reports hand op := by
  cases op with
  | report c status_code => exact quiet.elim
  | op closing o => cases closing <;> cases o <;> first | exact none | exact quiet.elim

theorem Op.Quiet.reported {op : Op} (quiet : op.Quiet) {r : Res op} {hand' : Hand} :
    Reported hand hand' op r ↔ hand' = hand := by
  cases op with
  | report c status_code => exact quiet.elim
  | op closing o => cases closing <;> cases o <;> first | exact .rfl | exact quiet.elim

theorem follows_quiet {p : Call α} (quiet : p.Every Op.Quiet) (none : ∀ x, l.hand ≠ .announcing x) :
    p.Follows reportDiscipline l (fun _ l' => l'.hand = l.hand) := by
  induction p generalizing l with
  | ret a => rfl
  | call op rest ih =>
    refine ⟨quiet.1.reports none, fun r l' after => ?_⟩
    have same : l'.hand = l.hand := quiet.1.reported.mp after
    refine (ih r (quiet.2 r) (same ▸ none)).mono ?_
    exact fun _ _ same' => same'.trans same

/-- A part of a call that has nothing to do with connections. -/
theorem follows_idle {p : Call α} (quiet : p.Every Op.Quiet) (idle : l.hand = .nothing) :
    p.Follows reportDiscipline l (fun _ l' => l'.hand = .nothing) :=
  (follows_quiet quiet (by simp [idle])).mono fun _ _ same => same.trans idle

/-- An operation that has nothing to do with connections. -/
theorem follows_act {o : Server.Op} {f : Server.Res o → Call β} {Q : β → Local → Prop}
    (quiet : (Op.op false o).Quiet) (none : ∀ x, l.hand ≠ .announcing x)
    (after : ∀ r l', l'.hand = l.hand → (f r).Follows reportDiscipline l' Q) :
    (act o >>= f).Follows reportDiscipline l Q :=
  ⟨quiet.reports none, fun r l' reported => after r l' (quiet.reported.mp reported)⟩

/-- The same in a call that has to do with no connection. -/
theorem follows_act_idle {o : Server.Op} {f : Server.Res o → Call β} {Q : β → Local → Prop}
    (quiet : (Op.op false o).Quiet) (idle : l.hand = .nothing)
    (after : ∀ r l', l'.hand = .nothing → (f r).Follows reportDiscipline l' Q) :
    (act o >>= f).Follows reportDiscipline l Q :=
  follows_act quiet (by simp [idle]) fun r l' same => after r l' (same.trans idle)

theorem lift_quiet {p : Server.Call α} (every : p.Every fun o => (Op.op closing o).Quiet) :
    (lift closing p).Every Op.Quiet :=
  every.translate fun _ quiet => .perform quiet

theorem transfer_quiet (d : Direction) (c : Client) (b : Block) (n : BitVec 32) :
    (lift false (transfer d c b n)).Every Op.Quiet := by
  refine lift_quiet (.bind (.perform trivial) fun r => .bind (.perform trivial) fun _ => ?_)
  refine .bind (.perform trivial) fun _ => .bind (.perform trivial) fun _ => ?_
  refine .bind (.perform trivial) fun _ => .bind (.perform trivial) fun error => ?_
  cases error <;> exact .bind (.perform trivial) fun _ => trivial

theorem releaseListed_quiet (d : Direction) (c : Client) (r : Record) :
    (releaseListed d c r).Every fun o => (Op.op false o).Quiet := by
  refine .bind (.perform trivial) fun _ => .bind (.perform trivial) fun found => ?_
  cases found with
  | false => trivial
  | true => exact .perform trivial

theorem releaseOperData_quiet (c : Client) (r : Record) :
    (lift false (releaseOperData c r)).Every Op.Quiet := by
  refine lift_quiet (.bind (.perform trivial) fun reading => ?_)
  split
  · exact (releaseListed_quiet .recv c r).bind fun _ => trivial
  · refine .bind (.perform trivial) fun writing => ?_
    split
    · exact (releaseListed_quiet .send c r).bind fun _ => trivial
    · refine .bind (.perform trivial) fun found => ?_
      split
      · trivial
      · exact .bind (.perform trivial) fun _ => trivial

/-- What RemoveRealClient does with a client that it has taken off the list. -/
theorem closeStub_quiet (closing : Bool) (c : Client) :
    (do let _ ← closeStub c; Server.perform (.pushFreeClient c); return 0 : Server.Call Int).Every
      fun o => (Op.op closing o).Quiet := by
  cases closing
  all_goals
    refine .bind (.bind (.perform trivial) fun _ =>
      .bind (.perform trivial) fun _ => ?_) fun _ => ?_
    · exact .bind (.perform trivial) fun _ => trivial
    · exact .bind (.perform trivial) fun _ => trivial

theorem removeRealClient_quiet (c : Client) : (lift false (removeRealClient c)).Every Op.Quiet := by
  refine lift_quiet (.bind (.perform trivial) fun num => ?_)
  split
  · trivial
  · exact closeStub_quiet false c

/-- A CloseClient that finds its client has removed a connection. -/
theorem removeRealClient_reports (c : Client) (idle : l.hand = .nothing) :
    (lift true (removeRealClient c)).Follows reportDiscipline l
      (fun _ l' => ∃ k, l'.hand = .removed ⟨c, k⟩) := by
  refine ⟨idle, ?_⟩
  rintro (num : Nat) l₁ ⟨k, removed⟩
  have rest : (lift true (if num < 1 then return 0 else do
      let _ ← closeStub c; Server.perform (.pushFreeClient c); return 0 : Server.Call Int)).Every
        Op.Quiet := by
    refine lift_quiet ?_
    split
    · trivial
    · exact closeStub_quiet true c
  have none : ∀ x, l₁.hand ≠ .announcing x := by simp [removed]
  exact (follows_quiet rest none).mono fun _ _ same => ⟨k, same.trans removed⟩

theorem closeClient_reports (c : Client) (idle : l.hand = .nothing) :
    (closeClient c).Follows reportDiscipline l (fun _ l' => l'.hand = .nothing) := by
  refine Follows.bind ((removeRealClient_reports c idle).mono ?_)
  rintro _ l₁ ⟨k, removed⟩
  exact ⟨⟨k, .inr ⟨rfl, removed⟩⟩, fun _ _ done => done⟩

theorem postRead_reports (c : Client) (idle : l.hand = .nothing) :
    (postRead c).Follows reportDiscipline l (fun _ l' => l'.hand = .nothing) := by
  refine follows_act_idle trivial idle fun b l₁ idle => ?_
  refine Follows.bind ((follows_idle (transfer_quiet .recv c b 4096) idle).mono
    fun ret l₂ idle => ?_)
  split
  · refine Follows.bind ((closeClient_reports c idle).mono fun _ l₃ idle => ?_)
    exact follows_act_idle trivial idle fun _ _ idle => idle
  · exact idle

theorem reply_reports (c : Client) (b : Block) (n : BitVec 32) (idle : l.hand = .nothing) :
    (reply c b n).Follows reportDiscipline l (fun _ l' => l'.hand = .nothing) := by
  refine Follows.bind ((follows_idle (transfer_quiet .send c b _) idle).mono fun ret l₁ idle => ?_)
  split
  · refine Follows.bind ((closeClient_reports c idle).mono fun _ l₂ idle => ?_)
    exact follows_idle (.perform trivial) idle
  · exact idle

/-- A block is released and the client closed, as OperateNotify does in its branches. -/
theorem release_reports (c : Client) (b : Block) (idle : l.hand = .nothing) :
    (do act (.releaseMemBlock b); let _ ← closeClient c; return 0 : Call Int).Follows
      reportDiscipline l (fun _ l' => l'.hand = .nothing) := by
  refine follows_act_idle trivial idle fun _ l₁ idle => ?_
  exact Follows.bind ((closeClient_reports c idle).mono fun _ _ idle => idle)

theorem operateNotify_reports (opertype : Int) (c : Client) (ret_code : BitVec 32) (b : Block)
    (n : BitVec 32) (idle : l.hand = .nothing) : (operateNotify opertype c ret_code b n).Follows
      reportDiscipline l (fun _ l' => l'.hand = .nothing) := by
  simp only [operateNotify]
  split
  · exact release_reports c b idle
  split
  · split
    · refine Follows.bind ((reply_reports c b n idle).mono fun _ l₁ idle => ?_)
      exact Follows.bind ((postRead_reports c idle).mono fun _ _ idle => idle)
    · exact release_reports c b idle
  · split
    · split
      · refine Follows.bind ((closeClient_reports c idle).mono fun _ l₁ idle => ?_)
        exact follows_act_idle trivial idle fun _ _ idle => idle
      · exact follows_act_idle trivial idle fun _ _ idle => idle
    · exact idle

theorem notify_reports (c : Client) (r : Record) (ret_code transferred : BitVec 32)
    (idle : l.hand = .nothing) : (notify c r ret_code transferred).Follows reportDiscipline l
      (fun _ l' => l'.hand = .nothing) := by
  refine follows_act_idle trivial idle fun oper_type l₁ idle => ?_
  refine follows_act_idle trivial idle fun b l₂ idle => ?_
  refine Follows.bind ((follows_idle (releaseOperData_quiet c r) idle).mono fun _ l₃ idle => ?_)
  exact Follows.bind ((operateNotify_reports _ c _ b _ idle).mono fun _ _ idle => idle)

theorem workThread_reports (lasterr : Option (BitVec 32)) (c : Client) (r : Record)
    (transferred : BitVec 32) (idle : l.hand = .nothing) :
    (workThread lasterr c r transferred).Follows reportDiscipline l
      (fun _ l' => l'.hand = .nothing) := by
  cases lasterr with
  | some lasterr => exact notify_reports c r lasterr transferred idle
  | none =>
    refine follows_act_idle trivial idle fun oper_type l₁ idle => ?_
    split
    · exact notify_reports c r 0 transferred idle
    · exact idle

/-- AcceptThread tells of a connection when it has associated it. -/
theorem acceptThread_reports (sAccept : Option Sock) (idle : l.hand = .nothing) :
    (acceptThread sAccept).Follows reportDiscipline l (fun _ l' => l'.hand = .nothing) := by
  refine ⟨idle, ?_⟩
  rintro (c : Client) l₁ ⟨k, connecting⟩
  refine follows_act trivial (by simp [connecting]) fun _ l₂ same₂ => ?_
  have connecting₂ := same₂.trans connecting
  refine follows_act trivial (by simp [connecting₂]) fun _ l₃ same₃ => ?_
  have connecting₃ := same₃.trans connecting₂
  refine ⟨⟨k, connecting₃⟩, ?_⟩
  rintro (ok : Bool) l₄ ⟨x, connecting, after⟩
  obtain rfl : x = ⟨c, k⟩ := by simpa [connecting] using connecting₃
  cases ok with
  | true =>
    refine ⟨⟨k, .inl ⟨rfl, after⟩⟩, fun _ l₅ idle => ?_⟩
    exact Follows.bind ((postRead_reports c idle).mono fun _ _ idle => idle)
  | false =>
    change (lift false (removeRealClient c) >>= fun _ => return ()).Follows reportDiscipline l₄ _
    exact Follows.bind ((follows_idle (removeRealClient_quiet c) after).mono fun _ _ idle => idle)

theorem handle_reports (s : Server.Shared) (e : Event) (idle : l.hand = .nothing) :
    (handle s e).Follows reportDiscipline l (fun _ l' => l'.hand = .nothing) := by
  cases e with
  | accept invalid => exact acceptThread_reports _ idle
  | dequeue posted lasterr transferred =>
    simp only [handle]
    split
    · exact workThread_reports lasterr _ _ transferred idle
    · exact idle
  | closeClient c => exact Follows.bind ((closeClient_reports c idle).mono fun _ _ idle => idle)

end TestIOCP.Server.Notices
