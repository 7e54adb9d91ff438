import TestIOCP.Server.Calls
import TestIOCP.Serial

/-! The stubs of CTcpIOCPClientManager. A stub is free, in the list of real clients, in
the hands of the thread that got it for a new socket, or in those of the one thread that
took it off that list to close it. -/
namespace TestIOCP.Server
open Transition Program

/-- A call works on one client, and gives a stub back to where it belongs. -/
def Tends (l : Task) : Op → Prop
  | .getFreeClient => l.client = none ∧ l.handed = none
  | .initClient c sock | .createIoCompletionPort sock c => l.client = some c ∧ l.accepted = sock
  | .addRealClient c => l.client = some c ∧ l.handed = some c
  | .eraseRealClient c => l.client = some c ∧ l.closing = none
  | .pushFreeClient c => l.client = some c ∧ l.closing = some c
  | .realClients | .clearRealClients => False
  | op => ∀ c, op.client = some c → l.client = some c

def clientDiscipline : Discipline Task Op Res where
  pre := Tends
  post l op r l' := l' = l.after op r

/-- A call works on a client and has no stub of its own. -/
structure Works (c : Client) (l : Task) : Prop where
  client : l.client = some c
  handed : l.handed = none
  closing : l.closing = none

/-- A call can end. -/
def Task.Empty (l : Task) : Prop :=
  l.handed = none ∧ l.closing = none

/-- The operations that move no stub and no socket. -/
def Op.Plain : Op → Prop
  | .getFreeClient | .initClient _ _ | .createIoCompletionPort _ _ | .addRealClient _
  | .eraseRealClient _ | .pushFreeClient _ | .realClients | .clearRealClients => False
  | _ => True

variable {α : Type} {l : Task} {c : Client} {r : Record} {b : Block}

theorem after_plain {op : Op} (plain : op.Plain) (res : Res op) :
    (l.after op res).client = l.client ∧ (l.after op res).handed = l.handed ∧
      (l.after op res).closing = l.closing ∧ (l.after op res).accepted = l.accepted ∧
      (l.after op res).completion = l.completion := by
  cases op <;> simp only [Op.Plain] at plain <;> simp only [Task.after, and_self]
  case store => split <;> simp
  case post => split <;> simp
  case switch => split <;> simp
  case findErase => split <;> simp

theorem on_none {op : Op} (none : op.client = none) (c' : Client) (at_ : op.client = some c') :
    c' = c := by
  rw [none] at at_
  contradiction

theorem on_self {op : Op} (self : op.client = some c) (c' : Client) (at_ : op.client = some c') :
    c' = c :=
  Option.some.inj (at_.symm.trans self)

/-- A plain operation on the client of a call, or on none. -/
theorem follows_on {op : Op} {rest : Res op → Call α} {Q : α → Task → Prop} (plain : op.Plain)
    (on : ∀ c', op.client = some c' → c' = c) (client : l.client = some c)
    (after : ∀ res l', l'.client = l.client → l'.handed = l.handed → l'.closing = l.closing →
      (rest res).Follows clientDiscipline l' Q) :
    (call op rest).Follows clientDiscipline l Q := by
  refine ⟨?_, ?_⟩
  · have own (c' : Client) (at_ : op.client = some c') : l.client = some c' := on c' at_ ▸ client
    cases op <;> first | exact own | cases plain
  · rintro res _ rfl
    obtain ⟨client, handed, closing, -⟩ := after_plain (l := l) plain res
    exact after res _ client handed closing

theorem follows_plain {op : Op} {rest : Res op → Call α} {Q : α → Task → Prop} (plain : op.Plain)
    (on : ∀ c', op.client = some c' → c' = c) (works : Works c l)
    (after : ∀ res l', Works c l' → (rest res).Follows clientDiscipline l' Q) :
    (call op rest).Follows clientDiscipline l Q :=
  follows_on plain on works.client fun res l' client handed closing => after res l'
    ⟨client.trans works.client, handed.trans works.handed, closing.trans works.closing⟩

theorem transfer_works (d : Direction) (b : Block) (n : BitVec 32) (works : Works c l) :
    (transfer d c b n).Follows clientDiscipline l (fun _ => Works c) := by
  simp only [transfer, perform, perform_bind]
  refine follows_plain trivial (on_none rfl) works fun r l works => ?_
  refine follows_plain trivial (on_none rfl) works fun _ l works => ?_
  refine follows_plain trivial (on_none rfl) works fun _ l works => ?_
  refine follows_plain trivial (on_none rfl) works fun _ l works => ?_
  refine follows_plain trivial (on_none rfl) works fun _ l works => ?_
  refine follows_plain trivial (on_self rfl) works fun error l works => ?_
  cases error with
  | some err => exact follows_plain trivial (on_none rfl) works fun _ l works => works
  | none => exact follows_plain trivial (on_self rfl) works fun _ l works => works

theorem releaseListed_works (d : Direction) (r : Record) (works : Works c l) :
    (releaseListed d c r).Follows clientDiscipline l (fun _ => Works c) := by
  simp only [releaseListed, perform, perform_bind]
  refine follows_plain trivial (on_none rfl) works fun _ l works => ?_
  refine follows_plain trivial (on_self rfl) works fun found l works => ?_
  cases found with
  | false => exact works
  | true => exact follows_plain trivial (on_none rfl) works fun _ l works => works

theorem releaseOperData_works (r : Record) (works : Works c l) :
    (releaseOperData c r).Follows clientDiscipline l (fun _ => Works c) := by
  simp only [releaseOperData, perform, perform_bind]
  refine follows_plain trivial (on_none rfl) works fun reading l works => ?_
  split
  · exact Follows.bind ((releaseListed_works .recv r works).mono fun _ _ works => works)
  · refine follows_plain trivial (on_none rfl) works fun writing l works => ?_
    split
    · exact Follows.bind ((releaseListed_works .send r works).mono fun _ _ works => works)
    · refine follows_plain trivial (on_self rfl) works fun found l works => ?_
      split
      · exact works
      · exact follows_plain trivial (on_self rfl) works fun _ l works => works

theorem closeStub_works (c : Client) {Q : Int → Task → Prop} (on : l.client = some c)
    (after : ∀ l', l'.client = l.client → l'.handed = l.handed → l'.closing = l.closing → Q 0 l') :
    (closeStub c).Follows clientDiscipline l Q := by
  simp only [closeStub, perform, perform_bind]
  refine follows_on trivial (on_self rfl) on fun _ l₁ client₁ handed₁ closing₁ => ?_
  have on₁ := client₁.trans on
  refine follows_on trivial (on_self rfl) on₁ fun _ l₂ client₂ handed₂ closing₂ => ?_
  have on₂ := client₂.trans on₁
  refine follows_on trivial (on_self rfl) on₂ fun _ l₃ client₃ handed₃ closing₃ => ?_
  exact after l₃ (by rw [client₃, client₂, client₁]) (by rw [handed₃, handed₂, handed₁])
    (by rw [closing₃, closing₂, closing₁])

theorem removeRealClient_works (works : Works c l) :
    (removeRealClient c).Follows clientDiscipline l (fun _ => Works c) := by
  simp only [removeRealClient, perform, perform_bind]
  refine ⟨⟨works.client, works.closing⟩, ?_⟩
  rintro (num : Nat) _ rfl
  dsimp only
  split
  · rename_i absent
    simpa [Task.after_eraseRealClient, absent] using works
  · rename_i present
    simp only [Task.after_eraseRealClient, if_neg present]
    refine Follows.bind (closeStub_works c works.client ?_)
    intro l' client handed closing
    refine ⟨⟨client.trans works.client, closing⟩, ?_⟩
    rintro _ _ rfl
    exact ⟨client.trans works.client, handed.trans works.handed, rfl⟩

theorem closeClient_works (works : Works c l) :
    (closeClient c).Follows clientDiscipline l (fun _ => Works c) :=
  Follows.bind (removeRealClient_works works)

theorem clientStatusNotify_works (works : Works c l) :
    (clientStatusNotify c).Follows clientDiscipline l (fun _ => Works c) := by
  simp only [clientStatusNotify, recvData, perform, perform_bind]
  refine follows_plain trivial (on_none rfl) works fun b l works => ?_
  refine Follows.bind ((transfer_works .recv b 4096 works).mono fun ret l works => ?_)
  split
  · refine Follows.bind ((closeClient_works works).mono fun _ l works => ?_)
    exact follows_plain trivial (on_none rfl) works fun _ l works => works
  · exact works

theorem reply_works (b : Block) (n : BitVec 32) (works : Works c l) :
    (reply c b n).Follows clientDiscipline l (fun _ => Works c) := by
  simp only [reply, sendData, perform]
  refine Follows.bind ((transfer_works .send b _ works).mono fun ret l works => ?_)
  split
  · refine Follows.bind ((closeClient_works works).mono fun _ l works => ?_)
    exact follows_plain trivial (on_none rfl) works fun _ l works => works
  · exact works

theorem operateNotify_works (opertype : Int) (ret_code n : BitVec 32) (b : Block)
    (works : Works c l) :
    (operateNotify opertype c ret_code b n).Follows clientDiscipline l (fun _ => Works c) := by
  have release : (do perform (.releaseMemBlock b); let _ ← closeClient c; return 0 :
        Call Int).Follows
      clientDiscipline l (fun _ => Works c) := by
    simp only [perform, perform_bind]
    refine follows_plain trivial (on_none rfl) works fun _ l works => ?_
    exact Follows.bind ((closeClient_works works).mono fun _ _ works => works)
  simp only [operateNotify]
  split
  · exact release
  split
  · split
    · refine Follows.bind ((reply_works b n works).mono fun _ l works => ?_)
      exact Follows.bind ((clientStatusNotify_works works).mono fun _ _ works => works)
    · exact release
  · split
    · split
      · refine Follows.bind ((closeClient_works works).mono fun _ l works => ?_)
        exact follows_plain trivial (on_none rfl) works fun _ l works => works
      · exact follows_plain trivial (on_none rfl) works fun _ l works => works
    · exact works

theorem notify_works (r : Record) (ret_code transferred : BitVec 32) (works : Works c l) :
    (notify c r ret_code transferred).Follows clientDiscipline l (fun _ => Works c) := by
  simp only [notify, perform, perform_bind]
  refine follows_plain trivial (on_none rfl) works fun oper_type l works => ?_
  refine follows_plain trivial (on_none rfl) works fun b l works => ?_
  refine Follows.bind ((releaseOperData_works r works).mono fun _ l works => ?_)
  exact Follows.bind ((operateNotify_works _ _ _ _ works).mono fun _ _ works => works)

theorem workThread_works (lasterr : Option (BitVec 32)) (r : Record) (transferred : BitVec 32)
    (works : Works c l) :
    (workThread lasterr c r transferred).Follows clientDiscipline l (fun _ => Works c) := by
  cases lasterr with
  | some lasterr => exact notify_works r lasterr transferred works
  | none =>
    simp only [workThread, perform, perform_bind]
    refine follows_plain trivial (on_none rfl) works fun oper_type l works => ?_
    split
    · exact notify_works r 0 transferred works
    · exact works

theorem acceptThread_works (sAccept : Option Sock) (empty : l.Empty) (client : l.client = none)
    (accepted : l.accepted = sAccept) :
    (acceptThread sAccept).Follows clientDiscipline l (fun _ => Task.Empty) := by
  simp only [acceptThread, perform, perform_bind]
  refine ⟨⟨client, empty.1⟩, ?_⟩
  rintro (c : Client) _ rfl
  refine ⟨⟨rfl, accepted⟩, ?_⟩
  rintro _ _ rfl
  refine ⟨⟨rfl, rfl⟩, ?_⟩
  rintro _ _ rfl
  refine ⟨⟨rfl, accepted⟩, ?_⟩
  rintro (ok : Bool) l' rfl
  have works : Works c ((((l.after .getFreeClient c).after (.initClient c sAccept) ()).after
      (.addRealClient c) ()).after (.createIoCompletionPort sAccept c) ok) := ⟨rfl, rfl, empty.2⟩
  cases ok with
  | true => exact Follows.bind ((clientStatusNotify_works works).mono fun _ _ works =>
      ⟨works.handed, works.closing⟩)
  | false => exact Follows.bind ((removeRealClient_works works).mono fun _ _ works =>
      ⟨works.handed, works.closing⟩)

theorem enterAny_works {s s' : Shared} {e : Event ⊕ Request} {p : Call Unit}
    (entered : enterAny s e = some (s', l, p)) :
    p.Follows clientDiscipline l (fun _ => Task.Empty) := by
  have done {c : Client} {l' : Task} (works : Works c l') : l'.Empty :=
    ⟨works.handed, works.closing⟩
  rcases enterAny_cases entered with entered | ⟨d, buffer, length, -⟩
  · cases entered with
    | invalid | accepted => exact acceptThread_works _ ⟨rfl, rfl⟩ rfl rfl
    | dequeued lasterr transferred =>
      exact (workThread_works _ _ _ ⟨rfl, rfl, rfl⟩).mono fun _ _ => done
    | closed =>
      exact Follows.bind ((closeClient_works ⟨rfl, rfl, rfl⟩).mono fun _ _ => done)
  · exact Follows.bind ((transfer_works _ _ _ ⟨rfl, rfl, rfl⟩).mono fun _ _ => done)

end TestIOCP.Server
