import TestIOCP.Server.Echo
import TestIOCP.Server.Notices

/-! What is in the blocks of CMemCache while the echo server runs. The calls of the
consumer are those of Server.Echo, and their callees, WorkThread and AcceptThread those of
Server.Calls. Beside the state it is kept what was passed to the system with each record,
what every connection has brought, and what was passed to WSASend for it. -/
namespace TestIOCP.Server.Contents
open Transition Program CString
open Notices (Connection)

/-- A range that was passed to WSARecv or WSASend, with the bytes that were there. -/
structure Buffer where
  direction : Direction
  buf : Block
  len : BitVec 32
  bytes : List Byte
  deriving DecidableEq

/-- passed is about the last operation that was accepted with a record. A connection is
refused when a WSASend for it fails. -/
structure Shared where
  server : Server.Shared
  contents : Block → Nat → Byte
  passed : Record → Buffer
  arrived : Connection → List (List Byte) := fun _ => []
  sent : Connection → List (List Byte) := fun _ => []
  refused : Connection → Bool := fun _ => false

/-- What a call knows of the block that it has: it is zeros, what a read has brought and
zeros behind it, or the answer to that. -/
inductive Data where
  | unknown
  | zeros
  | piece (bytes : List Byte)
  | answer (bytes : List Byte)
  deriving DecidableEq

/-- turn is the connection for which the call may post the next read. -/
structure Local where
  task : Task := {}
  turn : Option Connection := none
  data : Data := .unknown
  deriving DecidableEq

inductive Op where
  | op (o : Server.Op)
  | memset (pdata : Block)
  | strcat_s (pdatabuf : Block) (text : List Byte)
  deriving DecidableEq

abbrev Res : Op → Type
  | .op o => Server.Res o
  | _ => Unit

abbrev Call := Program Op Res

def act (o : Server.Op) : Call (Server.Res o) :=
  Program.perform (Op.op o)

def lift (p : Server.Call α) : Call α :=
  p.translate act

/-- What the operations of the consumer are. -/
def served : (op : Echo.Op) → Call (Echo.Res op)
  | .getMemBlock => act .getMemBlock
  | .releaseMemBlock pdata => act (.releaseMemBlock pdata)
  | .memset pdata => Program.perform (Op.memset pdata)
  | .strcat_s pdatabuf text => Program.perform (Op.strcat_s pdatabuf text)
  | .recvData pclient pdatabuf buflength => lift (recvData pclient pdatabuf buflength)
  | .sendData pclient pdatabuf datalength => lift (sendData pclient pdatabuf datalength)
  | .closeClient pclient => lift (closeClient pclient)

def clientStatusNotify (pclient : Client) : Call Int :=
  (Echo.clientStatusNotify pclient).translate served

def operateNotify (opertype : Int) (pclient : Client) (ret_code : BitVec 32) (pdatabuf : Block)
    (datalength : BitVec 32) : Call Int :=
  (Echo.operateNotify opertype pclient ret_code pdatabuf datalength).translate served

/-- What WorkThread does with a completion in both of its branches. -/
def notify (pclient : Client) (pio : Record) (ret_code transferred : BitVec 32) : Call Unit := do
  let oper_type ← act (.operType pio)
  let pdatabuf ← act (.buf pio)
  let _ ← lift (releaseOperData pclient pio)
  let _ ← operateNotify oper_type pclient ret_code pdatabuf transferred

/-- WorkThread from one completion to the next. -/
def workThread (lasterr : Option (BitVec 32)) (pclient : Client) (pio : Record)
    (transferred : BitVec 32) : Call Unit := do
  match lasterr with
  | some lasterr => notify pclient pio lasterr transferred
  | none =>
    let oper_type ← act (.switch pio)
    if oper_type = 0 ∨ oper_type = 1 then
      notify pclient pio 0 transferred

/-- AcceptThread from one accepted socket to the next. -/
def acceptThread (sAccept : Option Sock) : Call Unit := do
  let pclient ← act .getFreeClient
  act (.initClient pclient sAccept)
  act (.addRealClient pclient)
  if ← act (.createIoCompletionPort sAccept pclient) then
    let _ ← clientStatusNotify pclient
  else
    let _ ← lift (removeRealClient pclient)

/-- The call that an event starts. -/
def handle (s : Server.Shared) : Server.Event → Call Unit
  | .accept invalid => acceptThread (if invalid then none else some s.sockets)
  | .dequeue posted lasterr transferred =>
    match s.key posted.socket with
    | some pclient => workThread lasterr pclient posted.record transferred
    | none => return
  | .closeClient c => do let _ ← lift (closeClient c)

namespace Shared

/-- The connection that a stub serves. -/
def current (s : Shared) (c : Client) : Connection :=
  ⟨c, s.server.connection c⟩

def write (s : Shared) (b : Block) (f : (Nat → Byte) → Nat → Byte) : Shared :=
  { s with contents := Function.update s.contents b (f (s.contents b)) }

/-- What the system is given with a record. -/
def buffer (s : Shared) (d : Direction) (r : Record) : Buffer :=
  let data := s.server.records r
  ⟨d, data.buf, data.len, Cells.read (s.contents data.buf) 0 data.len.toNat⟩

/-- An operation is accepted. -/
def pass (s : Shared) (d : Direction) (r : Record) : Shared :=
  { s with passed := Function.update s.passed r (s.buffer d r) }

/-- A connection brings a piece of its stream. -/
def arrive (s : Shared) (x : Connection) (piece : List Byte) : Shared :=
  { s with arrived := Function.update s.arrived x (s.arrived x ++ [piece]) }

def send (s : Shared) (x : Connection) (bytes : List Byte) : Shared :=
  { s with sent := Function.update s.sent x (s.sent x ++ [bytes]) }

def refuse (s : Shared) (x : Connection) : Shared :=
  { s with refused := Function.update s.refused x true }

/-- What is written down of an operation of the server. -/
def note (s : Shared) (l : Local) : (o : Server.Op) → Server.Res o → Shared × Local
  | .getFreeClient, c => (s, { l with turn := some (s.current c) })
  | .post c d r, error =>
    match d, error with
    | .recv, none => (s.pass .recv r, { l with turn := none, data := .unknown })
    | .recv, some _ => (s, l)
    | .send, none =>
      ((s.pass .send r).send (s.current c) (s.buffer .send r).bytes, { l with data := .unknown })
    | .send, some _ => (s.refuse (s.current c), { l with data := .unknown })
  | .getMemBlock, _ | .releaseMemBlock _, _ => (s, { l with data := .unknown })
  | _, _ => (s, l)

end Shared

/-- An event of the server, and what the system has written to the buffer of a read. -/
structure Event where
  event : Server.Event
  payload : List Byte := []
  deriving DecidableEq

/-- A read that succeeds brings as many bytes as it says. -/
def Brings (q : Buffer) (lasterr : Option (BitVec 32)) (transferred : BitVec 32)
    (payload : List Byte) : Prop :=
  match q.direction with
  | .recv => payload.length ≤ q.len.toNat ∧
    (lasterr.getD 0 = 0 → payload.length = transferred.toNat)
  | .send => payload = []

instance (q : Buffer) (lasterr : Option (BitVec 32)) (transferred : BitVec 32)
    (payload : List Byte) : Decidable (Brings q lasterr transferred payload) := by
  unfold Brings
  cases q.direction <;> infer_instance

/-- What a read has left in its buffer, if it brought something. -/
def brought (lasterr : Option (BitVec 32)) (payload : List Byte) : Data :=
  if lasterr.getD 0 = 0 ∧ payload ≠ [] then .piece payload else .unknown

/-- A dequeued read gives its call the turn of its connection. -/
def Shared.complete (s : Shared) (posted : Posted) (lasterr : Option (BitVec 32))
    (payload : List Byte) (task : Task) : Shared × Local :=
  let x : Connection := ⟨posted.client, posted.connection⟩
  let q := s.passed posted.record
  match q.direction with
  | .recv =>
    let s' := s.write q.buf (Cells.write · 0 payload)
    (if lasterr.getD 0 = 0 ∧ payload ≠ [] then s'.arrive x payload else s',
      { task, turn := some x, data := brought lasterr payload })
  | .send => (s, { task })

def enter (s : Shared) (e : Event) : Option (Shared × Local × Call Unit) :=
  (Server.enter s.server e.event).bind fun (server, task, _) =>
    match e.event with
    | .dequeue posted lasterr transferred =>
      if Brings (s.passed posted.record) lasterr transferred e.payload then
        let (s', l) := { s with server }.complete posted lasterr e.payload task
        some (s', l, handle s.server e.event)
      else none
    | _ => some ({ s with server }, { task }, handle s.server e.event)

def step (s : Shared) (l : Local) : (op : Op) → Choice → Option (Shared × Local × Res op)
  | .op o, choice =>
    let (server, r) := s.server.perform choice o
    let (s', l') := { s with server }.note { l with task := l.task.after o r } o r
    some (s', l', r)
  | .memset b, _ =>
    some (s.write b (Cells.write · 0 (List.replicate 4096 0)), { l with data := .zeros }, ())
  | .strcat_s b text, _ =>
    (Echo.strcat_s (s.contents b) 0 4096 text).map fun memory =>
      let data := match l.data with
        | .piece bytes => .answer bytes
        | _ => .unknown
      (s.write b fun _ => memory, { l with data }, ())

/-- The server has just started, with anything in its memory. -/
structure Initial (s : Shared) : Prop where
  server : Server.Initial s.server
  streams : s.arrived = (fun _ => []) ∧ s.sent = (fun _ => []) ∧ s.refused = fun _ => false

def semantics : Semantics Shared Local Op Res Choice Event where
  enter := enter
  step := step

/-- The echo server with any number of threads. -/
def system (T : Type) [DecidableEq T] :
    System (Config T Shared Local Op Res) (Label T Choice Event) :=
  semantics.system Initial {}

variable {α : Type}

/-- What an operation is when nobody looks at the contents. -/
def erased : (op : Op) → Program Server.Op Server.Res (Res op)
  | .op o => Program.perform o
  | .memset _ | .strcat_s _ _ => .ret ()

@[simp] theorem lift_erased (p : Server.Call α) : (lift p).translate erased = p := by
  induction p with
  | ret a => rfl
  | call o rest ih => exact congrArg (Program.call o) (funext ih)

theorem served_erased (op : Echo.Op) : (served op).translate erased = Echo.calls op := by
  cases op with
  | recvData c b n => exact lift_erased _
  | sendData c b n => exact lift_erased _
  | closeClient c => exact lift_erased _
  | getMemBlock | releaseMemBlock _ | memset _ | strcat_s _ _ => rfl

@[simp] theorem translate_served (p : Echo.Call α) :
    (p.translate served).translate erased = p.translate Echo.calls := by
  rw [translate_translate]
  exact congrArg (Program.translate · p) (funext served_erased)

@[simp] theorem clientStatusNotify_erased (c : Client) :
    (clientStatusNotify c).translate erased = Server.clientStatusNotify c :=
  (translate_served _).trans (Echo.clientStatusNotify_calls c)

@[simp] theorem operateNotify_erased (opertype : Int) (c : Client) (ret_code : BitVec 32)
    (b : Block) (n : BitVec 32) : (operateNotify opertype c ret_code b n).translate erased =
      Server.operateNotify opertype c ret_code b n :=
  (translate_served _).trans (Echo.operateNotify_calls opertype c ret_code b n)

theorem notify_erased (c : Client) (r : Record) (ret_code transferred : BitVec 32) :
    (notify c r ret_code transferred).translate erased =
      Server.notify c r ret_code transferred := by
  simp only [notify, Server.notify, translate_bind, lift_erased, operateNotify_erased]
  rfl

theorem workThread_erased (lasterr : Option (BitVec 32)) (c : Client) (r : Record)
    (transferred : BitVec 32) : (workThread lasterr c r transferred).translate erased =
      Server.workThread lasterr c r transferred := by
  cases lasterr with
  | some lasterr => exact notify_erased c r lasterr transferred
  | none =>
    simp only [workThread, Server.workThread, translate_bind, apply_ite (translate erased),
      notify_erased]
    rfl

theorem acceptThread_erased (sAccept : Option Sock) :
    (acceptThread sAccept).translate erased = Server.acceptThread sAccept := by
  simp only [acceptThread, Server.acceptThread, translate_bind, apply_ite (translate erased),
    lift_erased, clientStatusNotify_erased]
  rfl

theorem handle_erased {s s' : Server.Shared} {e : Server.Event} {l : Task} {p : Server.Call Unit}
    (entered : Server.enter s e = some (s', l, p)) : (handle s e).translate erased = p := by
  cases e with
  | accept invalid =>
    cases invalid
    all_goals
      cases entered
      exact acceptThread_erased _
  | dequeue posted lasterr transferred =>
    simp only [Server.enter] at entered
    split at entered
    · contradiction
    rename_i c key
    split at entered
    · cases entered
      simpa [handle, key] using workThread_erased lasterr c posted.record transferred
    · contradiction
  | closeClient c =>
    simp only [Server.enter] at entered
    split at entered
    · cases entered
      simp [handle]
    · contradiction

/-- What an event leaves. -/
inductive Entered (s : Shared) : Shared → Local → Call Unit → Event → Prop where
  | other (entered : Server.enter s.server e.event = some (server, task, p))
    (other : ∀ posted lasterr transferred, e.event ≠ .dequeue posted lasterr transferred) :
    Entered s { s with server } { task } (handle s.server e.event) e
  | completed {posted : Posted} {lasterr : Option (BitVec 32)} {transferred : BitVec 32}
    {payload : List Byte}
    (entered : Server.enter s.server (.dequeue posted lasterr transferred) =
      some (server, task, p))
    (brings : Brings (s.passed posted.record) lasterr transferred payload) :
    Entered s ({ s with server }.complete posted lasterr payload task).1
      ({ s with server }.complete posted lasterr payload task).2
      (handle s.server (.dequeue posted lasterr transferred))
      ⟨.dequeue posted lasterr transferred, payload⟩

theorem enter_cases {s s' : Shared} {l : Local} {p : Call Unit} {e : Event}
    (entered : enter s e = some (s', l, p)) : Entered s s' l p e := by
  obtain ⟨⟨server, task, p'⟩, enters, same⟩ := Option.bind_eq_some_iff.mp entered
  obtain ⟨event, payload⟩ := e
  cases event with
  | accept invalid =>
    cases same
    exact .other enters (by simp)
  | closeClient c =>
    cases same
    exact .other enters (by simp)
  | dequeue posted lasterr transferred =>
    simp only [Option.ite_none_right_eq_some, Option.some.injEq, Prod.mk.injEq] at same
    obtain ⟨brings, rfl, rfl, rfl⟩ := same
    exact .completed enters brings

theorem complete_same (s : Shared) (posted : Posted) (lasterr : Option (BitVec 32))
    (payload : List Byte) (task : Task) :
    (s.complete posted lasterr payload task).1.server = s.server ∧
      (s.complete posted lasterr payload task).2.task = task := by
  simp only [Shared.complete]
  split
  · split <;> exact ⟨rfl, rfl⟩
  · exact ⟨rfl, rfl⟩

theorem note_same (s : Shared) (l : Local) (o : Server.Op) (r : Server.Res o) :
    (s.note l o r).1.server = s.server ∧ (s.note l o r).2.task = l.task := by
  cases o <;> simp only [Shared.note, and_self]
  case post c d pdata =>
    split <;> exact ⟨rfl, rfl⟩

variable {s s' : Shared} {l l' : Local}

theorem step_op {o : Server.Op} {choice : Choice} {r : Server.Res o}
    (performed : step s l (.op o) choice = some (s', l', r)) :
    r = (s.server.perform choice o).2 ∧
      s' = ({ s with server := (s.server.perform choice o).1 }.note
        { l with task := l.task.after o r } o r).1 ∧
      l' = ({ s with server := (s.server.perform choice o).1 }.note
        { l with task := l.task.after o r } o r).2 := by
  simp only [step, Option.some.injEq, Prod.mk.injEq] at performed
  obtain ⟨rfl, rfl, rfl⟩ := performed
  exact ⟨rfl, rfl, rfl⟩

/-- Without the contents, the server is the one of Server.Calls, whatever events it has. -/
theorem erases_to {E : Type} {enter' : Server.Shared → E → _}
    (wider : ∀ s e r, Server.enter s e = some r → ∃ e', enter' s e' = some r) :
    semantics.Erases (⟨enter', Server.step⟩ : Semantics Server.Shared Task _ Server.Res Choice E)
      Shared.server Local.task erased := by
  constructor
  · intro s e s₁ l p entered
    cases enter_cases entered with
    | other enters =>
      obtain ⟨e', enters'⟩ := wider _ _ _ enters
      refine ⟨e', ?_⟩
      rw [handle_erased enters]
      exact enters'
    | completed enters brings =>
      obtain ⟨e', enters'⟩ := wider _ _ _ enters
      refine ⟨e', ?_⟩
      rw [handle_erased enters, (complete_same _ _ _ _ _).1, (complete_same _ _ _ _ _).2]
      exact enters'
  · intro s l op choice s₁ l₁ r performed
    cases op with
    | op o =>
      obtain ⟨rfl, rfl, rfl⟩ := step_op performed
      refine .inr ⟨o, .ret, choice, _, rfl, ?_, rfl⟩
      rw [(note_same _ _ _ _).1, (note_same _ _ _ _).2]
      rfl
    | memset b =>
      cases performed
      exact .inl ⟨rfl, rfl, rfl⟩
    | strcat_s b text =>
      obtain ⟨memory, -, same⟩ := Option.map_eq_some_iff.mp performed
      cases same
      exact .inl ⟨rfl, rfl, rfl⟩

theorem erases : semantics.Erases Server.semantics Shared.server Local.task erased :=
  erases_to fun _ e _ entered => ⟨e, entered⟩

theorem erases_any : semantics.Erases semanticsAny Shared.server Local.task erased :=
  erases_to fun _ e _ entered => ⟨.inl e, entered⟩

end TestIOCP.Server.Contents
