import TestIOCP.Server.Calls

/-! The order in which a call uses a record and its blocks: a record is filled, posted
and inserted, or dequeued, read and released; every block that a call obtains is posted
or released before it ends. The second half holds of the echo server only, whose posts
all have blocks of the cache. -/
namespace TestIOCP.Server
open Transition Program

/-- What a call must have in its hands for an operation. -/
def Needs (l : Task) : Op → Prop
  | .getIOOperData => l.hold = .nothing
  | .memset r => l.hold = .obtained r
  | .store r field => (∃ data, l.hold = .building r data) ∨
    l.hold = .handling r ∧ ∃ i, field = .oper_type i
  | .post _ _ r => ∃ data, l.hold = .building r data
  | .releaseIOOperData r => (∃ data, l.hold = .building r data) ∨ l.hold = .erased r
  | .insert _ _ r => l.hold = .posted r
  | .switch r | .operType r => l.hold = .dequeued r
  | .buf r | .isType r _ | .erase _ _ r | .findErase _ _ r => l.hold = .handling r
  | _ => True

/-- The same for blocks, which a call only handles when it has no record. -/
def Owns (l : Task) : Op → Prop
  | .post _ d _ => ∀ r data, l.hold = .building r data →
    data.oper_type = d.oper_type ∧ data.buf ∈ l.blocks
  | .getMemBlock => l.hold = .nothing
  | .releaseMemBlock b => l.hold = .nothing ∧ b ∈ l.blocks
  | _ => True

/-- What the fields of a dequeued record say as long as no other call has changed it. An
error of the system is not zero. -/
def Reads (l : Task) : (op : Op) → Res op → Prop
  | .post _ _ _, error => error ≠ some 0
  | .switch _, oper_type | .operType _, oper_type => oper_type = 0 ∨ oper_type = 1
  | .buf _, b => l.blocks = [b]
  | _, _ => True

def discipline (echo : Prop) : Discipline Task Op Res where
  pre l op := Needs l op ∧ (echo → Owns l op)
  post l op r l' := l' = l.after op r ∧ (echo → Reads l op r)

/-- A call can end. -/
def Done (echo : Prop) (l : Task) : Prop :=
  l.hold = .nothing ∧ (echo → l.blocks = [])

variable {echo : Prop} {l : Task} {c : Client} {r : Record} {b : Block} {α : Type}

@[simp] theorem discipline_pre (op : Op) :
    (discipline echo).pre l op ↔ Needs l op ∧ (echo → Owns l op) := Iff.rfl

@[simp] theorem discipline_post (op : Op) (res : Res op) (l' : Task) :
    (discipline echo).post l op res l' ↔ l' = l.after op res ∧ (echo → Reads l op res) := Iff.rfl

theorem after_eraseRealClient (l : Task) (c : Client) (num : Nat) :
    (l.after (.eraseRealClient c) num).hold = l.hold ∧
      (l.after (.eraseRealClient c) num).blocks = l.blocks := by
  obtain ⟨closing, same⟩ := l.after_eraseRealClient_same c num
  rw [same]
  exact ⟨rfl, rfl⟩

/-- An operation that a call may do at any time and that leaves its record and blocks. -/
theorem follows_neutral {op : Op} {rest : Res op → Call α} {Q : α → Task → Prop}
    (needs : Needs l op) (owns : Owns l op)
    (same : ∀ res, (l.after op res).hold = l.hold ∧ (l.after op res).blocks = l.blocks)
    (after : ∀ res l', l'.hold = l.hold → l'.blocks = l.blocks →
      (rest res).Follows (discipline echo) l' Q) :
    (call op rest).Follows (discipline echo) l Q := by
  refine ⟨⟨needs, fun _ => owns⟩, ?_⟩
  rintro res _ ⟨rfl, -⟩
  exact after res _ (same res).1 (same res).2

/-- RecvData and SendData before the call of the system. -/
def prepare (d : Direction) (pdatabuf : Block) (length : BitVec 32) : Call Record := do
  let pdata ← perform .getIOOperData
  perform (.memset pdata)
  perform (.store pdata (.oper_type d.oper_type))
  perform (.store pdata (.buf pdatabuf))
  perform (.store pdata (.len length))
  return pdata

/-- The call of the system and what follows it. -/
def submit (d : Direction) (c : Client) (pdata : Record) : Call Int := do
  match ← perform (.post c d pdata) with
  | some err =>
    perform (.releaseIOOperData pdata)
    return -1 * (err : Int)
  | none =>
    perform (.insert c d pdata)
    return 0

theorem transfer_parts (d : Direction) (c : Client) (b : Block) (n : BitVec 32) :
    transfer d c b n = prepare d b n >>= submit d c := rfl

theorem prepare_follows (d : Direction) (b : Block) (n : BitVec 32) (free : l.hold = .nothing) :
    (prepare d b n).Follows (discipline echo) l fun pdata l' =>
      l'.hold = .building pdata ⟨d.oper_type, b, n⟩ ∧ l'.blocks = l.blocks := by
  simp only [prepare, perform, perform_bind]
  refine ⟨⟨free, fun _ => trivial⟩, ?_⟩
  rintro (r : Record) _ ⟨rfl, -⟩
  refine ⟨⟨rfl, fun _ => trivial⟩, ?_⟩
  rintro _ _ ⟨rfl, -⟩
  refine ⟨⟨.inl ⟨_, rfl⟩, fun _ => trivial⟩, ?_⟩
  rintro _ _ ⟨rfl, -⟩
  refine ⟨⟨.inl ⟨_, rfl⟩, fun _ => trivial⟩, ?_⟩
  rintro _ _ ⟨rfl, -⟩
  refine ⟨⟨.inl ⟨_, rfl⟩, fun _ => trivial⟩, ?_⟩
  rintro _ _ ⟨rfl, -⟩
  exact ⟨rfl, rfl⟩

theorem submit_follows (d : Direction) (c : Client) {data : IO_OPER_DATA}
    (building : l.hold = .building r data)
    (own : echo → data.oper_type = d.oper_type ∧ data.buf ∈ l.blocks) :
    (submit d c r).Follows (discipline echo) l fun ret l' => l'.hold = .nothing ∧
      (echo → l'.blocks = if ret < 0 then l.blocks else l.blocks.erase data.buf) := by
  refine ⟨⟨⟨data, building⟩, ?_⟩, ?_⟩
  · intro echoes _ data' at_
    rw [building] at at_
    cases at_
    exact own echoes
  · rintro (_ | (err : Nat)) _ ⟨rfl, reads⟩
    · have posted : (l.after (.post c d r) none).hold = .posted r := by
        simp [Task.after, building]
      refine ⟨⟨posted, fun _ => trivial⟩, ?_⟩
      rintro _ _ ⟨rfl, -⟩
      exact ⟨rfl, fun _ => by simp [Task.after, building]⟩
    · refine ⟨⟨.inl ⟨data, building⟩, fun _ => trivial⟩, ?_⟩
      rintro _ _ ⟨rfl, -⟩
      refine ⟨rfl, fun echoes => ?_⟩
      have positive : err ≠ 0 := by simpa [Reads] using reads echoes
      have negative : -1 * (err : Int) < 0 := by omega
      rw [if_pos negative]
      rfl

theorem transfer_follows (d : Direction) (c : Client) (b : Block) (n : BitVec 32)
    (free : l.hold = .nothing) (own : echo → b ∈ l.blocks) :
    (transfer d c b n).Follows (discipline echo) l (fun ret l' => l'.hold = .nothing ∧
      (echo → l'.blocks = if ret < 0 then l.blocks else l.blocks.erase b)) := by
  rw [transfer_parts]
  apply Follows.bind
  apply (prepare_follows d b n free).mono
  rintro r l' ⟨building, blocks⟩
  rw [← blocks] at own ⊢
  exact submit_follows d c building fun echoes => ⟨rfl, own echoes⟩

theorem releaseListed_follows (d : Direction) (c : Client) (at_ : l.hold = .handling r) :
    (releaseListed d c r).Follows (discipline echo) l
      (fun _ l' => l'.hold = .nothing ∧ l'.blocks = l.blocks) := by
  simp only [releaseListed, perform, perform_bind]
  refine follows_neutral (.inr ⟨at_, _, rfl⟩) trivial (fun _ => by simp [Task.after, at_]) ?_
  intro _ l' hold blocks
  refine ⟨⟨hold.trans at_, fun _ => trivial⟩, ?_⟩
  rintro (_ | _) _ ⟨rfl, -⟩
  · exact ⟨rfl, blocks⟩
  · refine ⟨⟨.inr rfl, fun _ => trivial⟩, ?_⟩
    rintro _ _ ⟨rfl, -⟩
    exact ⟨rfl, blocks⟩

theorem releaseOperData_follows (c : Client) (at_ : l.hold = .handling r) :
    (releaseOperData c r).Follows (discipline echo) l
      (fun _ l' => l'.hold = .nothing ∧ l'.blocks = l.blocks) := by
  simp only [releaseOperData, perform, perform_bind]
  refine follows_neutral at_ trivial (fun _ => ⟨rfl, rfl⟩) fun reading l' hold blocks => ?_
  have at_' := hold.trans at_
  split
  · refine Follows.bind ((releaseListed_follows .recv c at_').mono ?_)
    exact fun _ _ done => ⟨done.1, done.2.trans blocks⟩
  · refine follows_neutral at_' trivial (fun _ => ⟨rfl, rfl⟩) fun writing l'' hold' blocks' => ?_
    have at_'' := hold'.trans at_'
    have same := blocks'.trans blocks
    split
    · refine Follows.bind ((releaseListed_follows .send c at_'').mono ?_)
      exact fun _ _ done => ⟨done.1, done.2.trans same⟩
    · refine ⟨⟨at_'', fun _ => trivial⟩, ?_⟩
      rintro (_ | _) _ ⟨rfl, -⟩
      · refine ⟨⟨at_'', fun _ => trivial⟩, ?_⟩
        rintro found _ ⟨rfl, -⟩
        simpa [Task.after] using same
      · exact ⟨rfl, same⟩

theorem removeRealClient_follows (c : Client) :
    (removeRealClient c).Follows (discipline echo) l
      (fun _ l' => l'.hold = l.hold ∧ l'.blocks = l.blocks) := by
  simp only [removeRealClient, closeStub, perform, perform_bind]
  refine follows_neutral trivial trivial (after_eraseRealClient l c) fun (num : Nat) l₁
    hold₁ blocks₁ => ?_
  split
  · exact ⟨hold₁, blocks₁⟩
  · refine follows_neutral trivial trivial (fun _ => ⟨rfl, rfl⟩) fun _ l₂ hold₂ blocks₂ => ?_
    refine follows_neutral trivial trivial (fun _ => ⟨rfl, rfl⟩) fun _ l₃ hold₃ blocks₃ => ?_
    refine follows_neutral trivial trivial (fun _ => ⟨rfl, rfl⟩) fun _ l₄ hold₄ blocks₄ => ?_
    refine follows_neutral trivial trivial (fun _ => ⟨rfl, rfl⟩) fun _ l₅ hold₅ blocks₅ => ?_
    exact ⟨by rw [hold₅, hold₄, hold₃, hold₂, hold₁], by rw [blocks₅, blocks₄, blocks₃,
      blocks₂, blocks₁]⟩

theorem closeClient_follows (c : Client) :
    (closeClient c).Follows (discipline echo) l
      (fun _ l' => l'.hold = l.hold ∧ l'.blocks = l.blocks) :=
  Follows.bind (removeRealClient_follows c)

/-- ReleaseMemBlock, as the last thing that a call does. -/
theorem releaseMemBlock_follows {a : α} (free : l.hold = .nothing) (own : echo → l.blocks = [b]) :
    (call (.releaseMemBlock b) fun _ => ret a : Call α).Follows (discipline echo) l
      (fun _ => Done echo) := by
  refine ⟨⟨trivial, fun echoes => ⟨free, by simp [own echoes]⟩⟩, ?_⟩
  rintro _ _ ⟨rfl, -⟩
  exact ⟨free, fun echoes => by simp [Task.after, own echoes]⟩

/-- A block is obtained for a read, and released if the read is not posted. -/
theorem clientStatusNotify_follows (c : Client) (done : Done echo l) :
    (clientStatusNotify c).Follows (discipline echo) l (fun _ => Done echo) := by
  simp only [clientStatusNotify, recvData, perform, perform_bind]
  refine ⟨⟨trivial, fun _ => done.1⟩, ?_⟩
  rintro (b : Block) _ ⟨rfl, -⟩
  have free : (l.after .getMemBlock b).hold = .nothing := done.1
  refine Follows.bind ((transfer_follows .recv c b 4096 free fun _ => List.mem_cons_self).mono ?_)
  rintro ret l' ⟨free, blocks⟩
  have own (echoes : echo) : l'.blocks = if ret < 0 then [b] else [] := by
    simp [blocks echoes, Task.after, done.2 echoes]
  split
  · rename_i failed
    simp only [if_pos failed] at own
    refine Follows.bind ((closeClient_follows c).mono ?_)
    rintro _ _ ⟨hold, blocks⟩
    exact releaseMemBlock_follows (hold.trans free) fun echoes => blocks.trans (own echoes)
  · rename_i posted
    simp only [if_neg posted] at own
    exact ⟨free, own⟩

theorem reply_follows (c : Client) (n : BitVec 32) (free : l.hold = .nothing)
    (own : echo → l.blocks = [b]) :
    (reply c b n).Follows (discipline echo) l (fun _ => Done echo) := by
  simp only [reply, sendData, perform]
  refine Follows.bind
    ((transfer_follows .send c b _ free fun echoes => by simp [own echoes]).mono ?_)
  rintro ret l' ⟨free, blocks⟩
  have own' (echoes : echo) : l'.blocks = if ret < 0 then [b] else [] := by
    simp [blocks echoes, own echoes]
  split
  · rename_i failed
    simp only [if_pos failed] at own'
    refine Follows.bind ((closeClient_follows c).mono ?_)
    rintro _ _ ⟨hold, blocks⟩
    exact releaseMemBlock_follows (a := ()) (hold.trans free) fun echoes =>
      blocks.trans (own' echoes)
  · rename_i posted
    simp only [if_neg posted] at own'
    exact ⟨free, own'⟩

/-- A block is released and the client closed, as OperateNotify does in its branches. -/
theorem release_follows (c : Client) (free : l.hold = .nothing) (own : echo → l.blocks = [b]) :
    (do perform (.releaseMemBlock b); let _ ← closeClient c; return 0 : Call Int).Follows
      (discipline echo) l (fun _ => Done echo) := by
  simp only [perform, perform_bind]
  refine ⟨⟨trivial, fun echoes => ⟨free, by simp [own echoes]⟩⟩, ?_⟩
  rintro _ _ ⟨rfl, -⟩
  refine Follows.bind ((closeClient_follows c).mono ?_)
  rintro _ _ ⟨hold, blocks⟩
  exact ⟨hold.trans free, fun echoes => by simp [blocks, Task.after, own echoes]⟩

theorem operateNotify_follows (opertype : Int) (c : Client) (ret_code n : BitVec 32)
    (free : l.hold = .nothing) (own : echo → l.blocks = [b])
    (type : echo → opertype = 0 ∨ opertype = 1) :
    (operateNotify opertype c ret_code b n).Follows (discipline echo) l (fun _ => Done echo) := by
  simp only [operateNotify]
  split
  · exact release_follows c free own
  split
  · split
    · refine Follows.bind ((reply_follows c n free own).mono fun _ _ done => ?_)
      exact Follows.bind ((clientStatusNotify_follows c done).mono fun _ _ done => done)
    · exact release_follows c free own
  · rename_i unread
    split
    · split
      · refine Follows.bind ((closeClient_follows c).mono ?_)
        rintro _ _ ⟨hold, blocks⟩
        exact releaseMemBlock_follows (hold.trans free) fun echoes => blocks.trans (own echoes)
      · exact releaseMemBlock_follows free own
    · rename_i unsent
      exact ⟨free, fun echoes => absurd (type echoes) (by simp [unread, unsent])⟩

theorem notify_follows (c : Client) (r : Record) (ret_code transferred : BitVec 32)
    (at_ : l.hold = .dequeued r) :
    (notify c r ret_code transferred).Follows (discipline echo) l (fun _ => Done echo) := by
  simp only [notify, perform, perform_bind]
  refine ⟨⟨at_, fun _ => trivial⟩, ?_⟩
  rintro (oper_type : Int) _ ⟨rfl, type⟩
  refine ⟨⟨rfl, fun _ => trivial⟩, ?_⟩
  rintro (b : Block) _ ⟨rfl, blocks⟩
  refine Follows.bind ((releaseOperData_follows c rfl).mono ?_)
  rintro _ l' ⟨free, same⟩
  refine Follows.bind ((operateNotify_follows oper_type c ret_code transferred free ?_ type).mono
    fun _ _ done => done)
  exact fun echoes => same.trans (blocks echoes)

theorem workThread_follows (lasterr : Option (BitVec 32)) (c : Client) (r : Record)
    (transferred : BitVec 32) (at_ : l.hold = .dequeued r) :
    (workThread lasterr c r transferred).Follows (discipline echo) l (fun _ => Done echo) := by
  cases lasterr with
  | some lasterr => exact notify_follows c r lasterr transferred at_
  | none =>
    simp only [workThread, perform, perform_bind]
    refine ⟨⟨at_, fun _ => trivial⟩, ?_⟩
    rintro (oper_type : Int) _ ⟨rfl, type⟩
    dsimp only
    split
    · rename_i known
      refine notify_follows c r 0 transferred ?_
      simp [Task.after, known, at_]
    · rename_i unknown
      exact ⟨by simp [Task.after, unknown], fun echoes => absurd (type echoes) unknown⟩

theorem acceptThread_follows (sAccept : Option Sock) (done : Done echo l) :
    (acceptThread sAccept).Follows (discipline echo) l (fun _ => Done echo) := by
  simp only [acceptThread, perform, perform_bind]
  refine ⟨⟨trivial, fun _ => trivial⟩, ?_⟩
  rintro (c : Client) _ ⟨rfl, -⟩
  refine follows_neutral trivial trivial (fun _ => ⟨rfl, rfl⟩) fun _ l₁ hold₁ blocks₁ => ?_
  refine follows_neutral trivial trivial (fun _ => ⟨rfl, rfl⟩) fun _ l₂ hold₂ blocks₂ => ?_
  refine follows_neutral trivial trivial (fun _ => ⟨rfl, rfl⟩) fun ok l₃ hold₃ blocks₃ => ?_
  have done' : Done echo l₃ := by
    refine ⟨?_, fun echoes => ?_⟩
    · rw [hold₃, hold₂, hold₁]
      exact done.1
    · rw [blocks₃, blocks₂, blocks₁]
      exact done.2 echoes
  split
  · exact Follows.bind ((clientStatusNotify_follows c done').mono fun _ _ done => done)
  · refine Follows.bind ((removeRealClient_follows c).mono ?_)
    rintro _ _ ⟨hold, blocks⟩
    exact ⟨hold.trans done'.1, fun echoes => blocks.trans (done'.2 echoes)⟩

/-- What an event starts follows the discipline. -/
theorem enter_follows {s s' : Shared} {e : Event} {p : Call Unit}
    (entered : enter s e = some (s', l, p)) :
    p.Follows (discipline echo) l (fun _ => Done echo) := by
  cases enter_cases entered with
  | invalid | accepted => exact acceptThread_follows _ ⟨rfl, fun _ => rfl⟩
  | dequeued lasterr transferred => exact workThread_follows _ _ _ _ rfl
  | closed =>
    exact Follows.bind ((closeClient_follows _).mono fun _ _ same => ⟨same.1, fun _ => same.2⟩)

end TestIOCP.Server
