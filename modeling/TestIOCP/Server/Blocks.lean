import TestIOCP.Server.Records
import TestIOCP.Serial

/-! The blocks of CMemCache. A block is in the cache, in the hands of a call or under one
posted operation; it goes with the record of the operation, whose fields must not be
changed before WorkThread has read them. -/
namespace TestIOCP.Server
open Transition Program

inductive BlockPlace (T : Type) where
  | cache
  | call (t : T)
  | posted (r : Record)

variable {T : Type}

def BlockAt (s : Shared) (own : T → Task) : BlockPlace T → Block → Prop
  | .cache, b => b ∈ s.memory.free
  | .call t, b => b ∈ (own t).blocks
  | .posted r, b => r ∈ s.pending.map Posted.record ∧ (s.records r).buf = b

/-- A block that was allocated. -/
def Shared.Block (s : Shared) (b : Block) : Prop :=
  NULL < b ∧ b < s.memory.allocated

/-- Every block is in one place. -/
structure Banked (s : Shared) (own : T → Task) : Prop where
  place : Accounted (BlockAt s own) s.Block
  positive : NULL < s.memory.allocated
  cacheOnce : s.memory.free.Nodup
  ownOnce : ∀ t, (own t).blocks.Nodup

/-- What a call knows of the fields of its record. -/
structure Task.Agrees (l : Task) (records : Record → IO_OPER_DATA) : Prop where
  building : ∀ r data, l.hold = .building r data → records r = data
  dequeued : ∀ r, l.hold = .dequeued r → (records r).oper_type = 0 ∨ (records r).oper_type = 1
  block : ∀ r, l.hold = .dequeued r ∨ l.hold = .handling r → l.blocks = [(records r).buf]

/-- The fields of a record with an operation are those that it was posted with. -/
structure Fields (s : Shared) (own : T → Task) : Prop where
  pending : ∀ p ∈ s.pending, (s.records p.record).oper_type = 0 ∨ (s.records p.record).oper_type = 1
  agrees : ∀ t, (own t).Agrees s.records

/-- Before WorkThread has read the type of a record, the record is not drained. -/
def Prompt (s : Shared) (own : T → Task) (t : T) (op : Op) (choice : Choice) : Prop :=
  Orderly s own t op choice ∧ match op with
    | .drain c d => ∀ r ∈ (s.clients c).list d, ∀ t, (own t).hold ≠ .dequeued r
    | _ => True

/-- The record whose fields a call relies on. -/
def Hold.uses : Hold → Option Record
  | .building r _ | .dequeued r | .handling r => some r
  | _ => none

/-- The record that only a call may write. -/
def Hold.writes (h : Hold) (r : Record) : Prop :=
  h.unposted = some r ∨ h.token = some r

variable {s s' : Shared} {own : T → Task} {t u : T} {l : Task} {r : Record} {b : Block}

namespace Inv

theorem writes_of_uses {h : Hold} (uses : h.uses = some r) : h.writes r := by
  cases h with
  | building => exact .inl uses
  | dequeued => exact .inr uses
  | handling => exact .inr uses
  | _ => simp [Hold.uses] at uses

/-- No other call relies on the record that a call writes. -/
theorem exclusive (inv : Inv s own) (writes : (own t).hold.writes r) (other : u ≠ t) :
    (own u).hold.uses ≠ some r := by
  intro uses
  rcases writes with unposted | token <;> rcases writes_of_uses uses with unposted' | token'
  · have here : RecordAt s own (.call t) r := Hold.body_of_unposted unposted
    have there : RecordAt s own (.call u) r := Hold.body_of_unposted unposted'
    exact inv.lodged.place.elsewhere here (by simpa using other) there
  · exact inv.outstanding.takenBusy u t r token' unposted
  · exact inv.outstanding.takenBusy t u r token unposted'
  · exact other (inv.outstanding.takenOnce u t r token' token)

theorem unposted_unpending (inv : Inv s own) (writes : (own t).hold.writes r) :
    ∀ p ∈ s.pending, p.record ≠ r := by
  rintro p inside rfl
  rcases writes with unposted | token
  · exact (inv.outstanding.pendingBusy p inside).2 t unposted
  · exact inv.outstanding.taken t _ token p inside rfl

end Inv

namespace Task.Agrees

theorem congr {records records' : Record → IO_OPER_DATA} (agrees : l.Agrees records)
    (same : ∀ r, l.hold.uses = some r → records' r = records r) : l.Agrees records' := by
  constructor
  · intro r data at_
    rw [same r (by rw [at_]; rfl)]
    exact agrees.building r data at_
  · intro r at_
    rw [same r (by rw [at_]; rfl)]
    exact agrees.dequeued r at_
  · intro r at_
    rw [same r (by rcases at_ with at_ | at_ <;> rw [at_] <;> rfl)]
    exact agrees.block r at_

theorem same {l' : Task} {records : Record → IO_OPER_DATA} (agrees : l.Agrees records)
    (hold : l'.hold = l.hold) (blocks : l'.blocks = l.blocks) : l'.Agrees records :=
  ⟨hold ▸ agrees.building, hold ▸ agrees.dequeued, hold ▸ blocks ▸ agrees.block⟩

/-- A call without a record knows nothing. -/
theorem trivially {records : Record → IO_OPER_DATA} (uses : l.hold.uses = none) :
    l.Agrees records := by
  constructor
  · intro r data at_
    simp [at_, Hold.uses] at uses
  · intro r at_
    simp [at_, Hold.uses] at uses
  · rintro r (at_ | at_) <;> simp [at_, Hold.uses] at uses

theorem of_building {records : Record → IO_OPER_DATA} (at_ : l.hold = .building r data)
    (same : records r = data) : l.Agrees records := by
  constructor
  · intro r' data' at_'
    cases at_.symm.trans at_'
    exact same
  · intro r' at_'
    cases at_.symm.trans at_'
  · rintro r' (at_' | at_') <;> cases at_.symm.trans at_'

theorem of_handling {records : Record → IO_OPER_DATA} (at_ : l.hold = .handling r)
    (block : l.blocks = [(records r).buf]) : l.Agrees records := by
  constructor
  · intro r' data' at_'
    cases at_.symm.trans at_'
  · intro r' at_'
    cases at_.symm.trans at_'
  · rintro r' (at_' | at_') <;> cases at_.symm.trans at_'
    exact block

end Task.Agrees

variable [DecidableEq T]

namespace Fields

/-- A step that writes no record. -/
theorem congr (inv : Fields s own) (records : s'.records = s.records)
    (pending : ∀ p ∈ s'.pending, p ∈ s.pending) (agrees : l.Agrees s.records) :
    Fields s' (Function.update own t l) := by
  refine ⟨fun p inside => records ▸ inv.pending p (pending p inside), fun u => ?_⟩
  rw [records]
  by_cases same : u = t
  · subst same
    simpa using agrees
  · simpa [same] using inv.agrees u

/-- A call writes the record that it has. -/
theorem write (inv : Fields s own) (records_ : Inv s own) (writes : (own t).hold.writes r)
    (pending : s'.pending = s.pending) (others : ∀ x, x ≠ r → s'.records x = s.records x)
    (agrees : l.Agrees s'.records) : Fields s' (Function.update own t l) := by
  refine ⟨fun p inside => ?_, fun u => ?_⟩
  · rw [pending] at inside
    rw [others _ (records_.unposted_unpending writes p inside)]
    exact inv.pending p inside
  · by_cases same : u = t
    · subst same
      simpa using agrees
    · rw [Function.update_of_ne same]
      refine (inv.agrees u).congr fun x uses => others x ?_
      rintro rfl
      exact records_.exclusive writes same uses

end Fields

namespace Banked

/-- A step that neither moves a block nor changes the buffer of a pending operation. -/
theorem congr (inv : Banked s own) (memory : s'.memory = s.memory)
    (pending : s'.pending = s.pending)
    (records : ∀ p ∈ s.pending, (s'.records p.record).buf = (s.records p.record).buf)
    (blocks : l.blocks = (own t).blocks) : Banked s' (Function.update own t l) := by
  have blocks' (u : T) : ((Function.update own t l) u).blocks = (own u).blocks := by
    by_cases same : u = t
    · subst same
      simpa using blocks
    · simp [same]
  refine ⟨?_, memory ▸ inv.positive, memory ▸ inv.cacheOnce, fun u => blocks' u ▸ inv.ownOnce u⟩
  have live : s'.Block = s.Block := by
    funext b
    simp [Shared.Block, memory]
  rw [live]
  refine inv.place.congr ?_
  intro q b
  cases q with
  | cache => simp [BlockAt, memory]
  | call u => simp [BlockAt, blocks']
  | posted r =>
    simp only [BlockAt, pending]
    refine and_congr_right fun inside => ?_
    obtain ⟨p, member, rfl⟩ := List.mem_map.mp inside
    rw [records p member]

/-- GetMemBlock. -/
theorem take (inv : Banked s own) (pool : s.memory.Taken b memory)
    (blocks : l.blocks = b :: (own t).blocks) :
    Banked { s with memory } (Function.update own t l) := by
  have fresh : ¬ BlockAt s own (.call t) b := by
    intro here
    rcases pool.source with cached | new
    · have there : BlockAt s own .cache b := cached
      exact inv.place.elsewhere here (by simp) there
    · exact Nat.not_le_of_gt (inv.place.known _ b here).2 new.1
  have grown := pool.grown
  have positive := inv.positive
  refine ⟨?_, Nat.lt_of_lt_of_le positive grown, pool.once, fun u => ?_⟩
  · refine inv.place.take (f := .cache) (q := .call t) pool (fun _ => Iff.rfl) (fun _ => And.right)
      ?_ (fun _ => Iff.rfl) ?_ ?_ (by simp)
    · intro x
      change NULL < x ∧ x < memory.allocated ↔ (NULL < x ∧ x < s.memory.allocated) ∨ _
      omega
    · intro x
      simp [BlockAt, blocks]
    · intro o x atCache atCall
      cases o with
      | cache => exact absurd rfl atCache
      | call u =>
        have other : u ≠ t := fun same => atCall (same ▸ rfl)
        simp [BlockAt, other]
      | posted r => rfl
  · by_cases same : u = t
    · subst same
      simp only [Function.update_self, blocks]
      exact List.nodup_cons.mpr ⟨fresh, inv.ownOnce u⟩
    · simpa [same] using inv.ownOnce u

/-- ReleaseMemBlock. -/
theorem give (inv : Banked s own) (has : b ∈ (own t).blocks)
    (blocks : l.blocks = (own t).blocks.erase b) :
    Banked { s with memory := s.memory.give [b] } (Function.update own t l) := by
  have here : BlockAt s own (.call t) b := has
  refine ⟨?_, inv.positive, Pool.give_once inv.cacheOnce (by simp) ?_, fun u => ?_⟩
  · refine inv.place.give (f := .cache) (g := [b]) (fun _ => Iff.rfl) ?_ (fun _ => Iff.rfl) ?_
    · intro x given
      obtain rfl := List.mem_singleton.mp given
      exact inv.place.known _ x here
    · intro o x atCache
      have other := fun at_ => inv.place.apart (q := o) (x := x) here at_
      cases o with
      | cache => exact absurd rfl atCache
      | call u =>
        by_cases same : u = t
        · subst same
          simp [BlockAt, blocks, (inv.ownOnce u).mem_erase_iff]
        · simpa [BlockAt, same] using fun at_ => other at_ (by simpa using same)
      | posted r =>
        simpa [BlockAt] using fun p inside same at_ =>
          other ⟨by simpa using ⟨p, inside, same⟩, at_⟩ (by simp)
  · have away : ¬ BlockAt s own .cache b := inv.place.elsewhere here (by simp)
    simpa [BlockAt] using away
  · by_cases same : u = t
    · subst same
      simpa [blocks] using (inv.ownOnce u).erase b
    · simpa [same] using inv.ownOnce u

/-- An accepted post takes the block of its record from the call. -/
theorem post (inv : Banked s own) (p : Posted) (fresh : ∀ q ∈ s.pending, q.record ≠ p.record)
    (has : (s.records p.record).buf ∈ (own t).blocks)
    (blocks : l.blocks = (own t).blocks.erase (s.records p.record).buf) :
    Banked { s with pending := p :: s.pending } (Function.update own t l) := by
  have here : BlockAt s own (.call t) (s.records p.record).buf := has
  refine ⟨?_, inv.positive, inv.cacheOnce, fun u => ?_⟩
  · refine inv.place.move (p := .posted p.record) (inv.place.known _ _ here) ?_
    intro q x
    have other := fun at_ => inv.place.apart (q := q) (x := x) here at_
    cases q with
    | cache => simpa [BlockAt] using fun at_ => other at_ (by simp)
    | call u =>
      by_cases same : u = t
      · subst same
        simp [BlockAt, blocks, (inv.ownOnce u).mem_erase_iff]
      · simpa [BlockAt, same] using fun at_ => other at_ (by simpa using same)
    | posted r =>
      by_cases same : r = p.record
      · subst same
        have none : p.record ∉ s.pending.map Posted.record := by
          simpa [List.mem_map] using fresh
        simp [BlockAt, none, eq_comm]
      · have apart : BlockAt s own (.posted r) x → x ≠ (s.records p.record).buf :=
          fun at_ => other at_ (by simp)
        simp only [BlockAt, List.map_cons, List.mem_cons, same, false_or, BlockPlace.posted.injEq,
          and_false] at apart ⊢
        exact ⟨fun at_ => ⟨apart at_, at_⟩, And.right⟩
  · by_cases same : u = t
    · subst same
      simpa [blocks] using (inv.ownOnce u).erase _
    · simpa [same] using inv.ownOnce u

/-- A dequeued completion gives the call the block of its record. -/
theorem dequeue (inv : Banked s own) {p : Posted} (once : (s.pending.map Posted.record).Nodup)
    (inside : p ∈ s.pending) (none : (own t).blocks = [])
    (blocks : l.blocks = [(s.records p.record).buf]) :
    Banked { s with pending := s.pending.erase p } (Function.update own t l) := by
  have here : BlockAt s own (.posted p.record) (s.records p.record).buf :=
    ⟨List.mem_map_of_mem inside, rfl⟩
  refine ⟨?_, inv.positive, inv.cacheOnce, fun u => ?_⟩
  · refine inv.place.move (p := .call t) (inv.place.known _ _ here) ?_
    intro q x
    have other := fun at_ => inv.place.apart (q := q) (x := x) here at_
    cases q with
    | cache => simpa [BlockAt] using fun at_ => other at_ (by simp)
    | call u =>
      by_cases same : u = t
      · subst same
        simp [BlockAt, blocks, none]
      · simpa [BlockAt, same] using fun at_ => other at_ (by simp)
    | posted r =>
      simp only [BlockAt, mem_map_erase once inside, and_false, false_or, reduceCtorEq]
      constructor
      · rintro ⟨⟨apart, listed⟩, same⟩
        refine ⟨?_, listed, same⟩
        exact other ⟨listed, same⟩ (by simpa using apart)
      · rintro ⟨apart, listed, same⟩
        refine ⟨⟨?_, listed⟩, same⟩
        rintro rfl
        exact apart same.symm
  · by_cases same : u = t
    · subst same
      simp [blocks]
    · simpa [same] using inv.ownOnce u

end Banked

structure Accounts (s : Shared) (own : T → Task) : Prop where
  records : Inv s own
  banked : Banked s own
  fields : Fields s own

@[simp] theorem write_other (s : Shared) (f : IO_OPER_DATA → IO_OPER_DATA) (other : x ≠ r) :
    (s.write r f).records x = s.records x := by
  simp [Shared.write, other]

@[simp] theorem write_self (s : Shared) (f : IO_OPER_DATA → IO_OPER_DATA) :
    (s.write r f).records r = f (s.records r) := by
  simp [Shared.write]

namespace Accounts

/-- A step that neither moves a block nor writes a record. -/
theorem neutral (inv : Accounts s own) (memory : s'.memory = s.memory)
    (pending : s'.pending = s.pending) (records : s'.records = s.records)
    (blocks : l.blocks = (own t).blocks) (agrees : l.Agrees s.records) :
    Banked s' (Function.update own t l) ∧ Fields s' (Function.update own t l) :=
  ⟨inv.banked.congr memory pending (fun _ _ => by rw [records]) blocks,
    inv.fields.congr records (fun _ inside => pending ▸ inside) agrees⟩

/-- A call writes the record that it has. -/
theorem write (inv : Accounts s own) (writes : (own t).hold.writes r)
    (memory : s'.memory = s.memory)
    (pending : s'.pending = s.pending) (others : ∀ x, x ≠ r → s'.records x = s.records x)
    (blocks : l.blocks = (own t).blocks) (agrees : l.Agrees s'.records) :
    Banked s' (Function.update own t l) ∧ Fields s' (Function.update own t l) := by
  refine ⟨inv.banked.congr memory pending (fun p inside => ?_) blocks,
    inv.fields.write inv.records writes pending others agrees⟩
  rw [others _ (inv.records.unposted_unpending writes p inside)]

theorem post (inv : Accounts s own) {p : Posted} {d : Direction}
    (at_ : (own t).hold = .building p.record data) (type : data.oper_type = d.oper_type)
    (has : data.buf ∈ (own t).blocks) (after : l.hold = .posted p.record)
    (blocks : l.blocks = (own t).blocks.erase data.buf) :
    Banked { s with pending := p :: s.pending } (Function.update own t l) ∧
      Fields { s with pending := p :: s.pending } (Function.update own t l) := by
  have data_ : s.records p.record = data := (inv.fields.agrees t).building _ _ at_
  constructor
  · exact inv.banked.post p (inv.records.unpending (.inl ⟨_, at_⟩)) (data_ ▸ has) (data_ ▸ blocks)
  · refine ⟨List.forall_mem_cons.mpr ⟨?_, inv.fields.pending⟩, fun u => ?_⟩
    · change (s.records p.record).oper_type = 0 ∨ (s.records p.record).oper_type = 1
      rw [data_, type]
      cases d
      · exact .inl rfl
      · exact .inr rfl
    · by_cases same : u = t
      · subst same
        rw [Function.update_self]
        exact .trivially (by rw [after]; rfl)
      · simpa [same] using inv.fields.agrees u

theorem drain (inv : Accounts s own) {c : Client} {d : Direction}
    (pending : ∀ r ∈ (s.clients c).list d, ∀ p ∈ s.pending, p.record ≠ r)
    (read : ∀ r ∈ (s.clients c).list d, ∀ t, (own t).hold ≠ .dequeued r)
    (memory : s'.memory = s.memory) (pending_ : s'.pending = s.pending)
    (records : ∀ r, s'.records r = if r ∈ (s.clients c).list d then
      (s.records r).assign (.oper_type (-1)) else s.records r) :
    Banked s' (Function.update own t (own t)) ∧ Fields s' (Function.update own t (own t)) := by
  have spared : ∀ p ∈ s.pending, s'.records p.record = s.records p.record := by
    intro p inside
    rw [records, if_neg fun listed => pending _ listed p inside rfl]
  have buf (r : Record) : (s'.records r).buf = (s.records r).buf := by
    rw [records]
    split <;> rfl
  refine ⟨inv.banked.congr memory pending_ (fun p _ => buf _) rfl, ?_⟩
  rw [Function.update_eq_self]
  refine ⟨fun p inside => ?_, fun u => ?_⟩
  · rw [pending_] at inside
    rw [spared p inside]
    exact inv.fields.pending p inside
  · have agrees := inv.fields.agrees u
    constructor
    · intro r data at_
      have here : RecordAt s own (.call u) r := by simp [RecordAt, at_, Hold.body]
      have away : ¬ RecordAt s own (.listed c d) r :=
        inv.records.lodged.place.elsewhere here (by simp)
      rw [records, if_neg (show r ∉ (s.clients c).list d from away)]
      exact agrees.building r data at_
    · intro r at_
      rw [records, if_neg fun listed => read r listed u at_]
      exact agrees.dequeued r at_
    · intro r at_
      rw [buf]
      exact agrees.block r at_

theorem step (inv : Accounts s own) {op : Op} {choice : Choice} (needs : Needs (own t) op)
    (owns : Owns (own t) op) (prompt : Prompt s own t op choice) :
    (Banked (s.perform choice op).1
        (Function.update own t ((own t).after op (s.perform choice op).2)) ∧
      Fields (s.perform choice op).1
        (Function.update own t ((own t).after op (s.perform choice op).2))) ∧
      Reads (own t) op (s.perform choice op).2 := by
  have agrees := inv.fields.agrees t
  cases op with
  | getIOOperData => exact ⟨inv.neutral rfl rfl rfl rfl (.trivially rfl), trivial⟩
  | releaseIOOperData r => exact ⟨inv.neutral rfl rfl rfl rfl (.trivially rfl), trivial⟩
  | memset r =>
    have at_ : (own t).hold = .obtained r := needs
    refine ⟨inv.write (r := r) (.inl (by rw [at_]; rfl)) rfl rfl (fun x other => ?_) rfl ?_,
      trivial⟩
    · exact write_other s (fun _ => .zero) other
    · exact .of_building rfl (write_self s fun _ => .zero)
  | store r field =>
    refine ⟨?_, trivial⟩
    rcases needs with ⟨data, at_⟩ | ⟨at_, i, rfl⟩
    · refine inv.write (r := r) (.inl (by rw [at_]; rfl)) rfl rfl (fun x other => ?_) ?_ ?_
      · exact write_other s (·.assign field) other
      · simp [Task.after, at_]
      · have at_' : ((own t).after (.store r field) ()).hold = .building r (data.assign field) := by
          simp [Task.after, at_]
        refine .of_building at_' ?_
        exact (write_self s (·.assign field)).trans (by rw [agrees.building r data at_])
    · refine inv.write (r := r) (.inr (by rw [at_]; rfl)) rfl rfl (fun x other => ?_) ?_ ?_
      · exact write_other s (·.assign (.oper_type i)) other
      · simp [Task.after, at_]
      · refine .of_handling (r := r) (by simp [Task.after, at_]) ?_
        have buf : ((s.write r (·.assign (.oper_type i))).records r).buf = (s.records r).buf := by
          rw [write_self]
          rfl
        simp only [Task.after, at_, Shared.perform, buf]
        exact agrees.block r (.inr at_)
  | post c d r =>
    obtain ⟨data, at_⟩ := needs
    obtain ⟨type, has⟩ := owns r data at_
    simp only [Shared.perform]
    split
    · exact ⟨inv.neutral rfl rfl rfl rfl agrees, by simp [Reads, WSAENOTSOCK]⟩
    · split
      · exact ⟨inv.neutral rfl rfl rfl rfl agrees, by simp [Reads, WSAENOTSOCK]⟩
      · split
        · exact ⟨inv.neutral rfl rfl rfl rfl agrees, by simp [Reads]⟩
        · refine ⟨inv.post (p := ⟨r, _, c, s.connection c⟩) at_ type has ?_ ?_, by simp [Reads]⟩
          · simp [Task.after, at_]
          · simp [Task.after, at_]
  | insert c d r => exact ⟨inv.neutral rfl rfl rfl rfl (.trivially rfl), trivial⟩
  | switch r =>
    have type := agrees.dequeued r needs
    refine ⟨?_, type⟩
    have same : (own t).after (.switch r) (s.perform choice (.switch r)).2 = own t := if_pos type
    rw [same]
    exact inv.neutral rfl rfl rfl rfl agrees
  | operType r =>
    refine ⟨inv.neutral rfl rfl rfl rfl ?_, agrees.dequeued r needs⟩
    exact .of_handling rfl (agrees.block r (.inl needs))
  | buf r => exact ⟨inv.neutral rfl rfl rfl rfl agrees, agrees.block r (.inr needs)⟩
  | erase c d r =>
    refine ⟨inv.neutral rfl rfl rfl rfl (.trivially ?_), trivial⟩
    change (if decide (r ∈ (s.clients c).list d) then Hold.erased r else Hold.nothing).uses = none
    split <;> rfl
  | findErase c d r =>
    refine ⟨?_, trivial⟩
    have at_ : (own t).hold = .handling r := needs
    simp only [Shared.perform]
    split
    · refine inv.write (r := r) (.inr (by rw [at_]; rfl)) rfl rfl (fun x other => ?_) ?_ ?_
      · exact write_other (s.setList c d _) (·.assign (.oper_type (-1))) other
      · simp [Task.after]
      · exact .trivially (by simp [Task.after, Hold.uses])
    · cases d with
      | recv => exact inv.neutral rfl rfl rfl rfl agrees
      | send => exact inv.neutral rfl rfl rfl rfl (.trivially rfl)
  | drain c d =>
    exact ⟨inv.drain prompt.1 prompt.2 rfl rfl fun _ => rfl, trivial⟩
  | getMemBlock =>
    have live (b : Block) (cached : b ∈ s.memory.free) : b < s.memory.allocated :=
      (inv.banked.place.known .cache b cached).2
    have pool := Pool.take_taken (slab 4096) (by decide) inv.banked.cacheOnce live
    refine ⟨⟨inv.banked.take pool rfl, inv.fields.congr rfl (fun _ => id) ?_⟩, trivial⟩
    exact .trivially (show (own t).hold.uses = none by rw [owns]; rfl)
  | releaseMemBlock b =>
    refine ⟨⟨inv.banked.give owns.2 rfl, inv.fields.congr rfl (fun _ => id) ?_⟩, trivial⟩
    exact .trivially (show (own t).hold.uses = none by rw [owns.1]; rfl)
  | closeSocket c =>
    simp only [Shared.perform]
    split
    · exact ⟨inv.neutral rfl rfl rfl rfl agrees, trivial⟩
    · exact ⟨inv.neutral rfl rfl rfl rfl agrees, trivial⟩
  | createIoCompletionPort sock c =>
    simp only [Shared.perform]
    split
    · exact ⟨inv.neutral rfl rfl rfl rfl (agrees.same rfl rfl), trivial⟩
    · split
      · exact ⟨inv.neutral rfl rfl rfl rfl (agrees.same rfl rfl), trivial⟩
      · exact ⟨inv.neutral rfl rfl rfl rfl (agrees.same rfl rfl), trivial⟩
  | eraseRealClient c =>
    obtain ⟨hold, blocks⟩ := after_eraseRealClient (own t) c
      (s.perform choice (.eraseRealClient c)).2
    exact ⟨inv.neutral rfl rfl rfl blocks (agrees.same hold blocks), trivial⟩
  | isType _ _ | initClient _ _ | getFreeClient | addRealClient _ | pushFreeClient _
  | realClients | clearRealClients =>
    exact ⟨inv.neutral rfl rfl rfl rfl (agrees.same rfl rfl), trivial⟩

theorem enter (inv : Accounts s own) {e : Event} {p : Call Unit} (idle : Done True (own t))
    (entered : Server.enter s e = some (s', l, p)) :
    Banked s' (Function.update own t l) ∧ Fields s' (Function.update own t l) := by
  have none := idle.2 trivial
  cases enter_cases entered with
  | invalid | accepted | closed => exact inv.neutral rfl rfl rfl none.symm (.trivially rfl)
  | dequeued lasterr transferred key pending =>
    refine ⟨inv.banked.dequeue inv.records.outstanding.pendingOnce pending none rfl,
      inv.fields.congr rfl (fun _ left => List.mem_of_mem_erase left) ?_⟩
    constructor
    · simp
    · rintro r ⟨⟩
      exact inv.fields.pending _ pending
    · rintro r (⟨⟨⟩⟩ | ⟨⟨⟩⟩)
      rfl

end Accounts

omit [DecidableEq T] in
theorem Initial.accounts (initial : Initial s) : Accounts s (fun _ : T => {}) := by
  refine ⟨initial.inv, ⟨⟨?_, ?_, ?_⟩, ?_, ?_, ?_⟩, ?_, fun t => .trivially rfl⟩
  · intro p b here
    cases p <;> simp_all [BlockAt, initial.memory, initial.pending]
  · intro p q b here there
    cases p <;> simp_all [BlockAt, initial.memory, initial.pending]
  · rintro b ⟨above, below⟩
    have small : b ≤ NULL := Nat.lt_succ_iff.mp (by simpa [initial.memory] using below)
    exact absurd above (Nat.not_lt_of_le small)
  · simp [initial.memory]
  · simp [initial.memory]
  · simp
  · simp [initial.pending]

/-- Every block is in the cache, under one posted operation or in the hands of one call:
it is released once, not while an operation on it is pending, and when none is pending
and no running call has it, it is released. -/
structure Returned (s : Config T Shared Task Op Res) : Prop where
  place : ∀ b, s.shared.Block b → ∃! place, BlockAt s.shared s.own place b
  releasedOnce : s.shared.memory.free.Nodup
  completed : ∀ p ∈ s.shared.pending, (s.shared.records p.record).buf ∉ s.shared.memory.free
  released : ∀ b, s.shared.Block b → (∀ p ∈ s.shared.pending, (s.shared.records p.record).buf ≠ b) →
    (∀ t, b ∈ (s.own t).blocks → s.code t = .ret ()) → b ∈ s.shared.memory.free

omit [DecidableEq T] in
theorem Accounts.returned {s : Config T Shared Task Op Res} (inv : Accounts s.shared s.own)
    (follows : ∀ t, (s.code t).Follows (discipline True) (s.own t) (fun _ => Done True)) :
    Returned s := by
  have place := inv.banked.place
  refine ⟨fun b live => place.existsUnique live, inv.banked.cacheOnce, ?_, ?_⟩
  · intro p inside cached
    have under : BlockAt s.shared s.own (.posted p.record) (s.shared.records p.record).buf :=
      ⟨List.mem_map_of_mem inside, rfl⟩
    have there : BlockAt s.shared s.own .cache (s.shared.records p.record).buf := cached
    exact place.elsewhere under (by simp) there
  · intro b live unposted idle
    obtain ⟨at_, here⟩ := place.total b live
    cases at_ with
    | cache => exact here
    | call t =>
      have done := follows t
      rw [idle t here] at done
      have here : b ∈ (s.own t).blocks := here
      simp [done.2 trivial] at here
    | posted r =>
      obtain ⟨listed, same⟩ := here
      obtain ⟨p, inside, rfl⟩ := List.mem_map.mp listed
      exact absurd same (unposted p inside)

theorem blocks_returned {s : Config T Shared Task Op Res}
    (run : (system T).ReachableUnder (Semantics.Guarded Prompt) s) : Returned s := by
  have resting : Done True {} := ⟨rfl, fun _ => rfl⟩
  have held := Semantics.follows_of_run (I := Accounts) (discipline True) resting ?_ ?_ ?_ run
  · exact held.1.returned held.2
  · exact fun s initial => initial.accounts
  · intro s own t e s' l p inv done entered
    obtain ⟨banked, fields⟩ := inv.enter done entered
    exact ⟨⟨inv.records.enter (e := .inl e) done.1 entered, banked, fields⟩, enter_follows entered⟩
  · intro s own t op choice s' l r inv needs prompt performed
    simp only [semantics, Server.step, Option.some.injEq, Prod.mk.injEq] at performed
    obtain ⟨rfl, rfl, rfl⟩ := performed
    obtain ⟨⟨banked, fields⟩, reads⟩ := inv.step needs.1 (needs.2 trivial) prompt
    exact ⟨⟨inv.records.step needs.1 prompt.1, banked, fields⟩, rfl, fun _ => reads⟩

instance [Fintype T] (s : Shared) (own : T → Task) (t : T) (op : Op) (choice : Choice) :
    Decidable (Prompt s own t op choice) := by
  refine @instDecidableAnd _ _ _ ?_
  exact match op with
  | .drain c d =>
    inferInstanceAs (Decidable (∀ r ∈ (s.clients c).list d, ∀ t, (own t).hold ≠ .dequeued r))
  | .releaseIOOperData _ | .memset _ | .store _ _ | .switch _ | .operType _ | .buf _ | .isType _ _
  | .post _ _ _ | .insert _ _ _ | .erase _ _ _ | .findErase _ _ _ | .closeSocket _
  | .getFreeClient | .initClient _ _ | .addRealClient _ | .eraseRealClient _ | .pushFreeClient _
  | .realClients | .clearRealClients | .createIoCompletionPort _ _ | .getMemBlock |
    .releaseMemBlock _ | .getIOOperData => .isTrue trivial

theorem replied_promptly :
    ((system Bool).runUnder (Semantics.Guarded Prompt) started (replied id)).map
      (fun s => (s.shared.pending, s.shared.memory.free.drop 998)) = some ([], [1, 2]) := by
  decide +kernel

theorem blocks_returned_after_reply :
    ∃ s, (system Bool).runUnder (Semantics.Guarded Prompt) started (replied id) = some s ∧
      s.shared.pending = [] ∧ Returned s := by
  obtain ⟨s, ran, ended⟩ := Option.map_eq_some_iff.mp replied_promptly
  exact ⟨s, ran, congrArg Prod.fst ended,
    blocks_returned (System.runUnder_reachable (.initial started_initial) ran)⟩

/-- After the client has closed the send completes. -/
def completed : List (Label Bool Choice Event) :=
  abandoned id ++ calling true (.dequeue (first 1) none 19) 1

theorem completed_runs :
    ((system Bool).run started completed).map (fun s => decide
      ((∀ t, s.code t = .ret ()) ∧ s.shared.pending = [] ∧ 1 < s.shared.memory.allocated ∧
        1 ∉ s.shared.memory.free)) = some true := by
  decide +kernel

theorem block_lost : ¬ ∀ s, (system Bool).Reachable s → Returned s := by
  intro returned
  obtain ⟨s, ran, ended⟩ := Option.map_eq_some_iff.mp completed_runs
  obtain ⟨idle, pending, allocated, missing⟩ := of_decide_eq_true ended
  have reached := System.run_reachable (.initial started_initial) ran
  refine missing ((returned s reached).released 1 ⟨by decide, allocated⟩ ?_ fun t _ => idle t)
  simp [pending]

end TestIOCP.Server
