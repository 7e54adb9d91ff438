import TestIOCP.Server.Discipline
import Mathlib.Data.Fintype.Basic

/-! The records of CTcpIOCPTool. A record is in m_FreeList, in the hands of a call or in
the list of a stub, and an operation that was posted with it is pending or handled by
one call. A stub may only be closed while none of its listed records has an operation
pending, and a record that is used again must not be in the hands of WorkThread. -/
namespace TestIOCP.Server
open Transition Program

/-- Where a record is. -/
inductive Place (T : Type) where
  | list
  | call (t : T)
  | listed (c : Client) (d : Direction)

variable {T : Type}

/-- The record that only a call has. -/
def Hold.body : Hold → Option Record
  | .obtained r | .building r _ | .posted r | .erased r => some r
  | .nothing | .dequeued _ | .handling _ => none

/-- The record whose completion a call has dequeued and that it has not released. -/
def Hold.token : Hold → Option Record
  | .dequeued r | .handling r | .erased r => some r
  | .nothing | .obtained _ | .building _ _ | .posted _ => none

def Hold.unposted : Hold → Option Record
  | .obtained r | .building r _ => some r
  | _ => none

def RecordAt (s : Shared) (own : T → Task) : Place T → Record → Prop
  | .list, r => r ∈ s.m_FreeList.free
  | .call t, r => (own t).hold.body = some r
  | .listed c d, r => r ∈ (s.clients c).list d

/-- Every record is in one place. -/
structure Lodged (s : Shared) (own : T → Task) : Prop where
  place : Accounted (RecordAt s own) (· < s.m_FreeList.allocated)
  freeOnce : s.m_FreeList.free.Nodup
  listOnce : ∀ c d, ((s.clients c).list d).Nodup

/-- No record has two operations, and one with an operation is neither free nor about to
be posted. -/
structure Outstanding (s : Shared) (own : T → Task) : Prop where
  pendingOnce : (s.pending.map Posted.record).Nodup
  pendingKnown : ∀ p ∈ s.pending, p.record < s.m_FreeList.allocated
  pendingBusy : ∀ p ∈ s.pending, p.record ∉ s.m_FreeList.free ∧
    ∀ t, (own t).hold.unposted ≠ some p.record
  taken : ∀ t r, (own t).hold.token = some r → ∀ p ∈ s.pending, p.record ≠ r
  takenKnown : ∀ t r, (own t).hold.token = some r → r < s.m_FreeList.allocated
  takenOnce : ∀ t u r, (own t).hold.token = some r → (own u).hold.token = some r → t = u
  takenBusy : ∀ t u r, (own t).hold.token = some r → (own u).hold.unposted ≠ some r

theorem mem_insertKey {x r : Nat} {keys : List Nat} :
    x ∈ insertKey r keys ↔ x = r ∨ x ∈ keys := by
  rw [insertKey]
  split
  · rename_i inside
    exact ⟨.inr, fun either => either.elim (fun same => same ▸ inside) id⟩
  · exact List.mem_orderedInsert _

theorem insertKey_once {r : Nat} {keys : List Nat} (once : keys.Nodup) :
    (insertKey r keys).Nodup := by
  rw [insertKey]
  split
  · exact once
  · rename_i outside
    exact (List.perm_orderedInsert _ r keys).nodup_iff.mpr (List.nodup_cons.mpr ⟨outside, once⟩)

@[simp] theorem setList_list (s : Shared) (c : Client) (d : Direction) (keys : List Record)
    (c' : Client) (d' : Direction) : ((s.setList c d keys).clients c').list d' =
      if c' = c ∧ d' = d then keys else (s.clients c').list d' := by
  by_cases same : c' = c
  · subst same
    by_cases same' : d' = d
    · subst same'
      simp [Shared.setList]
    · simp [Shared.setList, same']
  · simp [Shared.setList, same]

@[simp] theorem setSocket_list (s : Shared) (c c' : Client) (socket : Option Sock) :
    ((s.setSocket c socket).clients c').list = (s.clients c').list := by
  by_cases same : c' = c
  · subst same
    simp [Shared.setSocket]
  · simp [Shared.setSocket, same]

variable [DecidableEq T] {s s' : Shared} {own : T → Task} {t : T} {l : Task} {r : Record}
  {c : Client} {d : Direction}

namespace Lodged

theorem congr (inv : Lodged s own) (free : s'.m_FreeList = s.m_FreeList)
    (lists : ∀ c, (s'.clients c).list = (s.clients c).list)
    (body : l.hold.body = (own t).hold.body) : Lodged s' (Function.update own t l) := by
  refine ⟨?_, free ▸ inv.freeOnce, fun c d => lists c ▸ inv.listOnce c d⟩
  rw [free]
  refine inv.place.congr ?_
  intro q x
  cases q with
  | list => simp [RecordAt, free]
  | call u =>
    by_cases same : u = t
    · subst same
      simp [RecordAt, body]
    · simp [RecordAt, same]
  | listed c d => simp [RecordAt, lists]

/-- GetIOOperData. -/
theorem take (inv : Lodged s own) (pool : s.m_FreeList.Taken r free)
    (idle : (own t).hold = .nothing)
    (held : l.hold.body = some r) :
    Lodged { s with m_FreeList := free } (Function.update own t l) := by
  refine ⟨?_, pool.once, inv.listOnce⟩
  refine inv.place.take (f := .list) (q := .call t) pool (fun _ => Iff.rfl) (fun _ => id) ?_
    (fun _ => Iff.rfl) ?_ ?_ (by simp)
  · intro x
    have grown := pool.grown
    change x < free.allocated ↔ x < s.m_FreeList.allocated ∨ _
    omega
  · intro x
    have before : (own t).hold.body = none := by rw [idle]; rfl
    simp [RecordAt, held, before, eq_comm]
  · intro o x atList atCall
    cases o with
    | list => exact absurd rfl atList
    | call u =>
      have other : u ≠ t := fun same => atCall (same ▸ rfl)
      simp [RecordAt, other]
    | listed c d => rfl

/-- ReleaseIOOperData. -/
theorem give (inv : Lodged s own) (held : (own t).hold.body = some r) (free : l.hold.body = none) :
    Lodged { s with m_FreeList := s.m_FreeList.give [r] } (Function.update own t l) := by
  have here : RecordAt s own (.call t) r := held
  refine ⟨?_, Pool.give_once inv.freeOnce (by simp) ?_, inv.listOnce⟩
  · refine inv.place.give (f := .list) (g := [r]) (fun _ => Iff.rfl) ?_ (fun _ => Iff.rfl) ?_
    · intro x given
      obtain rfl := List.mem_singleton.mp given
      exact inv.place.known _ x here
    · intro o x atList
      have other := fun at_ => inv.place.apart (q := o) (x := x) here at_
      cases o with
      | list => exact absurd rfl atList
      | call u =>
        by_cases same : u = t
        · subst same
          simp [RecordAt, held, free, eq_comm]
        · simpa [RecordAt, same] using fun at_ => other at_ (by simpa using same)
      | listed c d => simpa [RecordAt] using fun at_ => other at_ (by simp)
  · have away : ¬ RecordAt s own .list r := inv.place.elsewhere here (by simp)
    simpa [RecordAt] using away

/-- A record is inserted in a list. -/
theorem insert (inv : Lodged s own) (held : (own t).hold.body = some r)
    (free : l.hold.body = none) :
    Lodged (s.setList c d (insertKey r ((s.clients c).list d))) (Function.update own t l) := by
  have here : RecordAt s own (.call t) r := held
  refine ⟨?_, inv.freeOnce, fun c' d' => ?_⟩
  · refine inv.place.move (r := r) (p := .listed c d) (inv.place.known _ r here) ?_
    intro q x
    have other := fun at_ => inv.place.apart (q := q) (x := x) here at_
    cases q with
    | list => simpa [RecordAt, Shared.setList] using fun at_ => other at_ (by simp)
    | call u =>
      by_cases same : u = t
      · subst same
        simp [RecordAt, held, free, eq_comm]
      · simpa [RecordAt, same] using fun at_ => other at_ (by simpa using same)
    | listed c' d' =>
      by_cases same : c' = c ∧ d' = d
      · obtain ⟨rfl, rfl⟩ := same
        by_cases same : x = r <;> simp [RecordAt, mem_insertKey, same]
      · simpa [RecordAt, same] using fun at_ => other at_ (by simp)
  · rw [setList_list]
    split
    · exact insertKey_once (inv.listOnce c d)
    · exact inv.listOnce c' d'

/-- A record leaves a list for the call that erased it. -/
theorem erase (inv : Lodged s own) (listed : r ∈ (s.clients c).list d)
    (free : (own t).hold.body = none) (held : l.hold.body = some r) :
    Lodged (s.setList c d (((s.clients c).list d).erase r)) (Function.update own t l) := by
  have here : RecordAt s own (.listed c d) r := listed
  refine ⟨?_, inv.freeOnce, fun c' d' => ?_⟩
  · refine inv.place.move (r := r) (p := .call t) (inv.place.known _ r here) ?_
    intro q x
    have other := fun at_ => inv.place.apart (q := q) (x := x) here at_
    cases q with
    | list => simpa [RecordAt, Shared.setList] using fun at_ => other at_ (by simp)
    | call u =>
      by_cases same : u = t
      · subst same
        simp [RecordAt, held, free, eq_comm]
      · simpa [RecordAt, same] using fun at_ => other at_ (by simp)
    | listed c' d' =>
      by_cases same : c' = c ∧ d' = d
      · obtain ⟨rfl, rfl⟩ := same
        simp [RecordAt, (inv.listOnce c' d').mem_erase_iff]
      · simpa [RecordAt, same] using fun at_ => other at_ (by simpa using same)
  · rw [setList_list]
    split
    · exact (inv.listOnce c d).erase r
    · exact inv.listOnce c' d'

/-- Records of a list are released by the stub itself. -/
theorem drain (inv : Lodged s own) (rs : List Record) {keys : List Record} (once : rs.Nodup)
    (listed : ∀ x ∈ rs, x ∈ (s.clients c).list d)
    (rest : ∀ x, x ∈ keys ↔ x ∉ rs ∧ x ∈ (s.clients c).list d) (keysOnce : keys.Nodup)
    (body : l.hold.body = (own t).hold.body) (records : Record → IO_OPER_DATA) :
    Lodged { s.setList c d keys with records, m_FreeList := s.m_FreeList.give rs }
      (Function.update own t l) := by
  have here (x : Record) (inside : x ∈ rs) : RecordAt s own (.listed c d) x := listed x inside
  refine ⟨?_, Pool.give_once inv.freeOnce once ?_, fun c' d' => ?_⟩
  · refine inv.place.give (f := .list) (g := rs) (fun _ => Iff.rfl) ?_ (fun _ => Iff.rfl) ?_
    · exact fun x inside => inv.place.known _ x (here x inside)
    · intro o x atList
      have other : RecordAt s own o x → o ≠ .listed c d → x ∉ rs := by
        intro at_ apart inside
        exact inv.place.elsewhere (here x inside) apart at_
      cases o with
      | list => exact absurd rfl atList
      | call u =>
        have same : ((Function.update own t l) u).hold.body = (own u).hold.body := by
          by_cases same : u = t
          · subst same
            simp [body]
          · simp [same]
        simpa [RecordAt, same] using fun at_ => other at_ (by simp)
      | listed c' d' =>
        have lists := setList_list s c d keys c' d'
        by_cases same : c' = c ∧ d' = d
        · obtain ⟨rfl, rfl⟩ := same
          rw [if_pos ⟨rfl, rfl⟩] at lists
          exact (lists ▸ rest x :)
        · rw [if_neg same] at lists
          simp only [RecordAt, lists]
          exact ⟨fun at_ => ⟨other at_ (by simpa using same), at_⟩, And.right⟩
  · intro x inside
    have away : ¬ RecordAt s own .list x := inv.place.elsewhere (here x inside) (by simp)
    exact away
  · have lists := setList_list s c d keys c' d'
    show (((s.setList c d keys).clients c').list d').Nodup
    rw [lists]
    split
    · exact keysOnce
    · exact inv.listOnce c' d'

end Lodged

namespace Outstanding

/-- A step that posts and dequeues nothing and takes nothing from the free list. -/
theorem shrink (inv : Outstanding s own) (pending : s'.pending = s.pending)
    (allocated : s'.m_FreeList.allocated = s.m_FreeList.allocated)
    (token : ∀ r, l.hold.token = some r → (own t).hold.token = some r)
    (unposted : ∀ r, l.hold.unposted = some r → (own t).hold.unposted = some r)
    (free : ∀ p ∈ s.pending, p.record ∈ s'.m_FreeList.free → p.record ∈ s.m_FreeList.free) :
    Outstanding s' (Function.update own t l) := by
  have token' (u : T) (r : Record) (has : ((Function.update own t l) u).hold.token = some r) :
      (own u).hold.token = some r := by
    by_cases same : u = t
    · subst same
      exact token r (by simpa using has)
    · simpa [same] using has
  have unposted' (u : T) (r : Record) (has : ((Function.update own t l) u).hold.unposted = some r) :
      (own u).hold.unposted = some r := by
    by_cases same : u = t
    · subst same
      exact unposted r (by simpa using has)
    · simpa [same] using has
  constructor
  · exact pending ▸ inv.pendingOnce
  · exact pending ▸ allocated ▸ inv.pendingKnown
  · intro p inside
    rw [pending] at inside
    obtain ⟨used, unfilled⟩ := inv.pendingBusy p inside
    exact ⟨fun back => used (free p inside back), fun u has => unfilled u (unposted' u _ has)⟩
  · exact fun u r has => pending ▸ inv.taken u r (token' u r has)
  · exact fun u r has => allocated ▸ inv.takenKnown u r (token' u r has)
  · exact fun u v r has has' => inv.takenOnce u v r (token' u r has) (token' v r has')
  · exact fun u v r has has' => inv.takenBusy u v r (token' u r has) (unposted' v r has')

/-- GetIOOperData hands out a record without an operation. -/
theorem take (inv : Outstanding s own) (pool : s.m_FreeList.Taken r free)
    (idle : (own t).hold = .nothing) (held : l.hold = .obtained r)
    (spare : ∀ u, (own u).hold.token ≠ some r) :
    Outstanding { s with m_FreeList := free } (Function.update own t l) := by
  have token (u : T) (x : Record) (has : ((Function.update own t l) u).hold.token = some x) :
      (own u).hold.token = some x := by
    by_cases same : u = t
    · subst same
      simp [held, Hold.token] at has
    · simpa [same] using has
  have grown := pool.grown
  have unpending : ∀ p ∈ s.pending, p.record ≠ r := by
    rintro p inside rfl
    rcases pool.source with listed | new
    · exact (inv.pendingBusy p inside).1 listed
    · exact Nat.not_le_of_gt (inv.pendingKnown p inside) new.1
  constructor
  · exact inv.pendingOnce
  · exact fun p inside => Nat.lt_of_lt_of_le (inv.pendingKnown p inside) grown
  · intro p inside
    refine ⟨fun back => ?_, fun u has => ?_⟩
    · rcases ((pool.rest p.record).mp back).2 with listed | new
      · exact (inv.pendingBusy p inside).1 listed
      · exact Nat.not_le_of_gt (inv.pendingKnown p inside) new.1
    · by_cases same : u = t
      · subst same
        have equal : r = p.record := by simpa [held, Hold.unposted] using has
        exact unpending p inside equal.symm
      · exact (inv.pendingBusy p inside).2 u (by simpa [same] using has)
  · exact fun u x has => inv.taken u x (token u x has)
  · exact fun u x has => Nat.lt_of_lt_of_le (inv.takenKnown u x (token u x has)) grown
  · exact fun u v x has has' => inv.takenOnce u v x (token u x has) (token v x has')
  · intro u v x has has'
    by_cases same : v = t
    · subst same
      have equal : r = x := by simpa [held, Hold.unposted] using has'
      exact spare u (equal ▸ token u x has)
    · exact inv.takenBusy u v x (token u x has) (by simpa [same] using has')

/-- WSARecv or WSASend is accepted. -/
theorem post (inv : Outstanding s own) (p : Posted) (held : (own t).hold = .building p.record data)
    (known : p.record < s.m_FreeList.allocated) (used : p.record ∉ s.m_FreeList.free)
    (alone : ∀ u, u ≠ t → (own u).hold.unposted ≠ some p.record)
    (after : l.hold = .posted p.record) :
    Outstanding { s with pending := p :: s.pending } (Function.update own t l) := by
  have unfilled : (own t).hold.unposted = some p.record := by rw [held]; rfl
  have fresh : ∀ q ∈ s.pending, q.record ≠ p.record :=
    fun q inside same => (inv.pendingBusy q inside).2 t (same ▸ unfilled)
  have token (u : T) (x : Record) (has : ((Function.update own t l) u).hold.token = some x) :
      (own u).hold.token = some x := by
    by_cases same : u = t
    · subst same
      simp [after, Hold.token] at has
    · simpa [same] using has
  have unposted (u : T) (x : Record) (has : ((Function.update own t l) u).hold.unposted = some x) :
      u ≠ t ∧ (own u).hold.unposted = some x := by
    by_cases same : u = t
    · subst same
      simp [after, Hold.unposted] at has
    · exact ⟨same, by simpa [same] using has⟩
  constructor
  · refine List.nodup_cons.mpr ⟨?_, inv.pendingOnce⟩
    rw [List.mem_map]
    rintro ⟨q, inside, same⟩
    exact fresh q inside same
  · exact List.forall_mem_cons.mpr ⟨known, inv.pendingKnown⟩
  · refine List.forall_mem_cons.mpr ⟨⟨used, ?_⟩, fun q inside => ⟨(inv.pendingBusy q inside).1, ?_⟩⟩
    · exact fun u has => alone u (unposted u _ has).1 (unposted u _ has).2
    · exact fun u has => (inv.pendingBusy q inside).2 u (unposted u _ has).2
  · intro u x has
    refine List.forall_mem_cons.mpr ⟨?_, inv.taken u x (token u x has)⟩
    rintro rfl
    exact inv.takenBusy u t _ (token u _ has) unfilled
  · exact fun u x has => inv.takenKnown u x (token u x has)
  · exact fun u v x has has' => inv.takenOnce u v x (token u x has) (token v x has')
  · exact fun u v x has has' => inv.takenBusy u v x (token u x has) (unposted v x has').2

/-- A completion is dequeued. -/
theorem dequeue (inv : Outstanding s own) {p : Posted} (inside : p ∈ s.pending)
    (after : l.hold = .dequeued p.record) :
    Outstanding { s with pending := s.pending.erase p } (Function.update own t l) := by
  have rest (q : Posted) (left : q ∈ s.pending.erase p) : q ∈ s.pending :=
    List.mem_of_mem_erase left
  have gone : p.record ∉ (s.pending.erase p).map Posted.record :=
    fun back => ((mem_map_erase inv.pendingOnce inside).mp back).1 rfl
  have token (u : T) (x : Record) (has : ((Function.update own t l) u).hold.token = some x) :
      (u = t ∧ x = p.record) ∨ (u ≠ t ∧ (own u).hold.token = some x) := by
    by_cases same : u = t
    · subst same
      simp only [Function.update_self, after, Hold.token, Option.some.injEq] at has
      exact .inl ⟨rfl, has.symm⟩
    · exact .inr ⟨same, by simpa [same] using has⟩
  have unposted (u : T) (x : Record) (has : ((Function.update own t l) u).hold.unposted = some x) :
      (own u).hold.unposted = some x := by
    by_cases same : u = t
    · subst same
      simp [after, Hold.unposted] at has
    · simpa [same] using has
  constructor
  · exact nodup_map_erase inv.pendingOnce p
  · exact fun q left => inv.pendingKnown q (rest q left)
  · exact fun q left => ⟨(inv.pendingBusy q (rest q left)).1,
      fun u has => (inv.pendingBusy q (rest q left)).2 u (unposted u _ has)⟩
  · intro u x has q left same
    rcases token u x has with ⟨-, rfl⟩ | ⟨-, before⟩
    · exact gone (List.mem_map.mpr ⟨q, left, same⟩)
    · exact inv.taken u x before q (rest q left) same
  · intro u x has
    rcases token u x has with ⟨-, rfl⟩ | ⟨-, before⟩
    · exact inv.pendingKnown p inside
    · exact inv.takenKnown u x before
  · intro u v x has has'
    rcases token u x has with ⟨rfl, rfl⟩ | ⟨other, before⟩
    · rcases token v _ has' with ⟨rfl, -⟩ | ⟨-, before'⟩
      · rfl
      · exact absurd rfl (inv.taken v _ before' p inside)
    · rcases token v x has' with ⟨rfl, rfl⟩ | ⟨-, before'⟩
      · exact absurd rfl (inv.taken u _ before p inside)
      · exact inv.takenOnce u v x before before'
  · intro u v x has has'
    rcases token u x has with ⟨-, rfl⟩ | ⟨-, before⟩
    · exact (inv.pendingBusy p inside).2 v (unposted v _ has')
    · exact inv.takenBusy u v x before (unposted v x has')

end Outstanding

structure Inv (s : Shared) (own : T → Task) : Prop where
  lodged : Lodged s own
  outstanding : Outstanding s own

/-- A list is drained only while none of its records has an operation pending, and
GetIOOperData hands out no record that WorkThread has still to release. -/
def Orderly (s : Shared) (own : T → Task) (_ : T) : Op → Choice → Prop
  | .drain c d, _ => ∀ r ∈ (s.clients c).list d, ∀ p ∈ s.pending, p.record ≠ r
  | .getIOOperData, _ => ∀ t, (own t).hold.token ≠ some (s.m_FreeList.take 1000).1
  | _, _ => True

theorem Hold.body_of_unposted {h : Hold} (unposted : h.unposted = some r) : h.body = some r := by
  cases h <;> simp [Hold.unposted, Hold.body] at unposted ⊢ <;> exact unposted

namespace Inv

/-- A step that has nothing to do with records. -/
theorem neutral (inv : Inv s own) (free : s'.m_FreeList = s.m_FreeList)
    (lists : ∀ c, (s'.clients c).list = (s.clients c).list) (pending : s'.pending = s.pending)
    (hold : l.hold = (own t).hold) : Inv s' (Function.update own t l) :=
  ⟨inv.lodged.congr free lists (by rw [hold]),
    inv.outstanding.shrink pending (by rw [free]) (fun _ has => hold ▸ has)
      (fun _ has => hold ▸ has)
      fun _ _ back => free ▸ back⟩

omit [DecidableEq T] in
/-- A record that a call has is not pending when it is filled or released. -/
theorem unpending (inv : Inv s own)
    (has : (∃ data, (own t).hold = .building r data) ∨ (own t).hold = .erased r) :
    ∀ p ∈ s.pending, p.record ≠ r := by
  rintro p inside rfl
  rcases has with ⟨data, building⟩ | erased
  · exact (inv.outstanding.pendingBusy p inside).2 t (by rw [building]; rfl)
  · exact inv.outstanding.taken t p.record (by rw [erased]; rfl) p inside rfl

theorem give (inv : Inv s own)
    (has : (∃ data, (own t).hold = .building r data) ∨ (own t).hold = .erased r)
    (after : l.hold = .nothing) :
    Inv { s with m_FreeList := s.m_FreeList.give [r] } (Function.update own t l) := by
  have body : (own t).hold.body = some r := by
    rcases has with ⟨data, building⟩ | erased
    · rw [building]; rfl
    · rw [erased]; rfl
  refine ⟨inv.lodged.give body (by rw [after]; rfl), ?_⟩
  refine inv.outstanding.shrink rfl rfl (by simp [after, Hold.token])
    (by simp [after, Hold.unposted]) ?_
  intro p inside back
  rcases List.mem_append.mp back with listed | given
  · exact listed
  · exact absurd (List.mem_singleton.mp given) (inv.unpending has p inside)

theorem erase (inv : Inv s own) (at_ : (own t).hold = .handling r) :
    Inv (s.setList c d (((s.clients c).list d).erase r)) (Function.update own t
      { own t with hold := if r ∈ (s.clients c).list d then .erased r else .nothing }) := by
  by_cases listed : r ∈ (s.clients c).list d
  · rw [if_pos listed]
    refine ⟨inv.lodged.erase listed (by rw [at_]; rfl) rfl, ?_⟩
    refine inv.outstanding.shrink rfl rfl ?_ (by simp [Hold.unposted]) fun _ _ back => back
    intro x has
    rw [at_]
    exact has
  · rw [if_neg listed, List.erase_of_not_mem listed]
    refine ⟨inv.lodged.congr rfl ?_ (by rw [at_]; rfl), ?_⟩
    · intro c'
      funext d'
      rw [setList_list]
      split
      · rename_i same
        rw [same.1, same.2]
      · rfl
    · exact inv.outstanding.shrink rfl rfl (by simp [Hold.token]) (by simp [Hold.unposted])
        fun _ _ back => back

theorem findErase (inv : Inv s own) (at_ : (own t).hold = .handling r)
    (listed : r ∈ (s.clients c).list d) :
    Inv { (s.setList c d (((s.clients c).list d).erase r)).write r f with
      m_FreeList := s.m_FreeList.give [r] }
        (Function.update own t { own t with hold := .nothing }) := by
  have once := inv.lodged.listOnce c d
  refine ⟨inv.lodged.drain [r] (by simp) (by simpa using listed) ?_ (once.erase r)
    (by rw [at_]; rfl) _, ?_⟩
  · simpa using fun x => once.mem_erase_iff
  · refine inv.outstanding.shrink rfl rfl (by simp [Hold.token]) (by simp [Hold.unposted]) ?_
    intro p inside back
    rcases List.mem_append.mp back with before | given
    · exact before
    · have token : (own t).hold.token = some r := by rw [at_]; rfl
      exact absurd (List.mem_singleton.mp given) (inv.outstanding.taken t r token p inside)

theorem post (inv : Inv s own) {p : Posted} (at_ : (own t).hold = .building p.record data)
    (after : l.hold = .posted p.record) :
    Inv { s with pending := p :: s.pending } (Function.update own t l) := by
  have here : RecordAt s own (.call t) p.record := by simp [RecordAt, at_, Hold.body]
  refine ⟨inv.lodged.congr rfl (fun _ => rfl) (by rw [at_, after]; rfl), ?_⟩
  refine inv.outstanding.post p at_ (inv.lodged.place.known _ _ here) ?_ ?_ after
  · have away : ¬ RecordAt s own .list p.record := inv.lodged.place.elsewhere here (by simp)
    exact away
  · intro u other unposted
    have there : RecordAt s own (.call u) p.record := Hold.body_of_unposted unposted
    exact inv.lodged.place.elsewhere here (by simpa using other) there

theorem step (inv : Inv s own) {op : Op} {choice : Choice} (needs : Needs (own t) op)
    (orderly : Orderly s own t op choice) :
    Inv (s.perform choice op).1
      (Function.update own t ((own t).after op (s.perform choice op).2)) := by
  cases op with
  | getIOOperData =>
    have pool := Pool.take_taken 1000 (by omega) inv.lodged.freeOnce
      (fun x listed => inv.lodged.place.known .list x listed)
    exact ⟨inv.lodged.take pool needs rfl, inv.outstanding.take pool needs rfl orderly⟩
  | releaseIOOperData r => exact inv.give needs rfl
  | memset r =>
    have at_ : (own t).hold = .obtained r := needs
    refine ⟨inv.lodged.congr rfl (fun _ => rfl) (by rw [at_]; rfl), ?_⟩
    refine inv.outstanding.shrink rfl rfl (by simp [Task.after, Hold.token]) ?_ fun _ _ back => back
    intro x has
    rw [at_]
    exact has
  | store r field =>
    rcases needs with ⟨data, at_⟩ | ⟨at_, -⟩
    · refine ⟨inv.lodged.congr rfl (fun _ => rfl) ?_, ?_⟩
      · simp [Task.after, at_, Hold.body]
      · exact inv.outstanding.shrink rfl rfl (by simp [Task.after, at_, Hold.token])
          (by simp [Task.after, at_, Hold.unposted]) fun _ _ back => back
    · exact inv.neutral rfl (fun _ => rfl) rfl (by simp [Task.after, at_])
  | post c d r =>
    obtain ⟨data, at_⟩ := needs
    simp only [Shared.perform]
    split
    · exact inv.neutral rfl (fun _ => rfl) rfl (by simp [Task.after])
    · split
      · exact inv.neutral rfl (fun _ => rfl) rfl (by simp [Task.after])
      · split
        · exact inv.neutral rfl (fun _ => rfl) rfl (by simp [Task.after])
        · exact inv.post (p := ⟨r, _, c, s.connection c⟩) at_ (by simp [Task.after, at_])
  | insert c d r =>
    have at_ : (own t).hold = .posted r := needs
    refine ⟨inv.lodged.insert (by rw [at_]; rfl) rfl, ?_⟩
    exact inv.outstanding.shrink rfl rfl (by simp [Task.after, Hold.token])
      (by simp [Task.after, Hold.unposted]) fun _ _ back => back
  | switch r =>
    have at_ : (own t).hold = .dequeued r := needs
    change Inv s (Function.update own t (if (s.records r).oper_type = 0 ∨
      (s.records r).oper_type = 1
      then own t else { own t with hold := .nothing }))
    split
    · exact inv.neutral rfl (fun _ => rfl) rfl rfl
    · refine ⟨inv.lodged.congr rfl (fun _ => rfl) (by rw [at_]; rfl), ?_⟩
      exact inv.outstanding.shrink rfl rfl (by simp [Hold.token]) (by simp [Hold.unposted])
        fun _ _ back => back
  | operType r =>
    have at_ : (own t).hold = .dequeued r := needs
    refine ⟨inv.lodged.congr rfl (fun _ => rfl) (by rw [at_]; rfl), ?_⟩
    refine inv.outstanding.shrink rfl rfl ?_ (by simp [Task.after, Hold.unposted])
      fun _ _ back => back
    intro x has
    rw [at_]
    exact has
  | erase c d r =>
    have erased := inv.erase (c := c) (d := d) needs
    simpa [Shared.perform, Task.after] using erased
  | findErase c d r =>
    have at_ : (own t).hold = .handling r := needs
    simp only [Shared.perform]
    split
    · rename_i listed
      have found := inv.findErase (f := (·.assign (.oper_type (-1)))) at_ listed
      simpa [Task.after] using found
    · cases d with
      | recv => exact inv.neutral rfl (fun _ => rfl) rfl (by simp [Task.after])
      | send =>
        refine ⟨inv.lodged.congr rfl (fun _ => rfl) (by rw [at_]; rfl), ?_⟩
        exact inv.outstanding.shrink rfl rfl (by simp [Task.after, Hold.token])
          (by simp [Task.after, Hold.unposted]) fun _ _ back => back
  | drain c d =>
    refine ⟨inv.lodged.drain _ (inv.lodged.listOnce c d) (fun _ inside => inside)
      (by simp) (by simp)
      rfl _, ?_⟩
    refine inv.outstanding.shrink rfl rfl (fun _ has => has) (fun _ has => has) ?_
    intro p inside back
    rcases List.mem_append.mp back with before | drained
    · exact before
    · exact absurd rfl (orderly p.record drained p inside)
  | closeSocket c =>
    simp only [Shared.perform]
    split
    · exact inv.neutral rfl (fun _ => rfl) rfl rfl
    · exact inv.neutral rfl (fun _ => setSocket_list ..) rfl rfl
  | initClient c sock => exact inv.neutral rfl (fun _ => setSocket_list ..) rfl rfl
  | createIoCompletionPort sock c =>
    simp only [Shared.perform]
    split
    · exact inv.neutral rfl (fun _ => rfl) rfl rfl
    · split
      · exact inv.neutral rfl (fun _ => rfl) rfl rfl
      · exact inv.neutral rfl (fun _ => rfl) rfl rfl
  | eraseRealClient c => exact inv.neutral rfl (fun _ => rfl) rfl (after_eraseRealClient ..).1
  | buf _ | isType _ _ | getFreeClient | addRealClient _ | pushFreeClient _ | realClients
  | clearRealClients | getMemBlock | releaseMemBlock _ =>
    exact inv.neutral rfl (fun _ => rfl) rfl rfl

theorem enter (inv : Inv s own) {e : Event ⊕ Request} {p : Call Unit}
    (idle : (own t).hold = .nothing) (entered : enterAny s e = some (s', l, p)) :
    Inv s' (Function.update own t l) := by
  rcases enterAny_cases entered with entered | ⟨d, buffer, length, -⟩
  · cases entered with
    | invalid | accepted | closed => exact inv.neutral rfl (fun _ => rfl) rfl idle.symm
    | dequeued lasterr transferred key pending =>
      exact ⟨inv.lodged.congr rfl (fun _ => rfl) (by rw [idle]; rfl),
        inv.outstanding.dequeue pending rfl⟩
  · exact inv.neutral rfl (fun _ => rfl) rfl idle.symm

end Inv

omit [DecidableEq T] in
theorem Initial.inv (first : Initial s) : Inv s (fun _ : T => {}) := by
  refine ⟨⟨⟨?_, ?_, ?_⟩, ?_, ?_⟩, ?_⟩
  · intro p r here
    cases p <;> simp_all [RecordAt, Hold.body, first.m_FreeList, first.clients]
  · intro p q r here there
    cases p <;> cases q <;> simp_all [RecordAt, Hold.body, first.clients]
  · exact fun r known => ⟨.list, by simpa [RecordAt, first.m_FreeList] using known⟩
  · simpa [first.m_FreeList] using List.nodup_range
  · simp [first.clients]
  · constructor <;> simp [first.pending, Hold.token]

/-- Every record is in the free list at most once, and never while an operation that was
posted with it has not been dequeued. -/
structure Sound (s : Shared) : Prop where
  freeOnce : s.m_FreeList.free.Nodup
  completed : ∀ p ∈ s.pending, p.record ∉ s.m_FreeList.free

omit [DecidableEq T] in
theorem Inv.sound (inv : Inv s own) : Sound s :=
  ⟨inv.lodged.freeOnce, fun p inside => (inv.outstanding.pendingBusy p inside).1⟩

theorem enterAny_follows {e : Event ⊕ Request} {p : Call Unit}
    (entered : enterAny s e = some (s', l, p)) :
    p.Follows (discipline False) l (fun _ => Done False) := by
  cases e with
  | inl e => exact enter_follows entered
  | inr request =>
    simp only [enterAny, Option.ite_none_right_eq_some] at entered
    obtain ⟨-, ⟨⟩⟩ := entered
    refine Follows.bind ((transfer_follows _ _ _ _ rfl (by simp)).mono ?_)
    exact fun _ _ done => ⟨done.1, False.elim⟩

theorem free_soundly {s : Config T Shared Task Op Res}
    (run : (systemAny T).ReachableUnder (Semantics.Guarded Orderly) s) : Sound s.shared := by
  have resting : Done False {} := ⟨rfl, False.elim⟩
  have held := Semantics.follows_of_run (I := Inv) (discipline False) resting ?_ ?_ ?_ run
  · exact held.1.sound
  · exact fun s first => first.inv
  · intro s own t e s' l p inv done entered
    exact ⟨inv.enter done.1 entered, enterAny_follows entered⟩
  · intro s own t op choice s' l r inv needs orderly performed
    simp only [semanticsAny, Server.step, Option.some.injEq, Prod.mk.injEq] at performed
    obtain ⟨rfl, rfl, rfl⟩ := performed
    exact ⟨inv.step needs.1 orderly, rfl, False.elim⟩

instance [Fintype T] (s : Shared) (own : T → Task) (t : T) (op : Op) (choice : Choice) :
    Decidable (Orderly s own t op choice) :=
  match op with
  | .drain c d =>
    inferInstanceAs (Decidable (∀ r ∈ (s.clients c).list d, ∀ p ∈ s.pending, p.record ≠ r))
  | .getIOOperData =>
    inferInstanceAs (Decidable (∀ t, (own t).hold.token ≠ some (s.m_FreeList.take 1000).1))
  | .releaseIOOperData _ | .memset _ | .store _ _ | .switch _ | .operType _ | .buf _ | .isType _ _
  | .post _ _ _ | .insert _ _ _ | .erase _ _ _ | .findErase _ _ _ | .closeSocket _
  | .getFreeClient | .initClient _ _ | .addRealClient _ | .eraseRealClient _ | .pushFreeClient _
  | .realClients | .clearRealClients | .createIoCompletionPort _ _ | .getMemBlock |
    .releaseMemBlock _ => .isTrue trivial

/-- An accept thread and a worker thread of a server that has just started. -/
def started : Config Bool Shared Task Op Res where
  shared := ⟨fun _ => .zero, ⟨List.range 1000, 1000⟩, fun _ => ⟨none, fun _ => []⟩,
    ⟨List.range 1000, 1000⟩, [], ⟨[], NULL + 1⟩, 0, [], fun _ => none, [], fun _ => 0⟩
  own _ := {}
  code _ := .ret ()

theorem started_initial : Initial started.shared ∧ ∀ t, started.own t = {} ∧
    started.code t = .ret () :=
  ⟨⟨rfl, rfl, fun _ => rfl, rfl, rfl, ⟨rfl, rfl, rfl⟩, rfl⟩, fun _ => ⟨rfl, rfl⟩⟩

/-- A call and all its operations. -/
def calling {E : Type} (t : Bool) (e : E) (steps : Nat) : List (Label Bool Choice E) :=
  .enter t e :: List.replicate steps (.step t {})

/-- An operation of the first connection of the server. -/
def first (record : Record) : Posted := ⟨record, 0, 0, 1⟩

/-- A client connects and its first message is echoed: a send and the next read are
pending. -/
def echoing {E : Type} (event : Event → E) : List (Label Bool Choice E) :=
  calling false (event (.accept false)) 12 ++ calling true (event (.dequeue (first 0) none 5)) 22

/-- The send completes before the client closes. -/
def replied {E : Type} (event : Event → E) : List (Label Bool Choice E) :=
  echoing event ++ calling true (event (.dequeue (first 1) none 19)) 9 ++
    calling true (event (.dequeue (first 2) none 0)) 13

theorem replied_runs :
    ((systemAny Bool).runUnder (Semantics.Guarded Orderly) started (replied .inl)).map
      (fun s => (s.shared.pending, s.shared.m_FreeClientList.free.drop 999)) = some ([], [0]) := by
  decide +kernel

theorem free_after_reply :
    ∃ s, (systemAny Bool).runUnder (Semantics.Guarded Orderly) started (replied .inl) = some s ∧
      s.shared.pending = [] ∧ Sound s.shared := by
  obtain ⟨s, ran, ended⟩ := Option.map_eq_some_iff.mp replied_runs
  exact ⟨s, ran, congrArg Prod.fst ended,
    free_soundly (System.runUnder_reachable (.initial started_initial) ran)⟩

/-- The client closes while the send is pending. -/
def abandoned {E : Type} (event : Event → E) : List (Label Bool Choice E) :=
  echoing event ++ calling true (event (.dequeue (first 2) none 0)) 13

theorem abandoned_runs :
    ((systemAny Bool).run started (abandoned .inl)).map
      (fun s => decide (first 1 ∈ s.shared.pending ∧ 1 ∈ s.shared.m_FreeList.free)) =
        some true := by
  decide +kernel

theorem free_while_pending : ¬ ∀ s, (systemAny Bool).Reachable s → Sound s.shared := by
  intro sound
  obtain ⟨s, ran, ended⟩ := Option.map_eq_some_iff.mp abandoned_runs
  obtain ⟨pending, free⟩ := of_decide_eq_true ended
  have reached := System.run_reachable (.initial started_initial) ran
  exact (sound s reached).completed (first 1) pending free

end TestIOCP.Server
