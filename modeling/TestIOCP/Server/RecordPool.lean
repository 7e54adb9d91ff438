import TestIOCP.Server.Machine
import TestIOCP.Transition

/-! The records of CTcpIOCPTool over the life of the servers. Its members are static, but
each server that is created initialises them and each that is destroyed deletes them. A
record is a number, and a slab holds the numbers from its first one on; numbers of deleted
slabs are not used again. -/
namespace TestIOCP.Server.RecordPool
open Transition

/-- How often it was initialised and deleted. -/
structure CRITICAL_SECTION where
  initialised : Nat := 0
  deleted : Nat := 0

def CRITICAL_SECTION.Usable (cs : CRITICAL_SECTION) : Prop :=
  cs.deleted < cs.initialised

instance (cs : CRITICAL_SECTION) : Decidable cs.Usable :=
  inferInstanceAs (Decidable (_ < _))

/-- An array that new has returned. -/
structure Slab where
  first : Record
  count : Nat

instance : Membership Record Slab where
  mem slab r := slab.first ≤ r ∧ r < slab.first + slab.count

structure CTcpIOCPTool where
  m_bInited : Bool := false
  m_BigList : List Slab := []
  m_FreeList : Pool := ⟨[], 0⟩
  m_FreeSection : CRITICAL_SECTION := {}

namespace CTcpIOCPTool

/-- The slab of a record is not deleted. -/
def Holds (tool : CTcpIOCPTool) (r : Record) : Prop :=
  ∃ slab ∈ tool.m_BigList, r ∈ slab

/-- Whether new finds the memory is a parameter. -/
def initObj (tool : CTcpIOCPTool) (maxconnectnums : Nat) (room : Bool) : CTcpIOCPTool :=
  if tool.m_bInited then tool
  else
    let tool := { tool with
      m_bInited := true
      m_FreeSection.initialised := tool.m_FreeSection.initialised + 1 }
    if room then
      let pdata := tool.m_FreeList.allocated
      { tool with
        m_BigList := tool.m_BigList ++ [⟨pdata, maxconnectnums⟩]
        m_FreeList := ⟨tool.m_FreeList.free ++ List.range' pdata maxconnectnums,
          pdata + maxconnectnums⟩ }
    else tool

def uninitObj (tool : CTcpIOCPTool) : CTcpIOCPTool :=
  { tool with
    m_BigList := []
    m_FreeSection.deleted := tool.m_FreeSection.deleted + 1 }

def getIOOperData (tool : CTcpIOCPTool) (room : Bool) : CTcpIOCPTool × Option Record :=
  match tool.m_FreeList.free with
  | pdata :: rest => ({ tool with m_FreeList.free := rest }, some pdata)
  | [] =>
    if room then
      let pdata := tool.m_FreeList.allocated
      ({ tool with
          m_BigList := tool.m_BigList ++ [⟨pdata, 1000⟩]
          m_FreeList := ⟨List.range' (pdata + 1) 999, pdata + 1000⟩ },
        some pdata)
    else (tool, none)

def releaseIOOperData (tool : CTcpIOCPTool) (pdata : Record) : CTcpIOCPTool :=
  { tool with m_FreeList := tool.m_FreeList.give [pdata] }

/-- The list is the pool of the other server modules. -/
theorem getIOOperData_pool (tool : CTcpIOCPTool) :
    (tool.getIOOperData true).1.m_FreeList = (tool.m_FreeList.take 1000).2 ∧
      (tool.getIOOperData true).2 = some (tool.m_FreeList.take 1000).1 := by
  obtain ⟨m_bInited, m_BigList, ⟨free, allocated⟩, m_FreeSection⟩ := tool
  cases free with
  | nil => exact ⟨rfl, rfl⟩
  | cons pdata rest => exact ⟨rfl, rfl⟩

end CTcpIOCPTool

/-- The statics, how many servers there are and how many have been destroyed, and the
records that GetIOOperData has returned. -/
structure Process where
  tool : CTcpIOCPTool := {}
  servers : Nat := 0
  destroyed : Nat := 0
  returned : List Record := []

/-- CTcpIOCPServerImp::InitServer, of what concerns the records. -/
def initServer (tool : CTcpIOCPTool) (plocalip : Option (List (BitVec 16))) (pconsumer : Nat)
    (room : Bool) : CTcpIOCPTool × Int :=
  match plocalip with
  | none => (tool, -1)
  | some plocalip =>
    if 15 < plocalip.length then (tool, -2)
    else if pconsumer = NULL then (tool, -3)
    else (tool.initObj 1000 room, 0)

inductive Event where
  | createServer (ip : Option (List (BitVec 16))) (pconsumer : Nat) (room : Bool)
  | getIOOperData (room : Bool)
  | releaseIOOperData (pdata : Record)
  | destroyServer

/-- A server that is not initialised is not returned. A record that is released was
returned before; what StopService releases and gets are events of their own. -/
def next (s : Process) : Event → Option Process
  | .createServer ip pconsumer room =>
    let (tool, ret) := initServer s.tool ip pconsumer room
    if ret < 0 then some { s with tool }
    else some { s with tool, servers := s.servers + 1 }
  | .getIOOperData room =>
    let (tool, pdata) := s.tool.getIOOperData room
    some { s with tool, returned := s.returned ++ pdata.toList }
  | .releaseIOOperData pdata =>
    if pdata ∈ s.returned then some { s with tool := s.tool.releaseIOOperData pdata } else none
  | .destroyServer =>
    if 0 < s.servers then
      some { s with
        tool := s.tool.uninitObj, servers := s.servers - 1, destroyed := s.destroyed + 1 }
    else none

def system : System Process Event where
  initial s := s = {}
  next := next

/-- The calls that enter m_FreeSection. -/
def Event.Enters : Event → Prop
  | .getIOOperData _ | .releaseIOOperData _ => True
  | .createServer _ _ _ | .destroyServer => False

structure Sound (s : Process) (e : Event) (s' : Process) : Prop where
  listed : ∀ r ∈ s'.tool.m_FreeList.free, s'.tool.Holds r
  returned : ∀ room, e = .getIOOperData room → 0 < s.servers →
    ∀ r, (s.tool.getIOOperData room).2 = some r → s'.tool.Holds r
  entered : e.Enters → s.tool.m_FreeSection.Usable
  once : s'.tool.m_FreeSection.deleted ≤ s'.tool.m_FreeSection.initialised

/-- No server has been destroyed, and one has been created before a record is asked for or
released, and a server is destroyed when the list is empty. -/
def Permits (s : Process) : Event → Prop
  | .createServer _ _ _ => True
  | .getIOOperData _ | .releaseIOOperData _ => s.tool.m_bInited = true ∧ s.destroyed = 0
  | .destroyServer => s.tool.m_FreeList.free = [] ∧ s.destroyed = 0

/-! ### The records of the list -/

namespace CTcpIOCPTool
variable {tool : CTcpIOCPTool} {r : Record}

/-- Slabs are only added, and what is new on the list is in a new slab. -/
theorem initObj_holds (maxconnectnums : Nat) (room : Bool) :
    (∀ r, tool.Holds r → (tool.initObj maxconnectnums room).Holds r) ∧
      ∀ r ∈ (tool.initObj maxconnectnums room).m_FreeList.free,
        r ∈ tool.m_FreeList.free ∨ (tool.initObj maxconnectnums room).Holds r := by
  rw [initObj]
  split
  · exact ⟨fun _ held => held, fun _ listed => .inl listed⟩
  cases room with
  | false => exact ⟨fun _ held => held, fun _ listed => .inl listed⟩
  | true =>
    simp only [if_true]
    constructor
    · rintro r ⟨slab, listed, inside⟩
      exact ⟨slab, List.mem_append_left _ listed, inside⟩
    · intro r listed
      refine (List.mem_append.mp listed).imp_right fun new => ?_
      obtain ⟨low, high⟩ := List.mem_range'_1.mp new
      exact ⟨_, List.mem_append_right _ (List.mem_singleton_self _), low, high⟩

theorem getIOOperData_holds (room : Bool) (listed : ∀ r ∈ tool.m_FreeList.free, tool.Holds r) :
    (∀ r, tool.Holds r → (tool.getIOOperData room).1.Holds r) ∧
      (∀ r ∈ (tool.getIOOperData room).1.m_FreeList.free, (tool.getIOOperData room).1.Holds r) ∧
      ∀ r, (tool.getIOOperData room).2 = some r → (tool.getIOOperData room).1.Holds r := by
  rw [getIOOperData]
  split
  · rename_i pdata rest free
    refine ⟨fun _ held => held, fun r inside => ?_, ?_⟩
    · exact listed r (free ▸ List.mem_cons_of_mem pdata inside)
    · intro r got
      cases got
      exact listed pdata (free ▸ List.mem_cons_self)
  · cases room with
    | false =>
      refine ⟨fun _ held => held, listed, ?_⟩
      intro r got
      cases got
    | true =>
      simp only [if_true]
      have new {r : Record} (low : tool.m_FreeList.allocated ≤ r)
          (high : r < tool.m_FreeList.allocated + 1000) :
          ∃ slab ∈ tool.m_BigList ++ [⟨tool.m_FreeList.allocated, 1000⟩], r ∈ slab :=
        ⟨_, List.mem_append_right _ (List.mem_singleton_self _), low, high⟩
      refine ⟨?_, ?_, ?_⟩
      · rintro r ⟨slab, listed, inside⟩
        exact ⟨slab, List.mem_append_left _ listed, inside⟩
      · intro r listed
        obtain ⟨low, high⟩ := List.mem_range'_1.mp listed
        exact new (by omega) (by omega)
      · intro r got
        cases got
        exact new (Nat.le_refl _) (Nat.lt_add_of_pos_right (by decide))

end CTcpIOCPTool

/-- What holds in every run: the section was initialised with the tool, and each destroyed
server has deleted it; up to then the slabs of all records are there. -/
structure Kept (s : Process) : Prop where
  initialised : s.tool.m_FreeSection.initialised = if s.tool.m_bInited then 1 else 0
  deleted : s.tool.m_FreeSection.deleted = s.destroyed
  inited : 0 < s.servers → s.tool.m_bInited = true
  listed : s.destroyed = 0 → ∀ r ∈ s.tool.m_FreeList.free, s.tool.Holds r
  returned : s.destroyed = 0 → ∀ r ∈ s.returned, s.tool.Holds r

theorem initObj_section (tool : CTcpIOCPTool) (maxconnectnums : Nat) (room : Bool) :
    (tool.initObj maxconnectnums room).m_bInited = true ∧
      (tool.initObj maxconnectnums room).m_FreeSection.deleted = tool.m_FreeSection.deleted ∧
      (tool.initObj maxconnectnums room).m_FreeSection.initialised =
        tool.m_FreeSection.initialised + if tool.m_bInited then 0 else 1 := by
  rw [CTcpIOCPTool.initObj]
  cases inited : tool.m_bInited with
  | true => exact ⟨inited, rfl, rfl⟩
  | false => cases room <;> exact ⟨rfl, rfl, rfl⟩

theorem getIOOperData_section (tool : CTcpIOCPTool) (room : Bool) :
    (tool.getIOOperData room).1.m_bInited = tool.m_bInited ∧
      (tool.getIOOperData room).1.m_FreeSection = tool.m_FreeSection := by
  rw [CTcpIOCPTool.getIOOperData]
  split
  · exact ⟨rfl, rfl⟩
  · cases room <;> exact ⟨rfl, rfl⟩

/-- What CreateServer does to the tool: nothing, or InitObj. -/
theorem createServer_cases {s s' : Process} {ip : Option (List (BitVec 16))} {pconsumer : Nat}
    {room : Bool} (taken : next s (.createServer ip pconsumer room) = some s') :
    s' = s ∨ s' = { s with tool := s.tool.initObj 1000 room, servers := s.servers + 1 } := by
  simp only [next, initServer] at taken
  split at taken
  · exact .inl (Option.some.inj taken).symm
  · split at taken
    · exact .inl (Option.some.inj taken).symm
    · split at taken
      · exact .inl (Option.some.inj taken).symm
      · exact .inr (Option.some.inj taken).symm

theorem getIOOperData_cases {s s' : Process} {room : Bool}
    (taken : next s (.getIOOperData room) = some s') :
    s' = { s with
      tool := (s.tool.getIOOperData room).1
      returned := s.returned ++ (s.tool.getIOOperData room).2.toList } :=
  (Option.some.inj taken).symm

/-- The other calls are made only where they can be. -/
theorem releaseIOOperData_cases {s s' : Process} {pdata : Record}
    (taken : next s (.releaseIOOperData pdata) = some s') :
    pdata ∈ s.returned ∧ s' = { s with tool := s.tool.releaseIOOperData pdata } := by
  simp only [next] at taken
  split at taken
  · rename_i got
    exact ⟨got, (Option.some.inj taken).symm⟩
  · cases taken

theorem destroyServer_cases {s s' : Process} (taken : next s .destroyServer = some s') :
    0 < s.servers ∧ s' = { s with
      tool := s.tool.uninitObj, servers := s.servers - 1, destroyed := s.destroyed + 1 } := by
  simp only [next] at taken
  split at taken
  · rename_i some_
    exact ⟨some_, (Option.some.inj taken).symm⟩
  · cases taken

theorem kept_next {s s' : Process} {e : Event} (kept : Kept s) (taken : next s e = some s') :
    Kept s' := by
  cases e with
  | createServer ip pconsumer room =>
    rcases createServer_cases taken with rfl | rfl
    · exact kept
    · obtain ⟨inited, deleted, initialised⟩ := initObj_section s.tool 1000 room
      obtain ⟨held, new⟩ := @CTcpIOCPTool.initObj_holds s.tool 1000 room
      refine ⟨?_, deleted.trans kept.deleted, fun _ => inited, ?_, ?_⟩
      · simp only [initialised, inited, kept.initialised]
        cases s.tool.m_bInited <;> rfl
      · intro none_ r listed
        rcases new r listed with old | new
        · exact held r (kept.listed none_ r old)
        · exact new
      · exact fun none_ r got => held r (kept.returned none_ r got)
  | getIOOperData room =>
    obtain rfl := getIOOperData_cases taken
    obtain ⟨inited, section_⟩ := getIOOperData_section s.tool room
    refine ⟨?_, ?_, ?_, ?_, ?_⟩
    · simp only [section_, inited, kept.initialised]
    · simp only [section_, kept.deleted]
    · simp only [inited]
      exact kept.inited
    · intro none_
      exact (CTcpIOCPTool.getIOOperData_holds room (kept.listed none_)).2.1
    · intro none_ r got
      obtain ⟨held, -, new⟩ := CTcpIOCPTool.getIOOperData_holds room (kept.listed none_)
      rcases List.mem_append.mp got with old | last
      · exact held r (kept.returned none_ r old)
      · exact new r (by simpa using last)
  | releaseIOOperData pdata =>
    obtain ⟨got, rfl⟩ := releaseIOOperData_cases taken
    refine ⟨kept.initialised, kept.deleted, kept.inited, ?_, kept.returned⟩
    intro none_ r listed
    rcases List.mem_append.mp listed with old | last
    · exact kept.listed none_ r old
    · obtain rfl := List.mem_singleton.mp last
      exact kept.returned none_ r got
  | destroyServer =>
    obtain ⟨some_, rfl⟩ := destroyServer_cases taken
    refine ⟨kept.initialised, congrArg (· + 1) kept.deleted, fun _ => kept.inited some_, ?_, ?_⟩
    · exact fun none_ => absurd none_ (Nat.succ_ne_zero _)
    · exact fun none_ => absurd none_ (Nat.succ_ne_zero _)

/-- The section is there from the first creation to the first destruction. -/
theorem Kept.usable {s : Process} (kept : Kept s) :
    s.tool.m_FreeSection.Usable ↔ s.tool.m_bInited = true ∧ s.destroyed = 0 := by
  rw [CRITICAL_SECTION.Usable, kept.initialised, kept.deleted]
  cases s.tool.m_bInited with
  | true => simp
  | false => simp

theorem permits_of_sound {s s' : Process} {e : Event} (kept : Kept s)
    (taken : next s e = some s') (sound : Sound s e s') : Permits s e := by
  cases e with
  | createServer ip pconsumer room => trivial
  | getIOOperData room => exact kept.usable.mp (sound.entered trivial)
  | releaseIOOperData pdata => exact kept.usable.mp (sound.entered trivial)
  | destroyServer =>
    obtain ⟨-, rfl⟩ := destroyServer_cases taken
    constructor
    · -- What is still listed then has no slab any more.
      refine List.eq_nil_iff_forall_not_mem.mpr fun r listed => ?_
      obtain ⟨slab, deleted, -⟩ := sound.listed r listed
      cases deleted
    · have once : s.destroyed + 1 ≤ if s.tool.m_bInited then 1 else 0 := by
        rw [← kept.deleted, ← kept.initialised]
        exact sound.once
      split at once <;> omega

/-- After a permitted destruction there is no other, and the list stays empty. -/
structure Orderly (s : Process) : Prop extends Kept s where
  most : s.destroyed ≤ 1
  ended : 0 < s.destroyed → s.tool.m_bInited = true ∧ s.tool.m_FreeList.free = []

theorem orderly_next {s s' : Process} {e : Event} (orderly : Orderly s)
    (taken : next s e = some s') (permits : Permits s e) : Orderly s' := by
  have kept := kept_next orderly.toKept taken
  cases e with
  | createServer ip pconsumer room =>
    rcases createServer_cases taken with rfl | rfl
    · exact orderly
    · refine ⟨kept, orderly.most, fun some_ => ?_⟩
      obtain ⟨inited, none_⟩ := orderly.ended some_
      have same : s.tool.initObj 1000 room = s.tool := by
        rw [CTcpIOCPTool.initObj, if_pos inited]
      rw [same]
      exact ⟨inited, none_⟩
  | getIOOperData room =>
    obtain rfl := getIOOperData_cases taken
    exact ⟨kept, orderly.most, fun some_ => absurd permits.2 (Nat.ne_of_gt some_)⟩
  | releaseIOOperData pdata =>
    obtain ⟨-, rfl⟩ := releaseIOOperData_cases taken
    exact ⟨kept, orderly.most, fun some_ => absurd permits.2 (Nat.ne_of_gt some_)⟩
  | destroyServer =>
    obtain ⟨some_, rfl⟩ := destroyServer_cases taken
    obtain ⟨empty, first⟩ := permits
    exact ⟨kept, Nat.succ_le_succ (Nat.le_of_eq first), fun _ => ⟨orderly.inited some_, empty⟩⟩

theorem sound_of_permits {s s' : Process} {e : Event} (orderly : Orderly s)
    (taken : next s e = some s') (permits : Permits s e) : Sound s e s' := by
  have after := orderly_next orderly taken permits
  refine ⟨?_, ?_, ?_, ?_⟩
  · intro r listed
    rcases Nat.eq_zero_or_pos s'.destroyed with none_ | some_
    · exact after.listed none_ r listed
    · rw [(after.ended some_).2] at listed
      cases listed
  · rintro room rfl - r got
    obtain rfl := getIOOperData_cases taken
    exact (CTcpIOCPTool.getIOOperData_holds room (orderly.listed permits.2)).2.2 r got
  · intro enters
    cases e with
    | getIOOperData room => exact orderly.usable.mpr permits
    | releaseIOOperData pdata => exact orderly.usable.mpr permits
    | createServer ip pconsumer room => exact enters.elim
    | destroyServer => exact enters.elim
  · rw [after.deleted, after.initialised]
    rcases Nat.eq_zero_or_pos s'.destroyed with none_ | some_
    · rw [none_]
      exact Nat.zero_le _
    · rw [(after.ended some_).1]
      exact after.most

theorem orderly_initial : Orderly {} := by
  refine ⟨⟨rfl, rfl, ?_, ?_, ?_⟩, Nat.zero_le _, ?_⟩
  · exact fun some_ => absurd some_ (Nat.lt_irrefl 0)
  · rintro - r ⟨⟩
  · rintro - r ⟨⟩
  · exact fun some_ => absurd some_ (Nat.lt_irrefl 0)

/-- The pool is sound in exactly the runs in which each call is permitted. -/
theorem pool_sound_iff (events : List Event) :
    system.EveryStep Sound {} events ↔ system.EveryStep (fun s e _ => Permits s e) {} events := by
  constructor
  · intro sound
    refine sound.imp (fun s e s' (kept : Kept s) taken _ => kept_next kept taken) ?_
      orderly_initial.toKept
    exact fun s e s' kept taken sound => permits_of_sound kept taken sound
  · intro permitted
    refine permitted.imp (fun s e s' (orderly : Orderly s) taken permits => ?_) ?_ orderly_initial
    · exact orderly_next orderly taken permits
    · exact fun s e s' orderly taken permits => sound_of_permits orderly taken permits

/-- The address 127.0.0.1. -/
def localhost : Option (List (BitVec 16)) := some [49, 50, 55, 46, 48, 46, 48, 46, 49]

/-- A server is destroyed; of two servers one is destroyed and the other one gets a record,
or is destroyed as well; a server is created after that. -/
theorem pool_dangling :
    ¬ system.EveryStep Sound {} [.createServer localhost 1 true, .destroyServer] ∧
      (∃ s, system.run {} [.createServer localhost 1 true, .createServer localhost 1 true,
          .destroyServer] = some s ∧ 0 < s.servers ∧
        ∃ r, (s.tool.getIOOperData true).2 = some r ∧ ¬ (s.tool.getIOOperData true).1.Holds r) ∧
      (∃ s, system.run {} [.createServer localhost 1 true, .createServer localhost 1 true,
          .destroyServer, .destroyServer] = some s ∧
        s.tool.m_FreeSection.initialised < s.tool.m_FreeSection.deleted) ∧
      ∃ s, system.run {} [.createServer localhost 1 true, .destroyServer,
          .createServer localhost 1 true] = some s ∧ 0 < s.servers ∧
        ¬ s.tool.m_FreeSection.Usable := by
  have first : 0 ∈ List.range' 0 1000 := List.mem_range'_1.mpr (by decide)
  refine ⟨?_, ⟨_, rfl, by decide, 0, rfl, ?_⟩, ⟨_, rfl, by decide⟩, ⟨_, rfl, by decide, by decide⟩⟩
  · intro each
    obtain ⟨-, later⟩ := each _ rfl
    obtain ⟨sound, -⟩ := later _ rfl
    obtain ⟨slab, deleted, -⟩ := sound.listed 0 first
    cases deleted
  · rintro ⟨slab, deleted, -⟩
    cases deleted

end TestIOCP.Server.RecordPool
