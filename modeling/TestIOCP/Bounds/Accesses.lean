import TestIOCP.CompletionPort
import TestIOCP.Rtsp.Lines

/-! Which bytes of which array the server reads and writes while it takes a chunk apart.
Each function here follows the one that it is named after, and collects the indices that
that one uses. -/
namespace TestIOCP.Bounds
open CString Rtsp

/-- A buffer with the reference count before its bytes, the bytes of a chunk with their
terminator, and m_LineBuf. -/
inductive Memory where
  | allocation
  | chunk (datasize : Nat)
  | lineBuf
  deriving DecidableEq, Repr

def Memory.size : Memory → Nat
  | .allocation => RECVBUFSIZE
  | .chunk datasize => datasize + 1
  | .lineBuf => LINEBUFSIZE

/-- Bytes that are read or written. The first index is negative if it is before the array. -/
structure Access where
  memory : Memory
  first : Int
  length : Nat
  deriving DecidableEq, Repr

def Access.InRange (a : Access) : Prop :=
  0 ≤ a.first ∧ a.first + a.length ≤ a.memory.size

instance (a : Access) : Decidable a.InRange := inferInstanceAs (Decidable (_ ∧ _))

/-- Where the next byte of the line goes. -/
def index (s : Scan) : Nat :=
  if 1 + s.linelen > LINEBUFSIZE then 0 else s.linelen

/-- Each pass of the loop reads one byte of the chunk and writes one of the line. -/
def runAccesses (datasize : Nat) (s : Scan) : List Byte → List Access
  | [] => []
  | c :: rest =>
    ⟨.chunk datasize, s.idx, 1⟩ ::
      match s.step c with
      | (true, _) => [⟨.lineBuf, s.linelen - 1, 1⟩]
      | (false, s') => ⟨.lineBuf, index s, 1⟩ :: runAccesses datasize s' rest

/-- How many bytes of an unfinished line read_line takes over. -/
def carried (r : RtspServer) : Nat :=
  if r.m_nTempDataSize ≥ LINEBUFSIZE then 0 else r.m_nTempDataSize

/-- The local variables before the loop of read_line. -/
def entering (r : RtspServer) (readpos : Nat) : Scan where
  idx := readpos
  breturn := false
  bnext := false
  linelen := 0
  plinebuf := if 0 < carried r then
    r.m_LineBuf.copy ((r.m_pTempDataBuf.getD []).take (carried r)) else r.m_LineBuf

def readLineAccesses (r : RtspServer) (pdatabuf : List Byte) (readpos : Nat) : List Access :=
  let m_nTempDataSize := 0
  -- the byte that is tested is at m_nTempDataSize - 1, and the size has been cleared
  (if 0 < carried r then [⟨.lineBuf, 0, carried r⟩, ⟨.lineBuf, m_nTempDataSize - 1, 1⟩] else []) ++
    runAccesses pdatabuf.length (entering r readpos) (unread pdatabuf readpos) ++
    match (entering r readpos).run (unread pdatabuf readpos) with
    | (true, _) => []
    | (false, s) => [⟨.lineBuf, 0, s.linelen⟩]

def processAccesses (env : Env) (pdatabuf : List Byte) : Nat → RtspServer → Locals →
    Nat → List Access
  | 0, _, _, _ => []
  | fuel + 1, r, v, readpos =>
    let line := read_line r pdatabuf readpos
    readLineAccesses r pdatabuf readpos ++
      if line.ret < 0 then []
      else
        let r := line.server
        let (session, v, _) := process_line env r.toSession v line.readpos line.linelen
          r.m_LineBuf.string
        if line.readpos = pdatabuf.length then []
        else processAccesses env pdatabuf fuel { r with toSession := session } v line.readpos

/-- ReadedDataProcess stores the terminator first. -/
def readedDataProcessAccesses (env : Env) (r : RtspServer) (pdatabuf : List Byte) : List Access :=
  ⟨.allocation, 4 + pdatabuf.length, 1⟩ ::
    processAccesses env pdatabuf (pdatabuf.length + 1) r ⟨env.uri, env.method⟩ 0

theorem entering_eq (r : RtspServer) (readpos : Nat) :
    entering r readpos = ⟨readpos, false, false, 0, r.takenOver⟩ := by
  by_cases large : LINEBUFSIZE ≤ r.m_nTempDataSize
  · simp [entering, carried, RtspServer.takenOver, large, Nat.not_lt.mpr large]
  · simp [entering, carried, RtspServer.takenOver, large, Nat.not_le.mp large]

/-- read_line is its loop, from where it enters it. -/
theorem read_line_entering (r : RtspServer) (pdatabuf : List Byte) (readpos : Nat) :
    ∃ r' : RtspServer, r'.m_nTempDataSize = 0 ∧ read_line r pdatabuf readpos =
      match (entering r readpos).run (unread pdatabuf readpos) with
      | (true, s) => ⟨0, { r' with m_LineBuf := s.plinebuf }, s.idx, s.linelen⟩
      | (false, s) =>
        if s.linelen > 0 then
          ⟨-1, { r' with
            m_LineBuf := s.plinebuf
            m_nTempDataSize := s.linelen
            m_pTempDataBuf := some (s.plinebuf.bytes.take s.linelen) }, readpos, 0⟩
        else ⟨-1, { r' with m_LineBuf := s.plinebuf }, readpos, 0⟩ := by
  refine ⟨r.cleared, r.m_nTempDataSize_cleared, ?_⟩
  rw [entering_eq]
  exact read_line_start r pdatabuf readpos

theorem index_lt (s : Scan) : index s < LINEBUFSIZE := by
  simp only [index]
  split
  · decide
  · omega

/-- A pass that goes on has put one byte. -/
theorem step_goesOn {s s' : Scan} {c : Byte} (stepped : s.step c = (false, s')) :
    s'.idx = s.idx + 1 ∧ s'.linelen = index s + 1 := by
  simp only [Scan.step] at stepped
  split at stepped
  · split at stepped
    · cases stepped
    · cases stepped
      exact ⟨rfl, rfl⟩
  · split at stepped
    · split at stepped
      · cases stepped
      · cases stepped
        exact ⟨rfl, rfl⟩
    · split at stepped
      · cases stepped
        exact ⟨rfl, rfl⟩
      · split at stepped <;>
        · cases stepped
          exact ⟨rfl, rfl⟩

/-- A line ends after a byte that was put. -/
theorem step_ends {s s' : Scan} {c : Byte} (stepped : s.step c = (true, s')) :
    s.breturn = true ∨ s.bnext = true := by
  simp only [Scan.step] at stepped
  split at stepped
  · split at stepped
    · exact .inr ‹_›
    · cases stepped
  · split at stepped
    · split at stepped
      · exact .inl ‹_›
      · cases stepped
    · split at stepped
      · cases stepped
      · split at stepped <;> cases stepped

/-- The loop stays in its arrays, however long the line gets. -/
theorem run_inRange {datasize : Nat} {s : Scan} {data : List Byte} (bound : s.linelen ≤ LINEBUFSIZE)
    (started : s.breturn = true ∨ s.bnext = true → 0 < s.linelen)
    (room : s.idx + data.length ≤ datasize + 1) :
    ∀ a ∈ runAccesses datasize s data, a.InRange := by
  induction data generalizing s with
  | nil => exact List.forall_mem_nil _
  | cons c rest ih =>
    simp only [List.length_cons] at room
    have read : Access.InRange ⟨.chunk datasize, s.idx, 1⟩ := by
      simp only [Access.InRange, Memory.size]
      omega
    have small := index_lt s
    simp only [runAccesses]
    split
    · rename_i stepped
      have positive := started (step_ends stepped)
      refine List.forall_mem_cons.mpr ⟨read, List.forall_mem_singleton.mpr ?_⟩
      simp only [Access.InRange, Memory.size]
      omega
    · rename_i s' stepped
      obtain ⟨idx, linelen⟩ := step_goesOn stepped
      refine List.forall_mem_cons.mpr ⟨read,
        List.forall_mem_cons.mpr ⟨?_, ih (by omega) (fun _ => by omega) (by omega)⟩⟩
      simp only [Access.InRange, Memory.size]
      omega

theorem run_bound {s s' : Scan} {data : List Byte} (bound : s.linelen ≤ LINEBUFSIZE)
    (ran : s.run data = (false, s')) : s'.linelen ≤ LINEBUFSIZE := by
  induction data generalizing s with
  | nil =>
    cases ran
    exact bound
  | cons c rest ih =>
    simp only [Scan.run] at ran
    split at ran
    · cases ran
    · rename_i stepped
      have small := index_lt s
      obtain ⟨-, linelen⟩ := step_goesOn stepped
      exact ih (by omega) ran

/-- read_line without carried bytes. -/
theorem readLine_inRange {r : RtspServer} {pdatabuf : List Byte} {readpos : Nat}
    (nothing : carried r = 0)
    (within : readpos ≤ pdatabuf.length) :
      ∀ a ∈ readLineAccesses r pdatabuf readpos, a.InRange := by
  have room : (entering r readpos).idx + (unread pdatabuf readpos).length ≤
      pdatabuf.length + 1 := by
    simp only [entering, unread]
    split
    · simpa using within
    · simp only [List.length_drop]
      omega
  have loop := run_inRange (s := entering r readpos) (Nat.zero_le _) (by simp [entering]) room
  simp only [readLineAccesses, nothing, Nat.lt_irrefl, if_false, List.nil_append]
  refine List.forall_mem_append.mpr ⟨loop, ?_⟩
  split
  · exact List.forall_mem_nil _
  · rename_i ran
    have bound := run_bound (s := entering r readpos) (Nat.zero_le _) ran
    refine List.forall_mem_singleton.mpr ?_
    simp only [Access.InRange, Memory.size]
    omega

/-- read_line with carried bytes looks at the byte before the line buffer. -/
theorem readLine_outOfRange {r : RtspServer} (some_ : 0 < carried r) (pdatabuf : List Byte)
    (readpos : Nat) :
    ∃ a ∈ readLineAccesses r pdatabuf readpos, ¬ a.InRange := by
  refine ⟨⟨.lineBuf, 0 - 1, 1⟩, ?_, by decide⟩
  simp [readLineAccesses, some_]

/-- After a complete line nothing is carried, and the position is in the chunk. -/
theorem read_line_found {r : RtspServer} {pdatabuf : List Byte} {readpos : Nat}
    (found : ¬ (read_line r pdatabuf readpos).ret < 0) :
      carried (read_line r pdatabuf readpos).server = 0 ∧
      (read_line r pdatabuf readpos).readpos ≤ pdatabuf.length := by
  constructor
  · obtain ⟨r', cleared, same⟩ := read_line_entering r pdatabuf readpos
    rw [same] at found ⊢
    split
    · simp [carried, cleared]
    · rename_i ran
      rw [ran] at found
      simp only at found
      split at found <;> exact absurd (show (-1 : Int) < 0 by decide) found
  · obtain ⟨-, spec⟩ := read_line_spec r pdatabuf readpos
    split at spec
    · have place := spec.2.2.2
      omega
    · rw [spec] at found
      exact absurd (by decide) found

/-- The later lines of a chunk find nothing carried. -/
theorem process_inRange (env : Env) {pdatabuf : List Byte} {fuel : Nat} {r : RtspServer}
    {v : Locals} {readpos : Nat}
    (nothing : carried r = 0) (within : readpos ≤ pdatabuf.length) :
    ∀ a ∈ processAccesses env pdatabuf fuel r v readpos, a.InRange := by
  induction fuel generalizing r v readpos with
  | zero => exact List.forall_mem_nil _
  | succ fuel ih =>
    simp only [processAccesses]
    refine List.forall_mem_append.mpr ⟨readLine_inRange nothing within, ?_⟩
    split
    · exact List.forall_mem_nil _
    rename_i found
    obtain ⟨nothing, within⟩ := read_line_found found
    split
    · exact List.forall_mem_nil _
    · exact ih nothing within

/-- A chunk is taken apart within its arrays if it leaves room for the terminator and
completes no line of the chunk before. -/
theorem readedDataProcess_inRange_iff (env : Env) (r : RtspServer) (pdatabuf : List Byte) :
    (∀ a ∈ readedDataProcessAccesses env r pdatabuf, a.InRange) ↔
      pdatabuf.length < RECVBUFSIZE - 4 ∧ carried r = 0 := by
  have terminator : Access.InRange ⟨.allocation, 4 + pdatabuf.length, 1⟩ ↔
      pdatabuf.length < RECVBUFSIZE - 4 := by
    simp only [Access.InRange, Memory.size, RECVBUFSIZE]
    omega
  rw [readedDataProcessAccesses, List.forall_mem_cons, terminator]
  refine and_congr_right fun _ =>
    ⟨fun all => ?_, fun nothing => process_inRange env nothing (Nat.zero_le _)⟩
  by_contra some_
  obtain ⟨a, inside, out⟩ := readLine_outOfRange (Nat.pos_of_ne_zero some_) pdatabuf 0
  simp only [processAccesses] at all
  exact out (all a (List.mem_append_left _ inside))

end TestIOCP.Bounds
