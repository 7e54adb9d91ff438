import TestIOCP.Rtsp.Server

/-! The complete lines of a chunk. read_line works on indices, flags and a reused
buffer; here a line is the list of the bytes put since it started, and the server
reads the same lines. The bytes carried over from an earlier chunk do not matter:
read_line clears their number before it takes it as the length of the line. -/
namespace TestIOCP.Rtsp
open CString

/-- A line being read: the flags, and the bytes put so far. -/
structure Line where
  breturn : Bool := false
  bnext : Bool := false
  text : List Byte := []

namespace Line

def put (l : Line) (c : Byte) : Line :=
  { l with text := if 1 + l.text.length > LINEBUFSIZE then [c] else l.text ++ [c] }

/-- One byte, and whether it ends the line. -/
def step (l : Line) (c : Byte) : Bool × Line :=
  if c = CR then
    if l.bnext then (true, { l with text := l.text.dropLast })
    else (false, { l.put CR with breturn := true })
  else if c = LF then
    if l.breturn then (true, { l with text := l.text.dropLast })
    else (false, { l.put CR with bnext := true })
  else if l.breturn then (false, { l.put c with breturn := false })
  else if l.bnext then (false, { l.put c with bnext := false })
  else (false, l.put c)

/-- The first complete line, and the bytes after it. -/
def run (l : Line) : List Byte → Option (List Byte × List Byte)
  | [] => none
  | c :: rest =>
    match l.step c with
    | (true, l') => some (l'.text, rest)
    | (false, l') => l'.run rest

/-- The complete lines, each with the bytes after it. -/
def lines (l : Line) : List Byte → List (List Byte × List Byte)
  | [] => []
  | c :: rest =>
    match l.step c with
    | (true, l') => (l'.text, rest) :: lines {} rest
    | (false, l') => l'.lines rest

theorem lines_none {l : Line} {data : List Byte} (none_ : l.run data = none) :
    l.lines data = [] := by
  induction data generalizing l with
  | nil => rfl
  | cons c data ih =>
    simp only [run, lines] at none_ ⊢
    split at none_
    · cases none_
    · exact ih none_

theorem lines_some {l : Line} {data line rest : List Byte}
    (found : l.run data = some (line, rest)) :
    l.lines data = (line, rest) :: lines {} rest := by
  induction data generalizing l with
  | nil => cases found
  | cons c data ih =>
    simp only [run, lines] at found ⊢
    split at found
    · simp only [Option.some.injEq, Prod.mk.injEq] at found
      simp [found]
    · exact ih found

end Line

/-- The buffer holds the text. -/
structure Fits (s : Scan) (l : Line) : Prop where
  breturn : s.breturn = l.breturn
  bnext : s.bnext = l.bnext
  linelen : s.linelen = l.text.length
  text : s.plinebuf.bytes.take s.linelen = l.text
  bound : l.text.length ≤ LINEBUFSIZE

namespace Fits
variable {s : Scan} {l : Line}

theorem put (fits : Fits s l) (c : Byte) : Fits (s.put c) (l.put c) := by
  have size := s.plinebuf.size
  have bound := fits.bound
  have written : ∀ i < LINEBUFSIZE, (s.plinebuf.bytes.set i c).take (i + 1) =
      s.plinebuf.bytes.take i ++ [c] := by
    intro i small
    rw [List.take_succ_eq_append_getElem (by simp [size, small]),
      List.take_set_of_le (Nat.le_refl i)]
    simp
  refine ⟨fits.breturn, fits.bnext, ?_, ?_, ?_⟩
  all_goals
    simp only [Scan.put, Line.put, Buffer.set, fits.linelen]
    split
  · rfl
  · simp
  · simp [written 0 (by decide)]
  · rename_i room
    rw [written _ (by omega), ← fits.linelen, fits.text]
  · simp [LINEBUFSIZE]
  · simp only [List.length_append, List.length_singleton]
    omega

/-- A finished line is in the buffer, with a NUL. -/
theorem finish (fits : Fits s l) (started : l.text ≠ []) :
    s.finish.linelen = l.text.dropLast.length ∧
      s.finish.plinebuf.Keeps l.text.dropLast := by
  have positive : 0 < l.text.length := List.length_pos_iff.mpr started
  have size := s.plinebuf.size
  have bound := fits.bound
  have before : s.plinebuf.bytes.take (l.text.length - 1) = l.text.dropLast := by
    have text := fits.text
    rw [fits.linelen] at text
    rw [List.dropLast_eq_take, ← text, List.take_take, text]
    congr 1
    omega
  refine ⟨by simp [Scan.finish, fits.linelen], s.plinebuf.bytes.drop (l.text.length - 1 + 1), ?_⟩
  simp only [Scan.finish, Buffer.set, fits.linelen]
  rw [List.set_eq_take_append_cons_drop, if_pos (by omega), before]

/-- One pass of the loop of read_line does what a step of the line does. -/
theorem step (fits : Fits s l) (started : l.breturn = true ∨ l.bnext = true → l.text ≠ [])
    (c : Byte) : (s.step c).1 = (l.step c).1 ∧ (s.step c).2.idx = s.idx + 1 ∧
      if (l.step c).1 then (s.step c).2.linelen = (l.step c).2.text.length ∧
        (s.step c).2.plinebuf.Keeps (l.step c).2.text
      else Fits (s.step c).2 (l.step c).2 := by
  obtain ⟨idx, breturn, bnext, linelen, plinebuf⟩ := s
  obtain ⟨_, _, text⟩ := l
  obtain rfl := fits.breturn
  obtain rfl := fits.bnext
  have moved : Fits ⟨idx + 1, breturn, bnext, linelen, plinebuf⟩ ⟨breturn, bnext, text⟩ :=
    ⟨rfl, rfl, fits.linelen, fits.text, fits.bound⟩
  have flagged (c : Byte) (b n : Bool) :
      Fits { Scan.put ⟨idx + 1, breturn, bnext, linelen, plinebuf⟩ c with breturn := b, bnext := n }
        { Line.put ⟨breturn, bnext, text⟩ c with breturn := b, bnext := n } :=
    ⟨rfl, rfl, (moved.put c).linelen, (moved.put c).text, (moved.put c).bound⟩
  simp only [Scan.step, Line.step]
  split
  · split
    · rename_i next
      exact ⟨rfl, rfl, moved.finish (started (.inr next))⟩
    · exact ⟨rfl, rfl, flagged CR true bnext⟩
  · split
    · split
      · rename_i return_
        exact ⟨rfl, rfl, moved.finish (started (.inl return_))⟩
      · exact ⟨rfl, rfl, flagged CR breturn true⟩
    · split
      · exact ⟨rfl, rfl, flagged c false bnext⟩
      · split
        · exact ⟨rfl, rfl, flagged c breturn false⟩
        · exact ⟨rfl, rfl, moved.put c⟩

end Fits

namespace Line

/-- Flags are set only after a byte was put. -/
theorem step_started {l : Line} {c : Byte} (more : (l.step c).1 = false) :
    (l.step c).2.text ≠ [] := by
  have put (c : Byte) : (l.put c).text ≠ [] := by
    simp only [Line.put]
    split <;> simp
  revert more
  simp only [step]
  split
  · split <;> simp [put]
  · split
    · split <;> simp [put]
    · split
      · simp [put]
      · split <;> simp [put]

theorem run_shorter {l : Line} {data line rest : List Byte}
    (found : l.run data = some (line, rest)) :
    rest.length < data.length := by
  induction data generalizing l with
  | nil => simp [run] at found
  | cons c data ih =>
    simp only [run] at found
    split at found
    · obtain ⟨rfl, rfl⟩ : _ = line ∧ data = rest := by simpa using found
      simp
    · have := ih found
      simp only [List.length_cons]
      omega

theorem run_suffix {l : Line} {data line rest : List Byte}
    (found : l.run data = some (line, rest)) :
    rest <:+ data := by
  induction data generalizing l with
  | nil => simp [run] at found
  | cons c data ih =>
    simp only [run] at found
    split at found
    · obtain ⟨_, rfl⟩ : _ = line ∧ data = rest := by simpa using found
      exact List.suffix_cons c data
    · exact (ih found).trans (List.suffix_cons c data)

end Line

/-- The loop of read_line finds the same line. -/
theorem Fits.run {s : Scan} {l : Line} (fits : Fits s l)
    (started : l.breturn = true ∨ l.bnext = true → l.text ≠ []) (data : List Byte) :
    match l.run data with
    | some (line, rest) => ∃ s', s.run data = (true, s') ∧ s'.linelen = line.length ∧
        s'.plinebuf.Keeps line ∧ s'.idx + rest.length = s.idx + data.length
    | none => ∃ s', s.run data = (false, s') := by
  induction data generalizing s l with
  | nil => exact ⟨s, rfl⟩
  | cons c data ih =>
    obtain ⟨same, idx, after⟩ := fits.step started c
    simp only [Line.run, Scan.run]
    cases found : s.step c with
    | mk done s' =>
      rw [found] at same idx after
      cases line : l.step c with
      | mk done' l' =>
        rw [line] at same after
        obtain rfl : done = done' := same
        cases done with
        | true =>
          simp only [if_true] at after ⊢
          exact ⟨s', rfl, after.1, after.2, by simp only [List.length_cons] at idx ⊢; omega⟩
        | false =>
          have started' : l'.text ≠ [] := by
            simpa [line] using Line.step_started (l := l) (c := c) (by simp [line])
          have := ih (s := s') (l := l') (by simpa using after) (fun _ => started')
          simp only at idx this ⊢
          split
          · rename_i text rest more
            rw [more] at this
            obtain ⟨s'', ran, linelen, keeps, position⟩ := this
            exact ⟨s'', ran, linelen, keeps, by simp only [List.length_cons]; omega⟩
          · rename_i more
            rw [more] at this
            exact this

theorem run_unread (data : List Byte) (readpos : Nat) :
    ({} : Line).run (unread data readpos) = ({} : Line).run (data.drop readpos) := by
  simp only [unread]
  split
  · rename_i empty
    rw [empty]
    rfl
  · rfl

/-- What the loop of read_line starts from: nothing is carried any more. -/
def RtspServer.cleared (r : RtspServer) : RtspServer :=
  if r.m_nTempDataSize = 0 then r else { r with m_pTempDataBuf := none, m_nTempDataSize := 0 }

theorem RtspServer.toSession_cleared (r : RtspServer) : r.cleared.toSession = r.toSession := by
  simp only [cleared]
  split <;> rfl

theorem RtspServer.m_nTempDataSize_cleared (r : RtspServer) : r.cleared.m_nTempDataSize = 0 := by
  simp only [cleared]
  split
  · assumption
  · rfl

/-- The line buffer that the loop of read_line starts from. -/
def RtspServer.takenOver (r : RtspServer) : Buffer LINEBUFSIZE :=
  if r.m_nTempDataSize < LINEBUFSIZE ∧ 0 < r.m_nTempDataSize then
    r.m_LineBuf.copy ((r.m_pTempDataBuf.getD []).take r.m_nTempDataSize)
  else r.m_LineBuf

/-- What read_line returns at the end of its loop. -/
def RtspServer.scanned (r : RtspServer) (readpos : Nat) : Bool × Scan → ReadLine
  | (true, s) => ⟨0, { r with m_LineBuf := s.plinebuf }, s.idx, s.linelen⟩
  | (false, s) =>
    if s.linelen > 0 then
      ⟨-1, { r with
        m_LineBuf := s.plinebuf
        m_nTempDataSize := s.linelen
        m_pTempDataBuf := some (s.plinebuf.bytes.take s.linelen) }, readpos, 0⟩
    else ⟨-1, { r with m_LineBuf := s.plinebuf }, readpos, 0⟩

/-- read_line is its loop on an empty line. The carried bytes are copied into the buffer
and then written over. -/
theorem read_line_start (r : RtspServer) (data : List Byte) (readpos : Nat) :
    read_line r data readpos = r.cleared.scanned readpos
      (Scan.run ⟨readpos, false, false, 0, r.takenOver⟩ (unread data readpos)) := by
  have large_positive : LINEBUFSIZE ≤ r.m_nTempDataSize → r.m_nTempDataSize ≠ 0 := by
    simp only [LINEBUFSIZE]
    omega
  by_cases large : LINEBUFSIZE ≤ r.m_nTempDataSize
  · rw [show r.takenOver = r.m_LineBuf from if_neg fun both => absurd both.1 (by omega)]
    simp only [read_line, ge_iff_le, large, if_true, gt_iff_lt, Nat.lt_irrefl, if_false,
      RtspServer.cleared, large_positive large]
    rfl
  · by_cases carried : 0 < r.m_nTempDataSize
    · rw [RtspServer.takenOver, if_pos ⟨by omega, carried⟩]
      simp only [read_line, ge_iff_le, large, if_false, gt_iff_lt, carried, if_true,
        RtspServer.cleared, Nat.ne_of_gt carried]
      rfl
    · rw [show r.takenOver = r.m_LineBuf from if_neg fun both => absurd both.2 carried,
        show r.cleared = r from if_pos (Nat.eq_zero_of_not_pos carried)]
      simp only [read_line, ge_iff_le, large, if_false, gt_iff_lt, carried]
      rfl

/-- The line that the loop starts with. -/
theorem Fits.empty (readpos : Nat) (plinebuf : Buffer LINEBUFSIZE) :
    Fits ⟨readpos, false, false, 0, plinebuf⟩ {} :=
  ⟨rfl, rfl, rfl, rfl, Nat.zero_le _⟩

/-- read_line finds the first line after the position, whatever the object carried over. -/
theorem read_line_spec (r : RtspServer) (data : List Byte) (readpos : Nat) :
    (read_line r data readpos).server.toSession = r.toSession ∧
    match ({} : Line).run (data.drop readpos) with
    | some (line, rest) => (read_line r data readpos).ret = 0 ∧
        (read_line r data readpos).linelen = line.length ∧
        (read_line r data readpos).server.m_LineBuf.Keeps line ∧
        (read_line r data readpos).readpos + rest.length = data.length
    | none => (read_line r data readpos).ret = -1 := by
  have session := r.toSession_cleared
  have ran := (Fits.empty readpos r.takenOver).run (by simp) (unread data readpos)
  rw [run_unread] at ran
  rw [read_line_start]
  cases found : ({} : Line).run (data.drop readpos) with
  | none =>
    rw [found] at ran
    obtain ⟨s, ran⟩ := ran
    rw [ran]
    rw [RtspServer.scanned]
    split <;> exact ⟨session, rfl⟩
  | some answer =>
    obtain ⟨line, rest⟩ := answer
    rw [found] at ran
    obtain ⟨s, ran, linelen, keeps, position⟩ := ran
    rw [ran]
    rw [RtspServer.scanned]
    refine ⟨session, rfl, linelen, keeps, ?_⟩
    have shorter := Line.run_shorter found
    simp only [unread] at position
    split at position
    · rename_i none_
      simp [none_] at shorter
    · simp only [List.length_drop] at position shorter ⊢
      omega

/-- read_line returns this line, and the rest of the data is after its position. -/
structure Reads (r : RtspServer) (data : List Byte) (readpos : Nat) (text rest : List Byte) :
    Prop where
  ret : (read_line r data readpos).ret = 0
  session : (read_line r data readpos).server.toSession = r.toSession
  linelen : (read_line r data readpos).linelen = text.length
  string : (read_line r data readpos).server.m_LineBuf.string = cstring text
  position : (read_line r data readpos).readpos = data.length - rest.length
  left : data.drop (data.length - rest.length) = rest
  shorter : rest.length < data.length - readpos

theorem read_line_reads (r : RtspServer) {data text rest : List Byte} {readpos : Nat}
    (ran : ({} : Line).run (data.drop readpos) = some (text, rest)) :
    Reads r data readpos text rest := by
  obtain ⟨session, found⟩ := read_line_spec r data readpos
  rw [ran] at found
  obtain ⟨ret, linelen, keeps, position⟩ := found
  have shorter := Line.run_shorter ran
  rw [List.length_drop] at shorter
  refine ⟨ret, session, linelen, keeps.string_eq, by omega, ?_, shorter⟩
  obtain ⟨used, whole⟩ := (Line.run_suffix ran).trans (List.drop_suffix readpos data)
  rw [← whole]
  simp

/-- The complete lines of a chunk of size bytes, processed one after the other. -/
def process_each (env : Env) (size : Nat) (r : Session) (v : Locals) :
    List (List Byte × List Byte) → Session × List Reply
  | [] => (r, [])
  | (line, rest) :: more =>
    let (r, v, replies) :=
      process_line env r v (size - rest.length) line.length (cstring line)
    let (r, others) := process_each env size r v more
    (r, replies ++ others)

theorem process_lines_spec (env : Env) (data : List Byte) (fuel : Nat) (r : RtspServer) (v : Locals)
    (readpos : Nat) (enough : data.length < readpos + fuel) :
    ((process_lines env data fuel r v readpos).1.toSession,
      (process_lines env data fuel r v readpos).2) =
      process_each env data.length r.toSession v (({} : Line).lines (data.drop readpos)) := by
  induction fuel generalizing r v readpos with
  | zero =>
    rw [List.drop_of_length_le (by omega)]
    rfl
  | succ fuel ih =>
    simp only [process_lines]
    cases ran : ({} : Line).run (data.drop readpos) with
    | none =>
      obtain ⟨session, found⟩ := read_line_spec r data readpos
      rw [ran] at found
      simp [found, session, Line.lines_none ran, process_each]
    | some answer =>
      obtain ⟨text, rest⟩ := answer
      have reads := read_line_reads r ran
      have shorter := reads.shorter
      rw [Line.lines_some ran]
      simp only [process_each, reads.ret, reads.session, reads.linelen, reads.string,
        reads.position]
      obtain ⟨session', v', replies⟩ :=
        process_line env r.toSession v (data.length - rest.length) text.length (cstring text)
      rw [if_neg (by decide)]
      split
      · rename_i ends
        obtain rfl : rest = [] := List.length_eq_zero_iff.mp (by omega)
        simp [Line.lines, process_each]
      · have more := ih { (read_line r data readpos).server with toSession := session' } v'
          (data.length - rest.length) (by omega)
        rw [reads.left] at more
        simp only [← more]

namespace Session

/-- The complete lines of a chunk, from a session on. -/
def process (env : Env) (r : Session) (chunk : List Byte) : Session × List Reply :=
  process_each env chunk.length r ⟨env.uri, env.method⟩ (({} : Line).lines chunk)

def receive : Session → List (Env × List Byte) → Session × List Reply
  | r, [] => (r, [])
  | r, (env, chunk) :: chunks =>
    let (r, replies) := r.process env chunk
    let (r, more) := r.receive chunks
    (r, replies ++ more)

end Session

/-- A chunk is processed line by line, and what was carried over plays no part. -/
theorem readedDataProcess_spec (env : Env) (r : RtspServer) (chunk : List Byte) :
    ((ReadedDataProcess env r chunk).1.toSession, (ReadedDataProcess env r chunk).2) =
      r.toSession.process env chunk := by
  simpa [ReadedDataProcess, Session.process] using
    process_lines_spec env chunk (chunk.length + 1) r ⟨env.uri, env.method⟩ 0 (by omega)

/-- So a connection is a run of its session. -/
theorem receive_spec (r : RtspServer) (chunks : List (Env × List Byte)) :
    ((receive r chunks).1.toSession, (receive r chunks).2) = r.toSession.receive chunks := by
  induction chunks generalizing r with
  | nil => rfl
  | cons chunk chunks ih =>
    obtain ⟨env, data⟩ := chunk
    have here := readedDataProcess_spec env r data
    simp only [Session.receive, ← here, ← ih, receive]

end TestIOCP.Rtsp
