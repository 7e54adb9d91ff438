import TestIOCP.Rtsp.Carried
import Mathlib.Data.List.Forall2

/-! How read_line cuts a chunk that starts with whole lines: one call for each line, and
one more for what is behind them. -/
namespace TestIOCP.Rtsp
open CString

/-- What the read_line calls of the loop of ReadedDataProcess return, in their order; none
if the loop goes on after that many passes. -/
def read_calls (env : Env) (pdatabuf : List Byte) : Nat → RtspServer → Locals → Nat →
    Option (List ReadLine)
  | 0, _, _, _ => none
  | fuel + 1, r, v, readpos =>
    let line := read_line r pdatabuf readpos
    let r := line.server
    if line.ret < 0 then some [line]
    else
      let (session, v, _) :=
        process_line env r.toSession v line.readpos line.linelen r.m_LineBuf.string
      let r := { r with toSession := session }
      if line.readpos = pdatabuf.length then some [line]
      else (read_calls env pdatabuf fuel r v line.readpos).map (line :: ·)

def ReadedDataProcessReads (env : Env) (r : RtspServer) (pdatabuf : List Byte) :
    Option (List ReadLine) :=
  read_calls env pdatabuf (pdatabuf.length + 1) r ⟨env.uri, env.method⟩ 0

/-- What the passes of the loop make of the lines that these calls return: the server after
them, and the replies. -/
def passes (env : Env) (r : RtspServer) (v : Locals) : List ReadLine → RtspServer × List Reply
  | [] => (r, [])
  | line :: calls =>
    let r := line.server
    if line.ret < 0 then (r, [])
    else
      let (session, v, replies) :=
        process_line env r.toSession v line.readpos line.linelen r.m_LineBuf.string
      let (r, more) := passes env { r with toSession := session } v calls
      (r, replies ++ more)

/-- The loop makes just these passes. -/
theorem process_lines_passes (env : Env) {data : List Byte} {fuel : Nat} {r : RtspServer}
    {v : Locals} {readpos : Nat} {calls : List ReadLine}
    (ended : read_calls env data fuel r v readpos = some calls) :
    process_lines env data fuel r v readpos = passes env r v calls := by
  induction fuel generalizing r v readpos calls with
  | zero => cases ended
  | succ fuel ih =>
    simp only [read_calls, process_lines] at ended ⊢
    split at ended
    · rename_i failed
      obtain rfl := Option.some.inj ended
      simp only [passes, if_pos failed]
    · rename_i complete
      rw [if_neg complete]
      split at ended
      · rename_i all
        obtain rfl := Option.some.inj ended
        simp only [passes, if_neg complete, if_pos all, List.append_nil]
      · rename_i more
        obtain ⟨later, ended', rfl⟩ := Option.map_eq_some_iff.mp ended
        simp only [passes, if_neg complete, if_neg more, ih ended']

theorem readedDataProcess_passes {env : Env} {r : RtspServer} {data : List Byte}
    {calls : List ReadLine} (ended : ReadedDataProcessReads env r data = some calls) :
    ReadedDataProcess env r data = passes env r ⟨env.uri, env.method⟩ calls :=
  process_lines_passes env ended

/-- When only the last call fails, the passes leave what it carries. -/
theorem passes_carry (env : Env) (r : RtspServer) (v : Locals) {calls : List ReadLine}
    (complete : ∀ call ∈ calls, ¬ call.ret < 0) (last : ReadLine) :
    (passes env r v (calls ++ [last])).1.carry = last.server.carry := by
  induction calls generalizing r v with
  | nil =>
    simp only [List.nil_append, passes]
    split <;> rfl
  | cons line calls ih =>
    obtain ⟨here, others⟩ := List.forall_mem_cons.mp complete
    simp only [List.cons_append, passes, if_neg here]
    exact ih _ _ others

/-- Lines, each with the position after its line end. -/
def ends : Nat → List (List Byte) → List (List Byte × Nat)
  | _, [] => []
  | readpos, line :: lines =>
    (line, readpos + line.length + 2) :: ends (readpos + line.length + 2) lines

theorem ends_length (readpos : Nat) (lines : List (List Byte)) :
    (ends readpos lines).length = lines.length := by
  induction lines generalizing readpos with
  | nil => rfl
  | cons line lines ih => rw [ends, List.length_cons, ih, List.length_cons]

/-- Each line takes at least its line end. -/
theorem length_linesText (lines : List (List Byte)) : lines.length ≤ (linesText lines).length := by
  induction lines with
  | nil => simp [linesText]
  | cons line lines ih =>
    simp only [linesText, List.map_cons, List.flatten_cons, List.length_append,
      List.length_cons, CRLF] at ih ⊢
    omega

/-- The call returns this line: its length, its bytes with a NUL in m_LineBuf, and the
position of the next line. -/
structure Returns (line : List Byte × Nat) (call : ReadLine) : Prop where
  ret : call.ret = 0
  linelen : call.linelen = line.1.length
  keeps : call.server.m_LineBuf.Keeps line.1
  readpos : call.readpos = line.2

theorem returns_complete {lines : List (List Byte × Nat)} {calls : List ReadLine}
    (each : List.Forall₂ Returns lines calls) : ∀ call ∈ calls, ¬ call.ret < 0 := by
  induction each with
  | nil => simp
  | cons returns _ ih =>
    refine List.forall_mem_cons.mpr ⟨?_, ih⟩
    rw [returns.ret]
    decide

/-- How the loop stops after the lines: at the end of the data, or by a call that fails
and keeps the tail. -/
inductive LoopEnds (datasize : Nat) (tail : List Byte) (returned : List ReadLine) :
    List ReadLine → Prop where
  | read : tail = [] → returned.getLast?.map ReadLine.readpos = some datasize →
      LoopEnds datasize tail returned []
  | carried (call : ReadLine) : tail ≠ [] → call.ret = -1 →
      call.server.carry = (tail.length, some tail) → LoopEnds datasize tail returned [call]

/-- A line without a line end only grows. -/
theorem Line.run_free {l : Line} {data : List Byte} (flags : l.breturn = false ∧ l.bnext = false)
    (free : CR ∉ data ∧ LF ∉ data) (fits : l.text.length + data.length ≤ LINEBUFSIZE) :
    l.run data = none ∧
      data.foldl (fun l c => (l.step c).2) l = { l with text := l.text ++ data } := by
  induction data generalizing l with
  | nil => simp [Line.run]
  | cons c data ih =>
    have notCR := List.ne_of_not_mem_cons free.1
    have notLF := List.ne_of_not_mem_cons free.2
    have free := And.intro (List.not_mem_of_not_mem_cons free.1)
      (List.not_mem_of_not_mem_cons free.2)
    simp only [List.length_cons] at fits
    have stepped : l.step c = (false, { l with text := l.text ++ [c] }) := by
      have room : ¬ 1 + l.text.length > LINEBUFSIZE := by omega
      simp [Line.step, Line.put, Ne.symm notCR, Ne.symm notLF, flags.1, flags.2, room]
    have later := ih (l := { l with text := l.text ++ [c] }) flags free
      (by simp only [List.length_append, List.length_singleton]; omega)
    constructor
    · rw [Line.run, stepped]
      exact later.1
    · rw [List.foldl_cons, stepped, later.2]
      simp

section
variable {r : RtspServer} {data line rest tail : List Byte} {readpos : Nat}

theorem length_of_drop {used left : List Byte} (here : data.drop readpos = used ++ left)
    (some_ : used ≠ []) :
    data.length = readpos + used.length + left.length ∧
      data.drop (readpos + used.length) = left := by
  have size := congrArg List.length here
  have positive := List.length_pos_iff.mpr some_
  rw [List.length_drop, List.length_append] at size
  constructor
  · omega
  · rw [← List.drop_drop, here, List.drop_left]

theorem read_line_returns (here : data.drop readpos = line ++ CRLF ++ rest)
    (plain : Plain line) (nothing : r.m_nTempDataSize = 0) :
    Returns (line, readpos + line.length + 2) (read_line r data readpos) ∧
      (read_line r data readpos).server.m_nTempDataSize = 0 ∧
      data.length = readpos + line.length + 2 + rest.length ∧
      data.drop (readpos + line.length + 2) = rest := by
  have fits := plain.fits
  have found := run_line line plain.one_line (by simp only [LINEBUFSIZE] at fits ⊢; omega) rest
  rw [← List.append_assoc, ← here] at found
  obtain ⟨-, spec⟩ := read_line_spec r data readpos
  have carry := read_line_carry r data readpos
  rw [found] at spec carry
  obtain ⟨ret, linelen, keeps, position⟩ := spec
  obtain ⟨size, left⟩ := length_of_drop here (by simp [CRLF])
  have used : (line ++ CRLF).length = line.length + 2 := by simp [CRLF]
  rw [used, ← Nat.add_assoc] at size left
  refine ⟨⟨ret, linelen, keeps, ?_⟩, ?_, size, left⟩
  · simp only
    omega
  · rw [RtspServer.carry_cleared nothing] at carry
    exact (congrArg Prod.fst carry).trans nothing

theorem read_line_carries (here : data.drop readpos = tail) (some_ : tail ≠ [])
    (plain : Plain tail) :
    (read_line r data readpos).ret = -1 ∧
      (read_line r data readpos).server.carry = (tail.length, some tail) := by
  have fits := plain.fits
  obtain ⟨none_, kept⟩ := Line.run_free (l := {}) ⟨rfl, rfl⟩ plain.one_line
    (by simp only [LINEBUFSIZE, List.length_nil] at fits ⊢; omega)
  have visited : unread data readpos = tail := by
    rw [unread, here]
    cases tail with
    | nil => exact absurd rfl some_
    | cons c tail => rfl
  have same : unfinished tail = tail := by
    rw [unfinished, kept]
    rfl
  obtain ⟨-, ret⟩ := read_line_spec r data readpos
  have carry := read_line_carry r data readpos
  rw [here, none_] at ret carry
  rw [visited, same] at carry
  exact ⟨ret, carry⟩

end

/-- From the start of a line on, the calls return the lines and stop after them. -/
theorem read_calls_split (env : Env) {data : List Byte} {lines : List (List Byte)}
    (plain : ∀ line ∈ lines, Plain line) {tail : List Byte} (tail_plain : Plain tail)
    {fuel : Nat} {r : RtspServer} {v : Locals} {readpos : Nat} (nothing : r.m_nTempDataSize = 0)
    (enough : lines.length < fuel) (here : data.drop readpos = linesText lines ++ tail)
    (some_ : data.drop readpos ≠ []) :
    ∃ returned stop, read_calls env data fuel r v readpos = some (returned ++ stop) ∧
      List.Forall₂ Returns (ends readpos lines) returned ∧
      LoopEnds data.length tail returned stop := by
  induction lines generalizing fuel r v readpos with
  | nil =>
    obtain ⟨fuel, rfl⟩ : ∃ n, fuel = n + 1 := ⟨fuel - 1, by simp at enough; omega⟩
    rw [here] at some_
    obtain ⟨ret, carry⟩ := read_line_carries (r := r) here some_ tail_plain
    refine ⟨[], [read_line r data readpos], ?_, .nil, .carried _ some_ ret carry⟩
    simp [read_calls, ret]
  | cons line lines ih =>
    obtain ⟨fuel, rfl⟩ : ∃ n, fuel = n + 1 := ⟨fuel - 1, by omega⟩
    obtain ⟨first, others⟩ := List.forall_mem_cons.mp plain
    have cut : data.drop readpos = line ++ CRLF ++ (linesText lines ++ tail) := by
      rw [here, linesText, List.map_cons, List.flatten_cons, List.append_assoc, linesText]
    obtain ⟨returns, after, size, left⟩ := read_line_returns cut first nothing
    have complete : ¬ (read_line r data readpos).ret < 0 := by
      rw [returns.ret]
      decide
    simp only [read_calls, if_neg complete]
    have position : (read_line r data readpos).readpos = readpos + line.length + 2 :=
      returns.readpos
    by_cases all : linesText lines ++ tail = []
    · -- Behind the last line there is nothing, so the loop stops.
      obtain ⟨text, rfl⟩ := List.append_eq_nil_iff.mp all
      obtain rfl : lines = [] := by
        cases lines with
        | nil => rfl
        | cons line lines => simp [linesText, CRLF] at text
      have end_ : (read_line r data readpos).readpos = data.length := by
        rw [position, size]
        simp [linesText]
      rw [if_pos end_]
      refine ⟨[read_line r data readpos], [], rfl, .cons returns .nil, .read rfl ?_⟩
      simp [end_]
    · have more : ¬ (read_line r data readpos).readpos = data.length := by
        have positive := List.length_pos_iff.mpr all
        rw [position, size]
        omega
      rw [if_neg more, position]
      obtain ⟨returned, stop, ended, each, stops⟩ :=
        @ih others fuel
          { (read_line r data readpos).server with
            toSession := (process_line env (read_line r data readpos).server.toSession v
              (readpos + line.length + 2) (read_line r data readpos).linelen
              (read_line r data readpos).server.m_LineBuf.string).1 }
          (process_line env (read_line r data readpos).server.toSession v
            (readpos + line.length + 2) (read_line r data readpos).linelen
            (read_line r data readpos).server.m_LineBuf.string).2.1
          (readpos + line.length + 2) after
          (by simp only [List.length_cons] at enough; omega) left (by rw [left]; exact all)
      refine ⟨read_line r data readpos :: returned, stop, ?_, .cons returns each, ?_⟩
      · rw [ended]
        rfl
      · cases stops with
        | read none_ last =>
          refine .read none_ ?_
          obtain ⟨call, found, end_⟩ := Option.map_eq_some_iff.mp last
          rw [List.getLast?_cons, found, ← end_]
          rfl
        | carried call some_ ret carry => exact .carried call some_ ret carry

/-- A chunk of whole lines and a tail is read in one call for each line, which return just
these lines, and one more for the tail, which is then carried. -/
theorem chunk_split (env : Env) {r : RtspServer} (nothing : r.m_nTempDataSize = 0)
    {lines : List (List Byte)} (plain : ∀ line ∈ lines, Plain line) {tail : List Byte}
    (tail_plain : Plain tail) (some_ : linesText lines ++ tail ≠ []) :
    let chunk := linesText lines ++ tail
    let after := ReadedDataProcess env r chunk
    ∃ returned stop,
      ReadedDataProcessReads env r chunk = some (returned ++ stop) ∧
      List.Forall₂ Returns (ends 0 lines) returned ∧
      LoopEnds chunk.length tail returned stop ∧
      (returned ++ stop).length ≤ lines.length + 1 ∧
      after = passes env r ⟨env.uri, env.method⟩ (returned ++ stop) ∧
      (tail ≠ [] → after.1.carry = (tail.length, some tail)) ∧
      (tail = [] → after.1.carry = r.carry) := by
  intro chunk after
  have most := length_linesText lines
  have enough : lines.length < chunk.length + 1 := by
    simp only [chunk, List.length_append]
    omega
  have start : chunk.drop 0 = linesText lines ++ tail := rfl
  obtain ⟨returned, stop, ended, each, stops⟩ :=
    read_calls_split env plain tail_plain (v := ⟨env.uri, env.method⟩) nothing enough start some_
  have passed : after = passes env r ⟨env.uri, env.method⟩ (returned ++ stop) :=
    readedDataProcess_passes ended
  refine ⟨returned, stop, ended, each, stops, ?_, passed, ?_, ?_⟩
  · rw [List.length_append, ← each.length_eq, ends_length]
    cases stops with
    | read none_ last => simp
    | carried call some_ ret carry => simp
  · intro tail_some
    cases stops with
    | read none_ end_ => exact absurd none_ tail_some
    | carried call _ ret kept => rw [passed, passes_carry _ _ _ (returns_complete each), kept]
  · rintro rfl
    have whole : chunk = linesText lines := List.append_nil _
    have lines_some : lines ≠ [] := by
      rintro rfl
      exact some_ rfl
    obtain ⟨line, finished⟩ := lines_finished lines_some plain
    rw [← whole] at finished
    exact readedDataProcess_finished env nothing finished

/-- A header line, and the start of another one. -/
theorem chunk_split_header :
    let chunk := bytes "CSeq: 1\r\nSe"
    ∃ line stop, ReadedDataProcessReads .blank blank chunk = some [line, stop] ∧
      Returns (bytes "CSeq: 1", 9) line ∧ stop.ret = -1 ∧
      ReadedDataProcess .blank blank chunk =
        passes .blank blank ⟨Env.blank.uri, Env.blank.method⟩ [line, stop] ∧
      (ReadedDataProcess .blank blank chunk).1.carry = (2, some (bytes "Se")) := by
  have plain : ∀ line ∈ [bytes "CSeq: 1"], Plain line :=
    List.forall_mem_singleton.mpr ⟨by decide, by decide⟩
  have tail_plain : Plain (bytes "Se") := ⟨by decide, by decide⟩
  have text : linesText [bytes "CSeq: 1"] ++ bytes "Se" = bytes "CSeq: 1\r\nSe" := by decide
  obtain ⟨returned, stop, ended, each, stops, -, passed, carry, -⟩ :=
    chunk_split .blank (r := blank) rfl plain tail_plain (by decide)
  rw [text] at ended carry passed
  obtain ⟨line, others, returns, none_, rfl⟩ := List.forall₂_cons_left_iff.mp each
  obtain rfl := List.forall₂_nil_left_iff.mp none_
  cases stops with
  | read none_ last => exact absurd none_ (by decide)
  | carried call some_ ret kept =>
    exact ⟨line, call, ended, returns, ret, passed, carry (by decide)⟩

end TestIOCP.Rtsp
