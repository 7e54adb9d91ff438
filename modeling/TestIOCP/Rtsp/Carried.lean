import TestIOCP.Rtsp.Answer

/-! What a server carries from one chunk to the next, besides its session. -/
namespace TestIOCP.Rtsp
open CString

/-- The bytes of an unfinished line, and their number. -/
def RtspServer.carry (r : RtspServer) : Nat × Option (List Byte) :=
  (r.m_nTempDataSize, r.m_pTempDataBuf)

theorem RtspServer.carry_cleared {r : RtspServer} (nothing : r.m_nTempDataSize = 0) :
    r.cleared.carry = r.carry := by
  rw [cleared, if_pos nothing]

/-- The text of the line that some data leave unfinished. -/
def unfinished (data : List Byte) : List Byte :=
  (data.foldl (fun l c => (l.step c).2) ({} : Line)).text

theorem Line.foldl_started {l : Line} {data : List Byte} (none_ : l.run data = none)
    (some_ : data ≠ []) :
    (data.foldl (fun l c => (l.step c).2) l).text ≠ [] := by
  induction data generalizing l with
  | nil => exact absurd rfl some_
  | cons c data ih =>
    simp only [Line.run] at none_
    split at none_
    · cases none_
    · rename_i l' stepped
      rw [List.foldl_cons, stepped]
      cases data with
      | nil =>
        have more : (l.step c).1 = false := by rw [stepped]
        have text := Line.step_started more
        rwa [stepped] at text
      | cons d data => exact ih none_ (by simp)

/-- The loop of read_line keeps the text of an unfinished line in the buffer. -/
theorem Fits.run_none {s : Scan} {l : Line} (fits : Fits s l)
    (started : l.breturn = true ∨ l.bnext = true → l.text ≠ []) {data : List Byte}
    (none_ : l.run data = none) :
    ∃ s', s.run data = (false, s') ∧ Fits s' (data.foldl (fun l c => (l.step c).2) l) := by
  induction data generalizing s l with
  | nil => exact ⟨s, rfl, fits⟩
  | cons c data ih =>
    obtain ⟨same, -, after⟩ := fits.step started c
    simp only [Line.run] at none_
    split at none_
    · cases none_
    · rename_i l' stepped
      rw [stepped] at same after
      have scanned : s.step c = (false, (s.step c).2) := Prod.ext same rfl
      have more : (l.step c).1 = false := by rw [stepped]
      have text := Line.step_started more
      rw [stepped] at text
      obtain ⟨s', ran, fits'⟩ := ih (s := (s.step c).2) (l := l') (by simpa using after)
        (fun _ => text) none_
      refine ⟨s', ?_, ?_⟩
      · rw [Scan.run, scanned]
        exact ran
      · rwa [List.foldl_cons, stepped]

/-- After a complete line nothing is carried; an unfinished line is carried as it stands. -/
theorem read_line_carry (r : RtspServer) (data : List Byte) (readpos : Nat) :
    (read_line r data readpos).server.carry =
      match ({} : Line).run (data.drop readpos) with
      | some _ => r.cleared.carry
      | none => ((unfinished (unread data readpos)).length,
        some (unfinished (unread data readpos))) := by
  have start := read_line_start r data readpos
  have fits := Fits.empty readpos r.takenOver
  cases found : ({} : Line).run (data.drop readpos) with
  | some answer =>
    have ran := fits.run (by simp) (unread data readpos)
    rw [run_unread, found] at ran
    obtain ⟨s, ran, -⟩ := ran
    rw [start, ran]
    rfl
  | none =>
    rw [← run_unread] at found
    obtain ⟨s, ran, fits'⟩ := fits.run_none (by simp) found
    have some_ : unread data readpos ≠ [] := by
      simp only [unread]
      split <;> simp_all
    have positive : s.linelen > 0 := by
      rw [fits'.linelen]
      exact List.length_pos_iff.mpr (Line.foldl_started found some_)
    rw [start, ran, RtspServer.scanned]
    simp only [if_pos positive, RtspServer.carry, unfinished, ← fits'.text]
    simp [s.plinebuf.size, fits'.linelen, fits'.bound]

/-- When every byte of a chunk belongs to a complete line, nothing is carried on. -/
theorem process_lines_finished (env : Env) {data : List Byte} {fuel : Nat}
    {r : RtspServer} {v : Locals}
    {readpos : Nat} (enough : data.length < readpos + fuel) (nothing : r.m_nTempDataSize = 0)
    {line : List Byte} (finished : (line, []) ∈ ({} : Line).lines (data.drop readpos)) :
    (process_lines env data fuel r v readpos).1.carry = r.carry := by
  induction fuel generalizing r v readpos with
  | zero =>
    rw [List.drop_of_length_le (by omega)] at finished
    cases finished
  | succ fuel ih =>
    have carry := read_line_carry r data readpos
    cases ran : ({} : Line).run (data.drop readpos) with
    | none =>
      rw [Line.lines_none ran] at finished
      cases finished
    | some answer =>
      obtain ⟨text, rest⟩ := answer
      rw [ran] at carry
      simp only [RtspServer.carry_cleared nothing] at carry
      have reads := read_line_reads r ran
      have place := reads.position
      have shorter := reads.shorter
      simp only [process_lines, reads.ret]
      rw [if_neg (by decide)]
      split
      · exact carry
      · rename_i more
        rw [Line.lines_some ran] at finished
        have later : (line, []) ∈ ({} : Line).lines rest := by
          rcases List.mem_cons.mp finished with here | later
          · rw [← (Prod.mk.inj here).2] at place
            exact absurd place (by simpa using more)
          · exact later
        rw [place]
        have enough : data.length < data.length - rest.length + fuel := by omega
        refine (ih enough ?_ (by rwa [reads.left])).trans carry
        exact (congrArg Prod.fst carry).trans nothing

theorem readedDataProcess_finished (env : Env) {r : RtspServer} (nothing : r.m_nTempDataSize = 0)
    {chunk line : List Byte} (finished : (line, []) ∈ ({} : Line).lines chunk) :
    (ReadedDataProcess env r chunk).1.carry = r.carry :=
  process_lines_finished env (by omega) nothing (by simpa using finished)

/-- Lines that fit in the buffer, each with its line end. -/
structure Plain (line : List Byte) : Prop where
  one_line : CR ∉ line ∧ LF ∉ line
  fits : line.length ≤ LINEBUFSIZE - 1

def linesText (lines : List (List Byte)) : List Byte :=
  (lines.map (· ++ CRLF)).flatten

/-- Lines with the text after them. -/
def followed (lines : List (List Byte)) (more : List Byte) : List (List Byte × List Byte) :=
  match lines with
  | [] => []
  | line :: lines => (line, linesText lines ++ more) :: followed lines more

theorem lines_linesText {lines : List (List Byte)} (plain : ∀ line ∈ lines, Plain line)
    (more : List Byte) :
    ({} : Line).lines (linesText lines ++ more) =
      followed lines more ++ ({} : Line).lines more := by
  induction lines with
  | nil => rfl
  | cons line lines ih =>
    obtain ⟨here, others⟩ := List.forall_mem_cons.mp plain
    have fits := here.fits
    rw [followed, List.cons_append, ← ih others]
    simp only [linesText, List.map_cons, List.flatten_cons, List.append_assoc]
    apply lines_line here.one_line
    simp only [LINEBUFSIZE] at fits ⊢
    omega

theorem followed_texts (lines : List (List Byte)) (more : List Byte) :
    (followed lines more).map Prod.fst = lines := by
  induction lines with
  | nil => rfl
  | cons line lines ih => rw [followed, List.map_cons, ih]

/-- The last line has nothing after it. -/
theorem followed_finished {lines : List (List Byte)} (some_ : lines ≠ []) :
    ∃ line, (line, []) ∈ followed lines [] := by
  induction lines with
  | nil => exact absurd rfl some_
  | cons line lines ih =>
    cases lines with
    | nil => exact ⟨line, List.mem_cons_self⟩
    | cons other lines =>
      obtain ⟨last, inside⟩ := ih (by simp)
      exact ⟨last, List.mem_cons_of_mem _ inside⟩

/-- The lines of a chunk that consists of lines. -/
theorem lines_texts {lines : List (List Byte)} (plain : ∀ line ∈ lines, Plain line) :
    (({} : Line).lines (linesText lines)).map Prod.fst = lines := by
  have read := lines_linesText plain []
  rw [List.append_nil] at read
  rw [read, List.map_append, followed_texts, Line.lines, List.map_nil, List.append_nil]

theorem lines_finished {lines : List (List Byte)} (some_ : lines ≠ [])
    (plain : ∀ line ∈ lines, Plain line) :
    ∃ line, (line, []) ∈ ({} : Line).lines (linesText lines) := by
  have read := lines_linesText plain []
  rw [List.append_nil] at read
  obtain ⟨line, inside⟩ := followed_finished some_
  rw [read]
  exact ⟨line, List.mem_append_left _ inside⟩

end TestIOCP.Rtsp
