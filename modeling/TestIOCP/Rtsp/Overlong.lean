import TestIOCP.Rtsp.Framing

/-! Lines that do not fit in the line buffer. The index starts again when the buffer is
full, so of such a line read_line delivers what was put since the last start. -/
namespace TestIOCP.Rtsp
open CString

namespace Reading
variable {l : Line} {piece : List Byte}

theorem length_next (bound : piece.length ≤ LINEBUFSIZE) (c : Byte) :
    (next piece c).length = piece.length % LINEBUFSIZE + 1 := by
  simp only [next]
  split
  · rename_i room
    simp [Nat.mod_eq_of_lt room]
  · rename_i full
    have whole : piece.length = LINEBUFSIZE := Nat.le_antisymm bound (Nat.not_lt.mp full)
    simp [whole]

theorem next_bound (bound : piece.length ≤ LINEBUFSIZE) (c : Byte) :
    (next piece c).length ≤ LINEBUFSIZE := by
  rw [length_next bound]
  exact Nat.mod_lt _ (by decide)

theorem next_suffix (piece : List Byte) (c : Byte) : next piece c <:+ piece ++ [c] := by
  simp only [next]
  split
  · exact List.suffix_refl _
  · exact List.suffix_append _ _

/-- What the buffer holds after some bytes is an end of them. -/
theorem held_suffix (piece data : List Byte) : data.foldl next piece <:+ piece ++ data := by
  induction data generalizing piece with
  | nil => simp
  | cons c data ih =>
    have rest := ih (next piece c)
    apply rest.trans
    obtain ⟨before, whole⟩ := next_suffix piece c
    exact ⟨before, by rw [← List.append_assoc, whole]; simp⟩

/-- And its length is their number, modulo the size of the buffer. -/
theorem length_held (bound : piece.length ≤ LINEBUFSIZE) (data : List Byte) (c : Byte) :
    ((data ++ [c]).foldl next piece).length = (piece.length + data.length) % LINEBUFSIZE + 1 := by
  induction data generalizing piece with
  | nil => simpa using length_next bound c
  | cons d data ih =>
    have rest := ih (next_bound bound d)
    rw [length_next bound d] at rest
    rw [List.cons_append, List.foldl_cons, rest, List.length_cons, Nat.add_assoc, Nat.mod_add_mod]
    congr 2
    omega

/-- A line is read to its line end, and delivered as the buffer holds it. -/
theorem run_held (reading : Reading l piece) {content : List Byte}
    (unbroken : Unbroken (piece ++ (content ++ [CR]))) (rest : List Byte) :
    l.run (content ++ (CRLF ++ rest)) =
      some (((content ++ [CR]).foldl next piece).dropLast.map stored, rest) := by
  have goes_on (l : Line) (piece : List Byte) (reading : Reading l piece) (c : Byte)
      (more : List Byte)
      (unbroken : Unbroken (piece ++ c :: more)) : (l.step c).1 = false := by
    rw [Bool.eq_false_iff]
    intro ends
    obtain ⟨a, last, lineEnd⟩ := (reading.step_ends_iff c).mp ends
    exact (List.isChain_append.mp unbroken).2.2 a last c rfl lineEnd
  induction content generalizing l piece with
  | nil =>
    have more := goes_on l piece reading CR [] unbroken
    obtain ⟨reading', -⟩ := reading.step_goes_on CR more
    have ends : ((l.step CR).2.step LF).1 = true :=
      (reading'.step_ends_iff LF).mpr ⟨CR, next_getLast piece CR, .inl ⟨rfl, rfl⟩⟩
    obtain ⟨content, a, held, -, text⟩ := reading'.step_ends LF ends
    simp only [CRLF, List.nil_append, List.cons_append, Line.run, List.foldl_cons, List.foldl_nil]
    rw [show l.step CR = (false, (l.step CR).2) from Prod.ext more rfl]
    simp only
    rw [show (l.step CR).2.step LF = (true, ((l.step CR).2.step LF).2) from Prod.ext ends rfl]
    simp [text, held]
  | cons c content ih =>
    have more := goes_on l piece reading c (content ++ [CR]) unbroken
    obtain ⟨reading', -⟩ := reading.step_goes_on c more
    have unbroken' : Unbroken (next piece c ++ (content ++ [CR])) := by
      apply unbroken.suffix
      obtain ⟨before, whole⟩ := next_suffix piece c
      exact ⟨before, by rw [← List.append_assoc, whole]; simp⟩
    simp only [List.cons_append, Line.run, List.foldl_cons]
    rw [show l.step c = (false, (l.step c).2) from Prod.ext more rfl]
    exact ih reading' unbroken'

end Reading

/-- What read_line delivers of a line: the bytes after the last whole buffer. -/
def tail (content : List Byte) : List Byte :=
  content.drop (content.length - content.length % LINEBUFSIZE)

theorem length_tail (content : List Byte) : (tail content).length =
    content.length % LINEBUFSIZE := by
  have small := Nat.mod_le content.length LINEBUFSIZE
  rw [tail, List.length_drop]
  omega

theorem tail_suffix (content : List Byte) : tail content <:+ content :=
  List.drop_suffix _ _

theorem held_tail (content : List Byte) :
    ((content ++ [CR]).foldl Reading.next []).dropLast = tail content := by
  have empty : ([] : List Byte).length ≤ LINEBUFSIZE := Nat.zero_le _
  have length := Reading.length_held empty content CR
  obtain ⟨before, whole⟩ := Reading.held_suffix [] (content ++ [CR])
  rw [List.length_nil, Nat.zero_add] at length
  rw [List.nil_append] at whole
  have some_ : (content ++ [CR]).foldl Reading.next [] ≠ [] := by
    rw [← List.length_pos_iff]
    omega
  obtain ⟨held, a, same⟩ : ∃ held a, (content ++ [CR]).foldl Reading.next [] = held ++ [a] :=
    ⟨_, _, (List.dropLast_concat_getLast some_).symm⟩
  rw [same] at length whole ⊢
  rw [← List.append_assoc] at whole
  obtain ⟨rfl, -⟩ := List.append_inj' whole rfl
  simp only [List.length_append, List.length_singleton, Nat.add_right_cancel_iff] at length
  rw [List.dropLast_concat, tail, List.length_append]
  have start : before.length + held.length - (before.length + held.length) % LINEBUFSIZE =
      before.length := by
    omega
  rw [start, List.drop_left]

theorem run_tail {content : List Byte} (unbroken : Unbroken (content ++ [CR])) (rest : List Byte) :
    ({} : Line).run (content ++ (CRLF ++ rest)) = some ((tail content).map stored, rest) := by
  rw [Reading.empty.run_held (by simpa using unbroken), held_tail]

/-- A line that ends with CR LF and does not fit in the buffer. -/
structure Overlong (content : List Byte) : Prop where
  unbroken : Unbroken (content ++ [CR])
  long : LINEBUFSIZE - 1 < content.length

/-- read_line delivers as a complete line nothing, or an end of a line without its start. -/
def Reinterpreted (line : ReadLine) (content : List Byte) : Prop :=
  line.ret = 0 ∧ ∃ part, part <:+ content.map stored ∧ part.length < content.length ∧
    line.linelen = part.length ∧ line.server.m_LineBuf.string = cstring part

theorem tail_shorter {content : List Byte} (overlong : Overlong content) :
    (tail content).length < content.length := by
  have long := overlong.long
  have small : content.length % LINEBUFSIZE < LINEBUFSIZE := Nat.mod_lt _ (by decide)
  rw [length_tail]
  simp only [LINEBUFSIZE] at long small ⊢
  omega

/-- Wherever read_line meets such a line, it delivers the tail. -/
theorem read_line_tail (r : RtspServer) {chunk content after : List Byte} {readpos : Nat}
    (here : chunk.drop readpos = content ++ (CRLF ++ after)) (overlong : Overlong content) :
    Reinterpreted (read_line r chunk readpos) content := by
  obtain ⟨-, found⟩ := read_line_spec r chunk readpos
  rw [here, run_tail overlong.unbroken] at found
  obtain ⟨ret, linelen, keeps, -⟩ := found
  refine ⟨ret, (tail content).map stored, (tail_suffix content).map stored, ?_, linelen,
    keeps.string_eq⟩
  rw [List.length_map]
  exact tail_shorter overlong

/-- ReadedDataProcess goes on with the tail as with any other line. -/
theorem process_tail (env : Env) (r : Session) {content : List Byte} (overlong : Overlong content)
    (after : List Byte) :
    r.process env (content ++ (CRLF ++ after)) =
      process_each env (content ++ (CRLF ++ after)).length r ⟨env.uri, env.method⟩
        (((tail content).map stored, after) :: ({} : Line).lines after) := by
  rw [Session.process, Line.lines_some (run_tail overlong.unbroken after)]

/-- ReadedDataProcess takes a line for a request line, a header or the end of a request. -/
def Taken (r : RtspServer) (line : ReadLine) : Prop :=
  line.ret = 0 ∧ (0 < line.linelen ∨ r.m_nAnaPhase = 1)

/-- A line that does not fit is not taken for another one. -/
structure Discarded (r : RtspServer) (chunk : List Byte) (readpos : Nat)
    (content : List Byte) : Prop where
  delivered : ¬ Reinterpreted (read_line r chunk readpos) content
  taken : ¬ Taken r (read_line r chunk readpos)

/-- No line that is too long for the buffer is discarded. -/
theorem never_discarded (r : RtspServer) (chunk : List Byte) (readpos : Nat)
    {content after : List Byte}
    (here : chunk.drop readpos = content ++ (CRLF ++ after)) (overlong : Overlong content) :
    ¬ Discarded r chunk readpos content :=
  fun discarded => discarded.delivered (read_line_tail r here overlong)

theorem overlong_filler {k : Nat} (large : 1024 ≤ k) (content : List Byte)
    (free : CR ∉ content ∧ LF ∉ content) :
    Overlong (filler k ++ content) := by
  constructor
  · apply Unbroken.of_free
    simp [free_filler, free]
  · simp only [LINEBUFSIZE, filler, List.length_append, List.length_replicate]
    omega

theorem filler_never_discarded :
    ¬ Discarded blank (filler 1024 ++ [] ++ (CRLF ++ [])) 0 (filler 1024 ++ []) :=
  never_discarded blank _ 0 rfl (overlong_filler (Nat.le_refl _) [] (by decide))

theorem tail_filler (content : List Byte) (short : content.length < LINEBUFSIZE) :
    tail (filler 1024 ++ content) = content := by
  have modulo : (1024 + content.length) % LINEBUFSIZE = content.length := by
    simp only [LINEBUFSIZE] at short ⊢
    omega
  have filled : (filler 1024).length = 1024 := List.length_replicate
  rw [tail, List.length_append, filled, modulo, Nat.add_sub_cancel]
  exact List.drop_left' filled

/-- A line of 1024 bytes is taken for a blank line. After 1024 other bytes of its line, a
request line is taken for one, and its request is answered. -/
theorem reinterpreted : ¬ (∀ (r : RtspServer) (chunk content after : List Byte) (readpos : Nat),
      chunk.drop readpos = content ++ (CRLF ++ after) → Overlong content →
      Discarded r chunk readpos content) ∧
    (ReadedDataProcess .blank blank
      (filler 1024 ++ bytes "OPTIONS * RTSP/1.0" ++ (CRLF ++ CRLF))).2 ≠ [] := by
  have free : CR ∉ bytes "OPTIONS * RTSP/1.0" ∧ LF ∉ bytes "OPTIONS * RTSP/1.0" := by decide
  constructor
  · intro discarded
    have overlong := overlong_filler (Nat.le_refl 1024) [] (by decide)
    exact (discarded blank _ _ [] 0 rfl overlong).delivered (read_line_tail blank rfl overlong)
  · have spec := readedDataProcess_spec .blank blank
      (filler 1024 ++ bytes "OPTIONS * RTSP/1.0" ++ (CRLF ++ CRLF))
    have ends : ({} : Line).lines CRLF = [([], [])] := lines_blank []
    rw [process_tail .blank _ (overlong_filler (Nat.le_refl _) _ free),
      tail_filler _ (by decide), ends] at spec
    rw [congrArg Prod.snd spec]
    have answered : (process_each .blank 0 blank.toSession ⟨Env.blank.uri, Env.blank.method⟩
        [((bytes "OPTIONS * RTSP/1.0").map stored, CRLF), ([], [])]).2 ≠ [] := by decide +kernel
    exact answered

end TestIOCP.Rtsp
