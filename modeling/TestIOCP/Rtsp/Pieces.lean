import Mathlib.Data.List.Chain
import TestIOCP.Rtsp.Lines

/-! Where the lines of a chunk come from. A line that read_line returns is a piece of
the chunk that ends with the only line end in it; when the buffer was full, the
piece starts again at the byte that did not fit. -/
namespace TestIOCP.Rtsp
open CString

/-- The two bytes that end a line, in either order. -/
def LineEnd (a b : Byte) : Prop := a = CR ∧ b = LF ∨ a = LF ∧ b = CR

/-- What the buffer keeps of a byte. -/
def stored (c : Byte) : Byte := if c = LF then CR else c

theorem map_stored {s : List Byte} (free : LF ∉ s) : s.map stored = s := by
  have kept : ∀ c ∈ s, stored c = id c := by
    intro c inside
    rw [stored, if_neg fun same : c = LF => free (same ▸ inside), id]
  rw [List.map_congr_left kept, List.map_id]

/-- No two neighbours end a line. -/
def Unbroken (piece : List Byte) : Prop := piece.IsChain fun a b => ¬ LineEnd a b

/-- The line has read a piece. -/
structure Reading (l : Line) (piece : List Byte) : Prop where
  text : l.text = piece.map stored
  breturn : l.breturn = true ↔ piece.getLast? = some CR
  bnext : l.bnext = true ↔ piece.getLast? = some LF
  unbroken : Unbroken piece
  bound : piece.length ≤ LINEBUFSIZE

namespace Reading
variable {l : Line} {piece : List Byte}

theorem empty : Reading {} [] :=
  ⟨rfl, by simp, by simp, .nil, Nat.zero_le _⟩

/-- The piece that the buffer holds after one more byte. -/
def next (piece : List Byte) (c : Byte) : List Byte :=
  if piece.length < LINEBUFSIZE then piece ++ [c] else [c]

theorem put_text (reading : Reading l piece) (c : Byte) :
    (l.put (stored c)).text = (next piece c).map stored := by
  have text := reading.text
  simp only [Line.put, next, text, List.length_map]
  by_cases room : piece.length < LINEBUFSIZE
  · rw [if_neg (by omega), if_pos room, List.map_append, List.map_singleton]
  · rw [if_pos (by omega), if_neg room, List.map_singleton]

theorem next_getLast (piece : List Byte) (c : Byte) : (next piece c).getLast? = some c := by
  simp only [next]
  split <;> simp

theorem step_ends (reading : Reading l piece) (c : Byte) (ends : (l.step c).1 = true) :
    ∃ content a, piece = content ++ [a] ∧ LineEnd a c ∧ (l.step c).2.text = content.map stored := by
  have text := reading.text
  have last (a : Byte) (flag : piece.getLast? = some a) :
      ∃ content, piece = content ++ [a] ∧ l.text.dropLast = content.map stored := by
    obtain ⟨content, rfl⟩ := List.getLast?_eq_some_iff.mp flag
    exact ⟨content, rfl, by simp [text]⟩
  revert ends
  fun_cases Line.step l c with
  | case1 isCR bnext =>
    obtain ⟨content, split_, kept⟩ := last LF (reading.bnext.mp bnext)
    exact fun _ => ⟨content, LF, split_, .inr ⟨rfl, isCR⟩, kept⟩
  | case3 _ isLF breturn =>
    obtain ⟨content, split_, kept⟩ := last CR (reading.breturn.mp breturn)
    exact fun _ => ⟨content, CR, split_, .inl ⟨rfl, isLF⟩, kept⟩
  | case2 | case4 | case5 | case6 | case7 => simp

/-- A byte that does not end the line is put, and the flags are about it. -/
theorem step_put (reading : Reading l piece) (c : Byte) (more : (l.step c).1 = false) :
    (l.step c).2.text = (l.put (stored c)).text ∧ ((l.step c).2.breturn = true ↔ c = CR) ∧
      ((l.step c).2.bnext = true ↔ c = LF) := by
  have distinct : CR ≠ LF := by decide
  have one : ¬ (l.breturn = true ∧ l.bnext = true) := by
    rw [reading.breturn, reading.bnext]
    rintro ⟨last, last'⟩
    exact distinct (Option.some.inj (last.symm.trans last'))
  revert more
  fun_cases Line.step l c with
  | case1 | case3 => simp
  | case2 isCR bnext =>
    subst isCR
    simpa [Line.put, stored, distinct] using bnext
  | case4 _ isLF breturn =>
    subst isLF
    simpa [Line.put, stored, distinct.symm] using breturn
  | case5 notCR notLF breturn =>
    have bnext : l.bnext = false := by simpa [breturn] using one
    simp [Line.put, stored, notCR, notLF, bnext]
  | case6 notCR notLF breturn => simp [Line.put, stored, notCR, notLF, breturn]
  | case7 notCR notLF breturn bnext => simp [Line.put, stored, notCR, notLF, breturn, bnext]

theorem step_goes_on (reading : Reading l piece) (c : Byte) (more : (l.step c).1 = false) :
    Reading (l.step c).2 (next piece c) ∧ Unbroken (piece ++ [c]) := by
  have distinct : CR ≠ LF := by decide
  obtain ⟨text, breturn, bnext⟩ := reading.step_put c more
  have unended : ∀ a ∈ piece.getLast?, ¬ LineEnd a c := by
    rintro a flag (⟨rfl, rfl⟩ | ⟨rfl, rfl⟩)
    · simp [Line.step, distinct.symm, reading.breturn.mpr flag] at more
    · simp [Line.step, reading.bnext.mpr flag] at more
  have unbroken : Unbroken (piece ++ [c]) :=
    List.isChain_append.mpr ⟨reading.unbroken, .singleton _, by simpa using unended⟩
  refine ⟨⟨text.trans (reading.put_text c), ?_, ?_, ?_, ?_⟩, unbroken⟩
  · simp [breturn, next_getLast]
  · simp [bnext, next_getLast]
  · simp only [next]
    split
    · exact unbroken
    · exact .singleton _
  · simp only [next]
    split
    · simpa using by assumption
    · simp [LINEBUFSIZE]

/-- Exactly a line end ends the line. -/
theorem step_ends_iff (reading : Reading l piece) (c : Byte) :
    (l.step c).1 = true ↔ ∃ a ∈ piece.getLast?, LineEnd a c := by
  constructor
  · intro ends
    obtain ⟨content, a, rfl, lineEnd, -⟩ := reading.step_ends c ends
    exact ⟨a, by simp, lineEnd⟩
  · rintro ⟨a, last, lineEnd⟩
    by_contra more
    obtain ⟨-, unbroken⟩ := reading.step_goes_on c (by simpa using more)
    exact (List.isChain_append.mp unbroken).2.2 a last c rfl lineEnd

/-- Every line of a chunk is a piece of it. -/
theorem lines_piece (reading : Reading l piece) {data line rest : List Byte}
    (found : (line, rest) ∈ l.lines data) :
    ∃ content a b, content ++ [a, b] <:+: piece ++ data ∧ LineEnd a b ∧ Unbroken (content ++ [a]) ∧
      content.length < LINEBUFSIZE ∧ line = content.map stored := by
  induction data generalizing l piece with
  | nil => simp [Line.lines] at found
  | cons c data ih =>
    simp only [Line.lines] at found
    cases stepped : l.step c with
    | mk ends l' =>
      rw [stepped] at found
      cases ends with
      | true =>
        obtain ⟨content, a, rfl, lineEnd, text⟩ := reading.step_ends c (by rw [stepped])
        rcases List.mem_cons.mp found with first | later
        · obtain ⟨rfl, rfl⟩ := Prod.mk.inj first
          refine ⟨content, a, c, ⟨[], rest, by simp⟩, lineEnd, reading.unbroken, ?_, ?_⟩
          · exact Nat.lt_of_succ_le (by simpa using reading.bound)
          · rw [← text, stepped]
        · obtain ⟨content', a', b', inside, others⟩ := ih .empty later
          refine ⟨content', a', b', inside.trans (List.IsSuffix.isInfix ?_), others⟩
          exact ⟨content ++ [a, c], by simp⟩
      | false =>
        obtain ⟨reading', -⟩ := reading.step_goes_on c (by rw [stepped])
        rw [stepped] at reading'
        obtain ⟨content', a', b', inside, others⟩ := ih reading' found
        refine ⟨content', a', b', inside.trans (List.IsSuffix.isInfix ?_), others⟩
        simp only [next]
        split
        · simp
        · exact ⟨piece, by simp⟩

/-- A piece that fits in the buffer is read to its line end. -/
theorem run_piece (reading : Reading l piece) {content unread rest : List Byte} {a b : Byte}
    (whole : piece ++ unread = content ++ [a]) (unbroken : Unbroken (content ++ [a]))
    (fits : content.length < LINEBUFSIZE) (lineEnd : LineEnd a b) :
    l.run (unread ++ b :: rest) = some (content.map stored, rest) := by
  induction unread generalizing l piece with
  | nil =>
    rw [List.append_nil] at whole
    subst whole
    have ends := (reading.step_ends_iff b).mpr ⟨a, by simp, lineEnd⟩
    obtain ⟨content', a', same, -, text⟩ := reading.step_ends b ends
    obtain ⟨rfl, -⟩ := List.append_inj' same rfl
    simp only [List.nil_append, Line.run]
    rw [show l.step b = (true, (l.step b).2) from Prod.ext ends rfl, ← text]
  | cons c unread ih =>
    have short : piece.length < LINEBUFSIZE := by
      have := congrArg List.length whole
      simp only [List.length_append, List.length_cons, List.length_nil] at this
      omega
    have more : (l.step c).1 = false := by
      rw [Bool.eq_false_iff]
      intro ends
      obtain ⟨a', last, lineEnd'⟩ := (reading.step_ends_iff c).mp ends
      rw [← whole, Unbroken, List.isChain_append] at unbroken
      exact unbroken.2.2 a' last c rfl lineEnd'
    obtain ⟨reading', -⟩ := reading.step_goes_on c more
    simp only [List.cons_append, Line.run]
    rw [show l.step c = (false, (l.step c).2) from Prod.ext more rfl]
    exact ih reading' (by simp [next, short, ← whole])

end Reading
end TestIOCP.Rtsp
