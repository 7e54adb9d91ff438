import Mathlib.Data.List.Basic
import Mathlib.Data.List.Infix

/-! Frames that arrive as a stream of bytes, cut where the stream happens to be cut: the
frames that are whole so far, and the part of the next one that has to be kept. -/
namespace Frames
variable {α : Type*}

/-- The frames that end within the first n elements of their stream, and what these hold of
the next frame. -/
def cut : List (List α) → Nat → List (List α) × List α
  | [], _ => ([], [])
  | f :: fs, n =>
    if f.length ≤ n then (f :: (cut fs (n - f.length)).1, (cut fs (n - f.length)).2)
    else ([], f.take n)

theorem cut_whole {f : List α} (fs : List (List α)) {n : Nat} (whole : f.length ≤ n) :
    cut (f :: fs) n = (f :: (cut fs (n - f.length)).1, (cut fs (n - f.length)).2) :=
  if_pos whole

theorem cut_part {f : List α} (fs : List (List α)) {n : Nat} (part : n < f.length) :
    cut (f :: fs) n = ([], f.take n) :=
  if_neg (not_le.mpr part)

theorem cut_front (fs : List (List α)) (n : Nat) : (cut fs n).1 <+: fs := by
  induction fs generalizing n with
  | nil => exact List.nil_prefix
  | cons f fs ih =>
    by_cases whole : f.length ≤ n
    · rw [cut_whole fs whole]
      exact List.cons_prefix_cons.mpr ⟨rfl, ih _⟩
    · rw [cut_part fs (not_le.mp whole)]
      exact List.nil_prefix

/-- Nothing is lost where a stream is cut. -/
theorem cut_stream (fs : List (List α)) (n : Nat) :
    (cut fs n).1.flatten ++ (cut fs n).2 = fs.flatten.take n := by
  induction fs generalizing n with
  | nil => simp [cut]
  | cons f fs ih =>
    rw [List.flatten_cons, List.take_append]
    by_cases whole : f.length ≤ n
    · rw [cut_whole fs whole, List.flatten_cons, List.append_assoc, ih,
        List.take_of_length_le whole]
    · rw [cut_part fs (not_le.mp whole), Nat.sub_eq_zero_of_le (by omega)]
      simp

/-- A frame that is kept is one that has not ended. -/
theorem cut_next {fs : List (List α)} {n : Nat} (kept : (cut fs n).2 ≠ []) :
    ∃ f, fs[(cut fs n).1.length]? = some f ∧ (cut fs n).2 = f.take (cut fs n).2.length ∧
      (cut fs n).2.length < f.length := by
  induction fs generalizing n with
  | nil => exact absurd rfl kept
  | cons f fs ih =>
    by_cases whole : f.length ≤ n
    · simp only [cut_whole fs whole] at kept ⊢
      obtain ⟨g, next, part, short⟩ := ih kept
      exact ⟨g, by simpa using next, part, short⟩
    · have part := not_le.mp whole
      simp only [cut_part fs part] at kept ⊢
      refine ⟨f, rfl, ?_, ?_⟩ <;> rw [List.length_take, Nat.min_eq_left part.le]
      exact part

/-- More of the stream is cut by going on with the part that was kept. -/
theorem cut_add (fs : List (List α)) (n m : Nat) :
    cut fs (n + m) =
      ((cut fs n).1 ++ (cut (fs.drop (cut fs n).1.length) ((cut fs n).2.length + m)).1,
        (cut (fs.drop (cut fs n).1.length) ((cut fs n).2.length + m)).2) := by
  induction fs generalizing n with
  | nil => simp [cut]
  | cons f fs ih =>
    by_cases whole : f.length ≤ n
    · rw [cut_whole fs whole, cut_whole fs (by omega : f.length ≤ n + m),
        show n + m - f.length = n - f.length + m by omega, ih]
      rfl
    · have part := not_le.mp whole
      rw [cut_part fs part]
      simp [Nat.min_eq_left part.le]

/-- What was kept and what comes next are the next elements of what is left of the stream. -/
theorem cut_resume (fs : List (List α)) (n m : Nat) :
    (cut fs n).2 ++ (fs.flatten.drop n).take m =
      (fs.drop (cut fs n).1.length).flatten.take ((cut fs n).2.length + m) := by
  induction fs generalizing n with
  | nil => simp [cut]
  | cons f fs ih =>
    by_cases whole : f.length ≤ n
    · rw [cut_whole fs whole, List.flatten_cons, List.drop_append, List.drop_of_length_le whole,
        List.nil_append, ih]
      rfl
    · have part := not_le.mp whole
      rw [cut_part fs part, List.length_take, Nat.min_eq_left part.le, List.length_nil,
        List.drop_zero, List.take_add, List.flatten_cons, List.take_append_of_le_length part.le]

/-- Frames that are sent later change nothing before them. -/
theorem cut_append (fs : List (List α)) {later : List (List α)} (some_ : ∀ f ∈ later, f ≠ [])
    {n : Nat} (before : n ≤ fs.flatten.length) : cut (fs ++ later) n = cut fs n := by
  induction fs generalizing n with
  | nil =>
    obtain rfl : n = 0 := by simpa using before
    cases later with
    | nil => rfl
    | cons f later =>
      have length := List.length_pos_iff.mpr (some_ f List.mem_cons_self)
      rw [List.nil_append, cut_part later length]
      rfl
  | cons f fs ih =>
    rw [List.flatten_cons, List.length_append] at before
    by_cases whole : f.length ≤ n
    · rw [List.cons_append, cut_whole _ whole, cut_whole _ whole, ih (by omega)]
    · rw [List.cons_append, cut_part _ (not_le.mp whole), cut_part _ (not_le.mp whole)]

end Frames
