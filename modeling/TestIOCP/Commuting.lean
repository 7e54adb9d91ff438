import Mathlib.Data.List.Basic

/-! Items that act on a state one after the other. Those of different kinds commute, and
those of no kind do nothing, so only the order within each kind counts. -/
namespace Commuting
variable {A S K : Type*} {f : S → A → S} {kind : A → Option K}

/-- An item goes to the front of others of other kinds. -/
theorem foldl_front (comm : ∀ s a b, kind a ≠ kind b → f (f s a) b = f (f s b) a)
    {before : List A} {a : A} (other : ∀ b ∈ before, kind b ≠ kind a) (after : List A) (s : S) :
    (before ++ a :: after).foldl f s = (before ++ after).foldl f (f s a) := by
  induction before generalizing s with
  | nil => rfl
  | cons b before ih =>
    obtain ⟨here, others⟩ := List.forall_mem_cons.mp other
    rw [List.cons_append, List.foldl_cons, ih others, List.cons_append, List.foldl_cons,
      comm s b a here]

/-- The first item of a kind, and those of other kinds before it. -/
theorem exists_first [DecidableEq K] {l rest : List A} {k : K} {a : A}
    (first : l.filter (kind · = some k) = a :: rest) :
    ∃ before after, l = before ++ a :: after ∧ ∀ b ∈ before, kind b ≠ some k := by
  obtain ⟨before, after, rfl, others, -, -⟩ := List.filter_eq_cons_iff.mp first
  exact ⟨before, after, rfl, by simpa using others⟩

theorem foldl_eq (kind : A → Option K) [DecidableEq K]
    (comm : ∀ s a b, kind a ≠ kind b → f (f s a) b = f (f s b) a)
    (idle : ∀ s a, kind a = none → f s a = s) {l l' : List A}
    (same : ∀ k, l.filter (kind · = some k) = l'.filter (kind · = some k)) (s : S) :
    l.foldl f s = l'.foldl f s := by
  induction l generalizing l' s with
  | nil =>
    -- no item is left that does anything
    induction l' generalizing s with
    | nil => rfl
    | cons b l' ih =>
      have none_ : kind b = none := by
        by_contra known
        obtain ⟨k, known⟩ := Option.ne_none_iff_exists'.mp known
        simpa [known] using same k
      rw [List.foldl_cons, idle s b none_]
      exact ih (fun k => by simpa [none_] using same k) s
  | cons a l ih =>
    cases known : kind a with
    | none =>
      rw [List.foldl_cons, idle s a known]
      exact ih (fun k => by simpa [known] using same k) s
    | some k =>
      have first : l'.filter (kind · = some k) = a :: l.filter (kind · = some k) := by
        rw [← same k, List.filter_cons_of_pos (by simpa using known)]
      obtain ⟨before, after, rfl, others⟩ := exists_first first
      rw [List.foldl_cons, foldl_front comm (fun b inside => known ▸ others b inside)]
      refine ih (fun k' => ?_) (f s a)
      have all := same k'
      rw [List.filter_append] at all ⊢
      by_cases this : k' = k
      · subst this
        have nothing : before.filter (kind · = some k') = [] := by simpa using others
        rw [nothing] at all ⊢
        simpa [known] using all
      · have differ : ¬ kind a = some k' := by simpa [known, eq_comm] using this
        simpa [differ] using all

end Commuting
