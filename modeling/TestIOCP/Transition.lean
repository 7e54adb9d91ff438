import Mathlib.Logic.Relation

/-! Labelled transition systems. A label resolves every choice of a step, so a
step is a partial function that can be run, and nondeterminism is the choice of
labels. Runs may be restricted by a guard on the state before each step. -/
namespace Transition

structure System (S L : Type*) where
  initial : S → Prop
  next : S → L → Option S

namespace System
variable {S L : Type*}

/-- States reached by the runs all of whose steps meet the guard. -/
inductive ReachableUnder (m : System S L) (guard : S → L → Prop) : S → Prop where
  | initial : m.initial s → ReachableUnder m guard s
  | step : ReachableUnder m guard s → guard s l → m.next s l = some t → ReachableUnder m guard t

def Reachable (m : System S L) : S → Prop :=
  m.ReachableUnder (fun _ _ => True)

variable {m : System S L} {guard : S → L → Prop}

theorem ReachableUnder.invariant {P : S → Prop} (start : ∀ s, m.initial s → P s)
    (preserves : ∀ s l t, P s → guard s l → m.next s l = some t → P t)
    (run : m.ReachableUnder guard s) : P s := by
  induction run with
  | initial first => exact start _ first
  | step _ allowed taken ih => exact preserves _ _ _ ih allowed taken

theorem ReachableUnder.weaken {wider : S → L → Prop} (weaker : ∀ s l, guard s l → wider s l)
    (run : m.ReachableUnder guard s) : m.ReachableUnder wider s := by
  induction run with
  | initial first => exact .initial first
  | step _ allowed taken ih => exact .step ih (weaker _ _ allowed) taken

/-- What holds in every run may be used at every step of one. -/
theorem ReachableUnder.attach {P : S → Prop} (holds : ∀ s, m.ReachableUnder guard s → P s)
    (run : m.ReachableUnder guard s) : m.ReachableUnder (fun s l => guard s l ∧ P s) s := by
  induction run with
  | initial first => exact .initial first
  | step reached allowed taken ih => exact ih.step ⟨allowed, holds _ reached⟩ taken

theorem ReachableUnder.reachable (run : m.ReachableUnder guard s) : m.Reachable s :=
  run.weaken (fun _ _ _ => trivial)

/-- The run that a list of labels describes, if every step of it is possible. -/
def run (m : System S L) : S → List L → Option S
  | s, [] => some s
  | s, l :: ls => match m.next s l with
    | none => none
    | some t => m.run t ls

theorem run_reachable (from_ : m.Reachable s) (ran : m.run s ls = some t) : m.Reachable t := by
  induction ls generalizing s with
  | nil => exact Option.some.inj ran ▸ from_
  | cons l ls ih =>
    simp only [run] at ran
    split at ran
    · contradiction
    · rename_i next taken
      exact ih (from_.step trivial taken) ran

/-- A run that also checks a decidable guard before every step. -/
def runUnder (m : System S L) (guard : S → L → Prop) [∀ s l, Decidable (guard s l)] :
    S → List L → Option S
  | s, [] => some s
  | s, l :: ls =>
    if guard s l then
      match m.next s l with
      | none => none
      | some t => m.runUnder guard t ls
    else none

theorem runUnder_reachable [∀ s l, Decidable (guard s l)] (from_ : m.ReachableUnder guard s)
    (ran : m.runUnder guard s ls = some t) : m.ReachableUnder guard t := by
  induction ls generalizing s with
  | nil => exact Option.some.inj ran ▸ from_
  | cons l ls ih =>
    simp only [runUnder] at ran
    split at ran
    · rename_i allowed
      split at ran
      · contradiction
      · rename_i next taken
        exact ih (from_.step allowed taken) ran
    · contradiction

/-- Each step of the run that a list of labels describes has a property. -/
def EveryStep (m : System S L) (P : S → L → S → Prop) : S → List L → Prop
  | _, [] => True
  | s, l :: ls => ∀ t, m.next s l = some t → P s l t ∧ m.EveryStep P t ls

/-- A property that keeps an invariant, under which it gives another one. -/
theorem EveryStep.imp {P Q : S → L → S → Prop} {Inv : S → Prop}
    (preserves : ∀ s l t, Inv s → m.next s l = some t → P s l t → Inv t)
    (weaker : ∀ s l t, Inv s → m.next s l = some t → P s l t → Q s l t) {ls : List L}
    (start : Inv s) (each : m.EveryStep P s ls) : m.EveryStep Q s ls := by
  induction ls generalizing s with
  | nil => trivial
  | cons l ls ih =>
    intro t taken
    obtain ⟨holds, later⟩ := each t taken
    exact ⟨weaker s l t start taken holds, ih (preserves s l t start taken holds) later⟩

theorem EveryStep.last {P : S → L → S → Prop} {ls : List L} {l : L}
    (each : m.EveryStep P s (ls ++ [l])) (ran : m.run s (ls ++ [l]) = some t) :
    ∃ u, P u l t := by
  induction ls generalizing s with
  | nil =>
    simp only [List.nil_append, run] at ran
    split at ran
    · contradiction
    · rename_i u taken
      cases ran
      exact ⟨s, (each t taken).1⟩
  | cons first ls ih =>
    simp only [List.cons_append, run] at ran
    split at ran
    · contradiction
    · rename_i u taken
      exact ih (each u taken).2 ran

instance decidableEveryStep (m : System S L) (P : S → L → S → Prop)
    [∀ s l t, Decidable (P s l t)] : (s : S) → (ls : List L) → Decidable (m.EveryStep P s ls)
  | _, [] => .isTrue trivial
  | s, l :: ls =>
    match next : m.next s l with
    | none => .isTrue (by
        intro t taken
        rw [next] at taken
        cases taken)
    | some t =>
      have := decidableEveryStep m P t ls
      decidable_of_iff (P s l t ∧ m.EveryStep P t ls) (by
        simp only [EveryStep, next, Option.some.injEq, forall_eq'])

end System
end Transition
