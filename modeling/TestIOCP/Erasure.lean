import TestIOCP.Program

/-! Programs that also perform operations which leave the state of another semantics as
it is. Erasing these, and what only they read, leaves a run of the other semantics. -/
namespace Transition.Semantics
open Program

variable {T S S' L L' Op Op' C C' E E' : Type} {Res : Op → Type} {Res' : Op' → Type}

/-- An operation is erased, or it is one operation of the other semantics. -/
structure Erases (m : Semantics S L Op Res C E)
    (m' : Semantics S' L' Op' Res' C' E') (view : S → S')
    (own : L → L') (h : (op : Op) → Program Op' Res' (Res op)) : Prop where
  enter : ∀ s e s₁ l p, m.enter s e = some (s₁, l, p) →
    ∃ e', m'.enter (view s) e' = some (view s₁, own l, p.translate h)
  step : ∀ s l op c s₁ l₁ r, m.step s l op c = some (s₁, l₁, r) →
    (h op = .ret r ∧ view s₁ = view s ∧ own l₁ = own l) ∨
    ∃ op' rest c' r', h op = .call op' rest ∧
      m'.step (view s) (own l) op' c' = some (view s₁, own l₁, r') ∧ rest r' = .ret r

/-- What is left of a configuration. -/
def erase (view : S → S') (own : L → L') (h : (op : Op) → Program Op' Res' (Res op))
    (s : Config T S L Op Res) : Config T S' L' Op' Res' :=
  ⟨view s.shared, fun t => own (s.own t), fun t => (s.code t).translate h⟩

namespace Erases
variable {m : Semantics S L Op Res C E} {m' : Semantics S' L' Op' Res' C' E'} {view : S → S'}
  {own : L → L'} {h : (op : Op) → Program Op' Res' (Res op)} {initial : S → Prop}
  {initial' : S' → Prop} {none : L} {none' : L'} [DecidableEq T] {s : Config T S L Op Res}

theorem erase_update (shared : S) (t : T) (l : L) (p : Program Op Res Unit) :
    erase view own h ⟨shared, Function.update s.own t l, Function.update s.code t p⟩ =
      ⟨view shared, Function.update (erase view own h s).own t (own l),
        Function.update (erase view own h s).code t (p.translate h)⟩ := by
  simp only [erase, Config.mk.injEq, true_and]
  constructor
  all_goals
    funext u
    by_cases same : u = t
    · subst same
      simp
    · simp [same]

/-- What is left of a step: nothing, or a step of the same thread. -/
inductive Erased (m' : Semantics S' L' Op' Res' C' E') (view : S → S') (own : L → L')
    (h : (op : Op) → Program Op' Res' (Res op)) (s : Config T S L Op Res) :
    Label T C E → Config T S L Op Res → Prop where
  | silent : erase view own h s' = erase view own h s → Erased m' view own h s label s'
  | enter : m'.next (erase view own h s) (.enter t e') = some (erase view own h s') →
    Erased m' view own h s (.enter t e) s'
  | step : s.code t = .call op rest → h op = .call op' rest' →
    m'.next (erase view own h s) (.step t c') = some (erase view own h s') →
    Erased m' view own h s (.step t c) s'

theorem erased (erases : m.Erases m' view own h) {label : Label T C E} {s' : Config T S L Op Res}
    (taken : m.next s label = some s') : Erased m' view own h s label s' := by
  cases label with
  | enter t e =>
    simp only [Semantics.next] at taken
    split at taken
    · rename_i code_
      obtain ⟨⟨shared, l, p⟩, entered, rfl⟩ := Option.map_eq_some_iff.mp taken
      obtain ⟨e', entered'⟩ := erases.enter _ _ _ _ _ entered
      have idle : (erase view own h s).code t = .ret () := by simp [erase, code_]
      suffices taken' : m'.next (erase view own h s) (.enter t e') =
          some (erase view own h ⟨shared, _, _⟩) from .enter taken'
      rw [erase_update]
      simp only [Semantics.next, idle]
      exact Option.map_eq_some_iff.mpr ⟨_, entered', rfl⟩
    · contradiction
  | step t c =>
    simp only [Semantics.next] at taken
    split at taken
    · contradiction
    rename_i op rest code_
    obtain ⟨⟨shared, l, r⟩, performed, rfl⟩ := Option.map_eq_some_iff.mp taken
    have code : (erase view own h s).code t = h op >>= fun r => (rest r).translate h := by
      simp [erase, code_]
    rcases erases.step _ _ _ _ _ _ _ performed with ⟨erased, same, same'⟩ |
      ⟨op', rest', c', r', op_, performed', result⟩
    · apply Erased.silent
      rw [erase_update]
      rw [erased] at code
      have code' : (rest r).translate h = (erase view own h s).code t := code.symm
      have own' : own l = (erase view own h s).own t := same'
      rw [same, code', own', Function.update_eq_self, Function.update_eq_self]
      rfl
    · suffices taken' : m'.next (erase view own h s) (.step t c') =
          some (erase view own h ⟨shared, _, _⟩) from .step code_ op_ taken'
      rw [erase_update]
      rw [op_] at code
      simp only [Semantics.next, code, call_bind]
      refine Option.map_eq_some_iff.mpr ⟨_, performed', ?_⟩
      simp [result]

/-- A step is erased, or a step of the other semantics. -/
theorem next (erases : m.Erases m' view own h) {label : Label T C E} {s' : Config T S L Op Res}
    (taken : m.next s label = some s') : erase view own h s' = erase view own h s ∨
      ∃ label', m'.next (erase view own h s) label' = some (erase view own h s') := by
  cases erases.erased taken with
  | silent same => exact .inl same
  | enter taken' => exact .inr ⟨_, taken'⟩
  | step _ _ taken' => exact .inr ⟨_, taken'⟩

/-- What is left of a run is a run. -/
theorem reachable (erases : m.Erases m' view own h) (start : ∀ s, initial s → initial' (view s))
    (resting : own none = none') {guard : Config T S L Op Res → Label T C E → Prop}
    (run : (m.system initial none).ReachableUnder guard s) :
    (m'.system initial' none').Reachable (erase view own h s) := by
  induction run with
  | initial first =>
    refine .initial ⟨start _ first.1, fun t => ?_⟩
    obtain ⟨own_, code⟩ := first.2 t
    simp [erase, own_, code, resting]
  | step _ _ taken ih =>
    rcases erases.next taken with same | ⟨label, taken'⟩
    · exact same ▸ ih
    · exact ih.step trivial taken'

/-- And it meets a guard that the run implies at the steps that are left. -/
theorem reachableUnder (erases : m.Erases m' view own h)
    (start : ∀ s, initial s → initial' (view s)) (resting : own none = none')
    {guard : Config T S L Op Res → Label T C E → Prop}
    {guard' : Config T S' L' Op' Res' → Label T C' E' → Prop}
    (entering : ∀ s t e, guard' s (.enter t e))
    (stepping : ∀ s t c c' op rest op' rest', s.code t = .call op rest → h op = .call op' rest' →
      guard s (.step t c) → guard' (erase view own h s) (.step t c'))
    (run : (m.system initial none).ReachableUnder guard s) :
    (m'.system initial' none').ReachableUnder guard' (erase view own h s) := by
  induction run with
  | initial first =>
    apply System.ReachableUnder.initial
    refine ⟨start _ first.1, fun t => ?_⟩
    obtain ⟨own_, code⟩ := first.2 t
    simp [erase, own_, code, resting]
  | step _ allowed taken ih =>
    cases erases.erased taken with
    | silent same => exact same ▸ ih
    | enter taken' => exact ih.step (entering _ _ _) taken'
    | step code op_ taken' => exact ih.step (stepping _ _ _ _ _ _ _ _ code op_ allowed) taken'

end Erases
end Transition.Semantics
