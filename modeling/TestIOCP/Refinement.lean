import TestIOCP.Serial

/-! Programs over two states. One refines the other when each of its runs is matched by a
run of the other that ends in a related state; operations that the other does not have are
silent. -/
namespace Program
variable {S L Op C T K Op' C' α α' β β' : Type} {Res : Op → Type} {Res' : Op' → Type}

/-- Some run of a program ends in the postcondition. -/
def Can (step : S → L → (op : Op) → C → Option (S × L × Res op)) :
    Program Op Res α → S → L → (α → S → L → Prop) → Prop
  | .ret a, s, l, Q => Q a s l
  | .call op rest, s, l, Q =>
    ∃ c s' l' r, step s l op c = some (s', l', r) ∧ (rest r).Can step s' l' Q

section
variable {step : S → L → (op : Op) → C → Option (S × L × Res op)} {s : S} {l : L}

theorem Can.mono {p : Program Op Res α} {Q R : α → S → L → Prop} (can : p.Can step s l Q)
    (weaker : ∀ a s l, Q a s l → R a s l) : p.Can step s l R := by
  induction p generalizing s l with
  | ret a => exact weaker a s l can
  | call op rest ih =>
    obtain ⟨c, s', l', r, taken, can⟩ := can
    exact ⟨c, s', l', r, taken, ih r can⟩

theorem Can.bind {p : Program Op Res α} {f : α → Program Op Res β} {Q : β → S → L → Prop}
    (can : p.Can step s l fun a s l => (f a).Can step s l Q) : (p >>= f).Can step s l Q := by
  induction p generalizing s l with
  | ret a => exact can
  | call op rest ih =>
    obtain ⟨c, s', l', r, taken, can⟩ := can
    exact ⟨c, s', l', r, taken, ih r can⟩

/-- What every operation keeps, the run keeps. -/
theorem Can.keeps {p : Program Op Res α} {Q : α → S → L → Prop} {I : S → Prop}
    (each : ∀ s l op c s' l' r, I s → step s l op c = some (s', l', r) → I s')
    (can : p.Can step s l Q) (now : I s) : p.Can step s l fun a s l => Q a s l ∧ I s := by
  induction p generalizing s l with
  | ret a => exact ⟨can, now⟩
  | call op rest ih =>
    obtain ⟨c, s', l', r, taken, can⟩ := can
    exact ⟨c, s', l', r, taken, ih r can (each _ _ _ _ _ _ _ now taken)⟩

/-- The end of the run. -/
theorem Can.result {p : Program Op Res α} {Q : α → S → L → Prop} (can : p.Can step s l Q) :
    ∃ a s' l', Q a s' l' ∧ p.Can step s l fun b t k => b = a ∧ t = s' ∧ k = l' := by
  induction p generalizing s l with
  | ret a => exact ⟨a, s, l, can, rfl, rfl, rfl⟩
  | call op rest ih =>
    obtain ⟨c, s', l', r, taken, can⟩ := can
    obtain ⟨a, s'', l'', holds, can⟩ := ih r can
    exact ⟨a, s'', l'', holds, c, s', l', r, taken, can⟩

end

/-- Every run of a program from a state is matched by one of the other program from the
other state, and the ends of the two runs are related. -/
def Refines (step : S → L → (op : Op) → C → Option (S × L × Res op)) (allowed : S → Op → Prop)
    (step' : T → K → (op : Op') → C' → Option (T × K × Res' op)) (p : Program Op Res α)
    (q : Program Op' Res' β) (s : S) (l : L) (t : T) (k : K)
    (Q : α → S → L → β → T → K → Prop) : Prop :=
  p.Ensures step allowed s l fun a s l => q.Can step' t k fun b t k => Q a s l b t k

namespace Refines
variable {step : S → L → (op : Op) → C → Option (S × L × Res op)} {allowed : S → Op → Prop}
  {step' : T → K → (op : Op') → C' → Option (T × K × Res' op)} {p : Program Op Res α}
  {q : Program Op' Res' β} {s : S} {l : L} {t : T} {k : K} {Q : α → S → L → β → T → K → Prop}

theorem ret {a : α} {b : β} (related : Q a s l b t k) :
    Refines step allowed step' (.ret a) (.ret b) s l t k Q :=
  related

/-- The rule of composition. -/
theorem seq {f : α → Program Op Res α'} {g : β → Program Op' Res' β'}
    {R : α → S → L → β → T → K → Prop} {Q : α' → S → L → β' → T → K → Prop}
    (first : Refines step allowed step' p q s l t k R)
    (rest : ∀ a s l b t k, R a s l b t k → Refines step allowed step' (f a) (g b) s l t k Q) :
    Refines step allowed step' (p >>= f) (q >>= g) s l t k Q := by
  refine Ensures.seq first fun a s' l' can => ?_
  obtain ⟨b, t', k', related, ran⟩ := can.result
  refine Ensures.mono (rest a s' l' b t' k' related) fun a' s'' l'' can' => Can.bind ?_
  refine ran.mono ?_
  rintro _ _ _ ⟨rfl, rfl, rfl⟩
  exact can'

/-- A part of the program that the other one does not have. -/
theorem silent {f : α → Program Op Res α'} {R : α → S → L → Prop}
    {Q : α' → S → L → β → T → K → Prop} (first : p.Ensures step allowed s l R)
    (rest : ∀ a s l, R a s l → Refines step allowed step' (f a) q s l t k Q) :
    Refines step allowed step' (p >>= f) q s l t k Q :=
  Ensures.seq first rest

/-- A silent part at the end. -/
theorem tail {f : α → Program Op Res α'} {R : α → S → L → β → T → K → Prop}
    {Q : α' → S → L → β → T → K → Prop} (first : Refines step allowed step' p q s l t k R)
    (rest : ∀ a s l b t k, R a s l b t k → (f a).Ensures step allowed s l fun a s l =>
      Q a s l b t k) :
    Refines step allowed step' (p >>= f) q s l t k Q := by
  rw [← bind_ret q]
  exact first.seq rest

/-- A part of the other program at the end, of which any run will do. -/
theorem last {g : β → Program Op' Res' β'} {R : α → S → L → β → T → K → Prop}
    {Q : α → S → L → β' → T → K → Prop} (first : Refines step allowed step' p q s l t k R)
    (rest : ∀ a s l b t k, R a s l b t k → (g b).Can step' t k (Q a s l)) :
    Refines step allowed step' p (q >>= g) s l t k Q := by
  rw [← bind_ret p]
  exact first.seq rest

/-- An operation of the other program, with an outcome that matches. -/
theorem right {op : Op'} {rest : Res' op → Program Op' Res' β} {c : C'} {t' : T} {k' : K}
    {r : Res' op} (taken : step' t k op c = some (t', k', r))
    (refines : Refines step allowed step' p (rest r) s l t' k' Q) :
    Refines step allowed step' p (.call op rest) s l t k Q :=
  Ensures.mono refines fun _ _ _ can => ⟨c, t', k', r, taken, can⟩

/-- What the runs of the program ensure besides. -/
theorem and {R : α → S → L → Prop} (refines : Refines step allowed step' p q s l t k Q)
    (ensures : p.Ensures step allowed s l R) :
    Refines step allowed step' p q s l t k fun a s l b t k => Q a s l b t k ∧ R a s l := by
  refine Ensures.mono (Ensures.and refines ensures) ?_
  rintro a s l ⟨can, holds⟩
  exact can.mono fun b t k related => ⟨related, holds⟩

/-- What every operation of the other program keeps. -/
theorem keeps {I : T → Prop} (refines : Refines step allowed step' p q s l t k Q)
    (each : ∀ t k op c t' k' r, I t → step' t k op c = some (t', k', r) → I t') (now : I t) :
    Refines step allowed step' p q s l t k fun a s l b t k => Q a s l b t k ∧ I t :=
  Ensures.mono refines fun _ _ _ can => can.keeps each now

end Refines
end Program

namespace Transition.Semantics
open Program
variable {T U S L Op C E S' L' Op' C' E' : Type} {Res : Op → Type} {Res' : Op' → Type}
  [DecidableEq T] [DecidableEq U] {m : Semantics S L Op Res C E}
  {m' : Semantics S' L' Op' Res' C' E'} {initial : S → Prop} {none : L}

/-- A thread may take the run that its program can take. -/
theorem reachable_can {guard : Config T S L Op Res → Label T C E → Prop} {t : T}
    (free : ∀ s c, guard s (.step t c)) {own : T → L} {code : T → Program Op Res Unit} {s : S}
    {l : L} {p : Program Op Res Unit} {Q : Unit → S → L → Prop}
    (reached : (m.system initial none).ReachableUnder guard
      ⟨s, Function.update own t l, Function.update code t p⟩) (can : p.Can m.step s l Q) :
    ∃ s' l', Q () s' l' ∧ (m.system initial none).ReachableUnder guard
      ⟨s', Function.update own t l', Function.update code t (.ret ())⟩ := by
  induction p generalizing s l with
  | ret a => exact ⟨s, l, can, reached⟩
  | call op rest ih =>
    obtain ⟨c, s', l', r, taken, can⟩ := can
    refine ih r ?_ can
    refine reached.step (l := .step t c) (free _ c) ?_
    simp [system, next, taken]

/-- A state without a running call. -/
def Rested (m : Semantics S L Op Res C E) (initial : S → Prop) (none : L) (T : Type)
    [DecidableEq T] (s : S) : Prop :=
  ∃ c : Config T S L Op Res, (m.system initial none).ReachableUnder
    (Serial (fun _ _ => True) fun _ _ => True) c ∧ (∀ t, c.code t = .ret ()) ∧ c.shared = s

/-- A call from a state without a running call, with a run that it can take. -/
theorem Rested.call {s s' : S} {l : L} {e : E} {p : Program Op Res Unit} {Q : Unit → S → L → Prop}
    (rested : m.Rested initial none T s) (t : T) (entered : m.enter s e = some (s', l, p))
    (can : p.Can m.step s' l Q) : ∃ s'' l', Q () s'' l' ∧ m.Rested initial none T s'' := by
  obtain ⟨c, reached, quiet, rfl⟩ := rested
  have free (s : Config T S L Op Res) (choice : C) :
      Serial (fun _ _ => True) (fun _ _ => True) s (.step (E := E) t choice) := by
    simp only [Serial]
    split <;> trivial
  have reached := reachable_enter reached ⟨quiet, trivial⟩ (quiet t) entered
  obtain ⟨s'', l', holds, reached⟩ := reachable_can free reached can
  refine ⟨s'', l', holds, _, reached, fun u => ?_, rfl⟩
  by_cases same : u = t
  · simp [same]
  · simp [same, quiet u]

/-- Where every call refines one of the other semantics, every run of calls does. -/
theorem rested_of_refined {initial' : S' → Prop} {none' : L'} {permitted : S → E → Prop}
    {allowed : S → Op → Prop} {R : S → S' → Prop} (u : U)
    (start : ∀ s, initial s → ∃ t, m'.Rested initial' none' U t ∧ R s t)
    (call : ∀ s t e s₁ l p, R s t → permitted s e → m.enter s e = some (s₁, l, p) →
      ∃ e' t₁ k p', m'.enter t e' = some (t₁, k, p') ∧
        Refines m.step allowed m'.step p p' s₁ l t₁ k fun _ s _ _ t _ => R s t)
    {c : Config T S L Op Res}
    (run : (m.system initial none).ReachableUnder (Serial permitted allowed) c)
    (rest : ∀ t, c.code t = .ret ()) : ∃ t, m'.Rested initial' none' U t ∧ R c.shared t := by
  refine holds_at_rest (I := fun s => ∃ t, m'.Rested initial' none' U t ∧ R s t) start ?_ run rest
  rintro s e s₁ l p ⟨t, rested, related⟩ may entered
  obtain ⟨e', t₁, k, p', entered', refines⟩ := call s t e s₁ l p related may entered
  refine Ensures.mono refines fun _ s' _ can => ?_
  obtain ⟨t', k', related, rested⟩ := rested.call u entered' can
  exact ⟨t', rested, related⟩

end Transition.Semantics
