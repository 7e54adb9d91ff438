import TestIOCP.Program
import Mathlib.Data.Fintype.Basic

/-! Calls that run one at a time. What a whole call ensures is read off its program,
operation by operation; an invariant that every call ensures holds whenever no call
is running. -/
namespace Program
variable {S L Op C α β : Type} {Res : Op → Type}

/-- Every run of a program all of whose operations are allowed ends in the
postcondition. -/
def Ensures (step : S → L → (op : Op) → C → Option (S × L × Res op)) (allowed : S → Op → Prop) :
    Program Op Res α → S → L → (α → S → L → Prop) → Prop
  | .ret a, s, l, Q => Q a s l
  | .call op rest, s, l, Q =>
    allowed s op → ∀ c s' l' r, step s l op c = some (s', l', r) →
      (rest r).Ensures step allowed s' l' Q

variable {step : S → L → (op : Op) → C → Option (S × L × Res op)} {allowed : S → Op → Prop}
  {s : S} {l : L}

@[simp] theorem ensures_ret (a : α) (Q : α → S → L → Prop) :
    (ret a : Program Op Res α).Ensures step allowed s l Q ↔ Q a s l := Iff.rfl

@[simp] theorem ensures_call (op : Op) (rest : Res op → Program Op Res α) (Q : α → S → L → Prop) :
    (call op rest).Ensures step allowed s l Q ↔ (allowed s op → ∀ c s' l' r,
      step s l op c = some (s', l', r) → (rest r).Ensures step allowed s' l' Q) := Iff.rfl

theorem Ensures.mono {p : Program Op Res α} {Q R : α → S → L → Prop}
    (ensures : p.Ensures step allowed s l Q) (weaker : ∀ a s l, Q a s l → R a s l) :
    p.Ensures step allowed s l R := by
  induction p generalizing s l with
  | ret a => exact weaker a s l ensures
  | call op rest ih =>
    exact fun permitted c s' l' r taken => ih r (ensures permitted c s' l' r taken)

theorem Ensures.bind {p : Program Op Res α} {f : α → Program Op Res β} {Q : β → S → L → Prop}
    (ensures : p.Ensures step allowed s l (fun a s l => (f a).Ensures step allowed s l Q)) :
    (p >>= f).Ensures step allowed s l Q := by
  induction p generalizing s l with
  | ret a => exact ensures
  | call op rest ih =>
    exact fun permitted c s' l' r taken => ih r (ensures permitted c s' l' r taken)

/-- The rule of composition: what the first part ensures is all that the rest needs. -/
theorem Ensures.seq {p : Program Op Res α} {f : α → Program Op Res β} {R : α → S → L → Prop}
    {Q : β → S → L → Prop} (first : p.Ensures step allowed s l R)
    (rest : ∀ a s l, R a s l → (f a).Ensures step allowed s l Q) :
    (p >>= f).Ensures step allowed s l Q :=
  (first.mono rest).bind

theorem Ensures.forM {items : List β} {body : β → Program Op Res PUnit} {I : S → Prop}
    (each : ∀ item s l, I s → (body item).Ensures step allowed s l (fun _ s _ => I s))
    (start : I s) :
    (items.forM body).Ensures step allowed s l (fun _ s _ => I s) := by
  induction items generalizing s l with
  | nil => exact start
  | cons item rest ih => exact (each item s l start).seq fun _ s l now => ih now

theorem Ensures.and {p : Program Op Res α} {Q R : α → S → L → Prop}
    (left : p.Ensures step allowed s l Q)
    (right : p.Ensures step allowed s l R) :
      p.Ensures step allowed s l (fun a s l => Q a s l ∧ R a s l) := by
  induction p generalizing s l with
  | ret a => exact ⟨left, right⟩
  | call op rest ih =>
    exact fun permitted c s' l' r taken =>
      ih r (left permitted c s' l' r taken) (right permitted c s' l' r taken)

/-- Every operation that a program can perform is of one kind. -/
def Every (P : Op → Prop) : Program Op Res α → Prop
  | .ret _ => True
  | .call op rest => P op ∧ ∀ r, (rest r).Every P

theorem Every.perform {P : Op → Prop} {op : Op} (kind : P op) :
    (Program.perform op : Program Op Res (Res op)).Every P :=
  ⟨kind, fun _ => trivial⟩

theorem Every.of_all {P : Op → Prop} (all : ∀ op, P op) {p : Program Op Res α} : p.Every P := by
  induction p with
  | ret a => trivial
  | call op rest ih => exact ⟨all op, ih⟩

theorem Every.bind {P : Op → Prop} {p : Program Op Res α} {f : α → Program Op Res β}
    (first : p.Every P) (rest : ∀ a, (f a).Every P) : (p >>= f).Every P := by
  induction p with
  | ret a => exact rest a
  | call op next ih => exact ⟨first.1, fun r => ih r (first.2 r)⟩

theorem Every.forM {P : Op → Prop} {items : List β} {body : β → Program Op Res PUnit}
    (each : ∀ item ∈ items, (body item).Every P) : (items.forM body).Every P := by
  induction items with
  | nil => trivial
  | cons item rest ih =>
    exact (each item List.mem_cons_self).bind fun _ =>
      ih fun other inside => each other (List.mem_cons_of_mem item inside)

theorem Every.translate {Op' : Type} {Res' : Op' → Type} {P : Op → Prop} {P' : Op' → Prop}
    {p : Program Op Res α}
    {h : (op : Op) → Program Op' Res' (Res op)} (every : p.Every P)
    (each : ∀ op, P op → (h op).Every P') :
    (p.translate h).Every P' := by
  induction p with
  | ret a => trivial
  | call op rest ih => exact (each op every.1).bind fun r => ih r (every.2 r)

/-- What every operation of a program keeps, the program keeps. -/
theorem Every.ensures {P : Op → Prop} {I : S → Prop} {p : Program Op Res α} (every : p.Every P)
    (keeps : ∀ s l op c s' l' r, P op → I s → step s l op c = some (s', l', r) → I s')
    (now : I s) : p.Ensures step allowed s l (fun _ s _ => I s) := by
  induction p generalizing s l with
  | ret a => exact now
  | call op rest ih =>
    exact fun _ c s' l' r taken => ih r (every.2 r) (keeps _ _ _ _ _ _ _ every.1 now taken)

/-- The run of a program without interruption, with one choice throughout. -/
def exec (step : S → L → (op : Op) → C → Option (S × L × Res op)) (c : C) :
    Program Op Res α → S → L → Option (S × L × α)
  | .ret a, s, l => some (s, l, a)
  | .call op rest, s, l => (step s l op c).bind fun (s', l', r) => (rest r).exec step c s' l'

end Program

namespace Transition
open Program

namespace Semantics
variable {T S L Op C E : Type} {Res : Op → Type} {m : Semantics S L Op Res C E}
  {allowed : S → Op → Prop}

section
variable [DecidableEq T] {initial : S → Prop} {none : L} {c : C} {t : T} {p : Program Op Res Unit}
  {guard : Config T S L Op Res → Label T C E → Prop}

/-- What a thread runs without interruption is reachable, if the guard is no obstacle to the
operations that it performs. -/
theorem reachable_every {P : Op → Prop} (every : p.Every P)
    (free : ∀ (s : Config T S L Op Res) op rest, P op → s.code t = .call op rest →
      guard s (.step t c))
    {own : T → L} {code : T → Program Op Res Unit} {s s' : S} {l l' : L}
    (reached : (m.system initial none).ReachableUnder guard
      ⟨s, Function.update own t l, Function.update code t p⟩)
    (ran : p.exec m.step c s l = some (s', l', ())) : (m.system initial none).ReachableUnder guard
      ⟨s', Function.update own t l', Function.update code t (.ret ())⟩ := by
  induction p generalizing s l with
  | ret a =>
    cases ran
    exact reached
  | call op rest ih =>
    simp only [exec, Option.bind_eq_some_iff] at ran
    obtain ⟨⟨s₁, l₁, r⟩, taken, ran⟩ := ran
    refine ih r (every.2 r) ?_ ran
    refine reached.step (l := .step t c) (free _ op rest every.1 (by simp)) ?_
    simp [system, next, taken]

/-- The same for a call whose first operation is of another kind. -/
theorem reachable_first {P : Op → Prop} {op : Op} {rest : Res op → Program Op Res Unit}
    (every : ∀ r, (rest r).Every P)
    (free : ∀ (s : Config T S L Op Res) op rest, P op → s.code t = .call op rest →
      guard s (.step t c))
    {own : T → L} {code : T → Program Op Res Unit} {s s' : S} {l l' : L}
    (permitted : guard ⟨s, Function.update own t l, Function.update code t (.call op rest)⟩
      (.step t c))
    (reached : (m.system initial none).ReachableUnder guard
      ⟨s, Function.update own t l, Function.update code t (.call op rest)⟩)
    (ran : (call op rest).exec m.step c s l = some (s', l', ())) :
    (m.system initial none).ReachableUnder guard
      ⟨s', Function.update own t l', Function.update code t (.ret ())⟩ := by
  simp only [exec, Option.bind_eq_some_iff] at ran
  obtain ⟨⟨s₁, l₁, r⟩, taken, ran⟩ := ran
  refine reachable_every (every r) free ?_ ran
  refine reached.step (l := .step t c) permitted ?_
  simp [system, next, taken]

theorem reachable_exec (free : ∀ s, guard s (.step t c)) {own : T → L}
    {code : T → Program Op Res Unit} {s s' : S} {l l' : L}
    (reached : (m.system initial none).ReachableUnder guard
      ⟨s, Function.update own t l, Function.update code t p⟩)
    (ran : p.exec m.step c s l = some (s', l', ())) : (m.system initial none).ReachableUnder guard
      ⟨s', Function.update own t l', Function.update code t (.ret ())⟩ :=
  reachable_every (P := fun _ => True) (.of_all fun _ => trivial) (fun s _ _ _ _ => free s)
    reached ran

theorem reachable_enter {e : E} {s : Config T S L Op Res} {s' : S} {l : L}
    (reached : (m.system initial none).ReachableUnder guard s) (permitted : guard s (.enter t e))
    (idle : s.code t = .ret ()) (entered : m.enter s.shared e = some (s', l, p)) :
    (m.system initial none).ReachableUnder guard
      ⟨s', Function.update s.own t l, Function.update s.code t p⟩ := by
  refine reached.step (l := .enter t e) permitted ?_
  simp [system, next, idle, entered]

/-- A call that an idle thread runs without interruption. -/
theorem reachable_call (free : ∀ s, guard s (.step t c)) {e : E} {s : Config T S L Op Res}
    {s₁ s' : S} {l l' : L} (reached : (m.system initial none).ReachableUnder guard s)
    (permitted : guard s (.enter t e)) (idle : s.code t = .ret ())
    (entered : m.enter s.shared e = some (s₁, l, p))
    (ran : p.exec m.step c s₁ l = some (s', l', ())) :
    (m.system initial none).ReachableUnder guard
      ⟨s', Function.update s.own t l', Function.update s.code t (.ret ())⟩ :=
  reachable_exec free (reachable_enter reached permitted idle entered) ran

end

/-- Only the choices that a condition permits are left. -/
def restrict (m : Semantics S L Op Res C E) (may : S → Op → C → Prop)
    [∀ s op c, Decidable (may s op c)] :
    Semantics S L Op Res C E where
  enter := m.enter
  step s l op c := if may s op c then m.step s l op c else none

/-- Its runs are those whose steps all meet the condition. -/
theorem reachable_restrict [DecidableEq T] {initial : S → Prop} {none : L} {may : S → Op → C → Prop}
    [∀ s op c, Decidable (may s op c)] {guard : Config T S L Op Res → Label T C E → Prop}
    {s : Config T S L Op Res} :
    ((m.restrict may).system initial none).ReachableUnder guard s ↔
      (m.system initial none).ReachableUnder
      (fun s label => guard s label ∧ Guarded (fun s _ _ op c => may s op c) s label) s := by
  have next (s s' : Config T S L Op Res) (label : Label T C E) :
      ((m.restrict may).system initial none).next s label = some s' ↔
        (m.system initial none).next s label = some s' ∧
            Guarded (fun s _ _ op c => may s op c) s label := by
    cases label with
    | enter t e => exact (and_iff_left trivial).symm
    | step t c =>
      simp only [system, Semantics.next, Guarded]
      split
      · simp
      · rename_i op rest code_
        by_cases permitted : may s.shared op c <;> simp [restrict, permitted]
  constructor
  · intro run
    induction run with
    | initial first => exact .initial first
    | step reached permitted taken ih =>
      obtain ⟨taken, may_⟩ := (next _ _ _).mp taken
      exact ih.step ⟨permitted, may_⟩ taken
  · intro run
    induction run with
    | initial first => exact .initial first
    | step reached permitted taken ih =>
      exact ih.step permitted.1 ((next _ _ _).mpr ⟨taken, permitted.2⟩)

/-- A call starts only when no other one is running, and its operations are allowed. -/
def Serial (permitted : S → E → Prop) (allowed : S → Op → Prop) (s : Config T S L Op Res) :
    Label T C E → Prop
  | .enter _ e => (∀ t, s.code t = .ret ()) ∧ permitted s.shared e
  | .step t _ =>
    match s.code t with
    | .ret _ => True
    | .call op _ => allowed s.shared op

instance : (p : Program Op Res Unit) → Decidable (p = .ret ())
  | .ret () => .isTrue rfl
  | .call _ _ => .isFalse (by simp)

instance [Fintype T] (permitted : S → E → Prop) (allowed : S → Op → Prop)
    [∀ s e, Decidable (permitted s e)] [∀ s op, Decidable (allowed s op)]
    (s : Config T S L Op Res) : (l : Label T C E) → Decidable (Serial permitted allowed s l)
  | .enter _ e => inferInstanceAs (Decidable ((∀ t, s.code t = .ret ()) ∧ permitted s.shared e))
  | .step t _ => match at_ : s.code t with
    | .ret _ => .isTrue (by simp [Serial, at_])
    | .call op _ => decidable_of_iff (allowed s.shared op) (by simp [Serial, at_])

/-- Calls that follow each other, each of them with one choice throughout. -/
def calls (m : Semantics S L Op Res C E) (permitted : S → E → Prop)
    [∀ s e, Decidable (permitted s e)] :
    S → List (E × C) → Option S
  | s, [] => some s
  | s, (e, c) :: rest =>
    if permitted s e then
      (m.enter s e).bind fun (s', l, p) => (p.exec m.step c s' l).bind fun (s'', _, _) =>
        m.calls permitted s'' rest
    else none

theorem calls_reachable [DecidableEq T] {initial : S → Prop} {none : L} {permitted : S → E → Prop}
    [∀ s e, Decidable (permitted s e)] (free : ∀ s op, allowed s op) (t : T) {events : List (E × C)}
    {s : Config T S L Op Res} {s' : S}
    (reached : (m.system initial none).ReachableUnder (Serial permitted allowed) s)
    (idle : ∀ t, s.code t = .ret ()) (ran : m.calls permitted s.shared events = some s') :
    ∃ c : Config T S L Op Res, (m.system initial none).ReachableUnder (Serial permitted allowed) c ∧
      c.shared = s' ∧ ∀ t, c.code t = .ret () := by
  induction events generalizing s with
  | nil =>
    cases ran
    exact ⟨s, reached, rfl, idle⟩
  | cons event rest ih =>
    obtain ⟨e, choice⟩ := event
    simp only [calls, Option.ite_none_right_eq_some, Option.bind_eq_some_iff] at ran
    obtain ⟨may, ⟨s₁, l, p⟩, entered, ⟨s₂, l', ⟨⟩⟩, performed, ran⟩ := ran
    have steps (s : Config T S L Op Res) :
        Serial permitted allowed s (.step (E := E) t choice) := by
      simp only [Serial]
      split
      · trivial
      · exact free _ _
    have next := reachable_call (t := t) steps reached ⟨idle, may⟩ (idle t) entered performed
    refine ih next (fun u => ?_) ran
    by_cases same : u = t
    · simp [same]
    · simp [same, idle u]

/-- At most one call is running, and it ensures the invariant. -/
structure Underway (m : Semantics S L Op Res C E) (allowed : S → Op → Prop) (I : S → Prop)
    (s : Config T S L Op Res) : Prop where
  one : ∀ t u, s.code t ≠ .ret () → s.code u ≠ .ret () → t = u
  ensures : ∀ t, (∀ u, u ≠ t → s.code u = .ret ()) →
    (s.code t).Ensures m.step allowed s.shared (s.own t) (fun _ s _ => I s)
  rest : (∀ t, s.code t = .ret ()) → I s.shared

namespace Underway
variable {I : S → Prop} {s' : S} {l' : L} {t : T} {p : Program Op Res Unit}
  {c : Config T S L Op Res} [DecidableEq T]

/-- Only the code of one thread changes, and what is left of it ensures the invariant. -/
theorem next (others : ∀ u, u ≠ t → c.code u = .ret ())
    (ensures : p.Ensures m.step allowed s' l' (fun _ s _ => I s)) :
    Underway m allowed I ⟨s', Function.update c.own t l', Function.update c.code t p⟩ := by
  have only (u : T) (running : Function.update c.code t p u ≠ .ret ()) : u = t := by
    by_contra other
    exact running (by simpa [other] using others u other)
  constructor
  · exact fun u v running running' => (only u running).trans (only v running').symm
  · intro u quiet
    by_cases same : u = t
    · subst same
      simpa using ensures
    · have done : p = .ret () := by simpa using quiet t (Ne.symm same)
      subst done
      simpa [same, others u same] using ensures
  · intro quiet
    have done : p = .ret () := by simpa using quiet t
    subst done
    exact ensures

end Underway

/-- If every call ensures the invariant, it holds in every run whenever no call is
running. -/
theorem holds_at_rest [DecidableEq T] {initial : S → Prop} {none : L} {permitted : S → E → Prop}
    {I : S → Prop} (start : ∀ s, initial s → I s)
    (enter : ∀ s e s' l p, I s → permitted s e → m.enter s e = some (s', l, p) →
      p.Ensures m.step allowed s' l (fun _ s _ => I s))
    {s : Config T S L Op Res}
    (run : (m.system initial none).ReachableUnder (Serial permitted allowed) s)
    (rest : ∀ t, s.code t = .ret ()) : I s.shared := by
  have underway : Underway m allowed I s := by
    refine run.invariant ?_ ?_
    · rintro s ⟨first, quiet⟩
      refine ⟨fun t _ running => absurd (quiet t).2 running, fun t _ => ?_, fun _ => start _ first⟩
      rw [(quiet t).2]
      exact start _ first
    · rintro s label s' now guard taken
      cases label with
      | enter t e =>
        obtain ⟨quiet, permitted⟩ := guard
        simp only [system, Semantics.next, quiet t] at taken
        obtain ⟨⟨shared, l, p⟩, entered, rfl⟩ := Option.map_eq_some_iff.mp taken
        exact .next (fun u _ => quiet u) (enter _ _ _ _ _ (now.rest quiet) permitted entered)
      | step t choice =>
        simp only [system, Semantics.next] at taken
        split at taken
        · contradiction
        rename_i op rest code_
        simp only [Serial, code_] at guard
        obtain ⟨⟨shared, l, r⟩, performed, rfl⟩ := Option.map_eq_some_iff.mp taken
        have others : ∀ u, u ≠ t → s.code u = .ret () := by
          intro u other
          by_contra running
          exact other (now.one u t running (by simp [code_]))
        have ensures := now.ensures t others
        rw [code_] at ensures
        exact .next others (ensures guard _ _ _ _ performed)
  exact underway.rest rest

end Semantics
end Transition
