import TestIOCP.Transition
import Mathlib.Logic.Function.Basic

/-! Sequential code over a shared state, run by several threads. A program is the
tree of the operations it performs: the rest of it depends on what an operation
returns. The meaning of the operations is a parameter, so that one program can
be run operation by operation or as a whole. -/

inductive Program (Op : Type) (Res : Op → Type) (α : Type) where
  | ret (a : α)
  | call (op : Op) (rest : Res op → Program Op Res α)

namespace Program
variable {Op : Type} {Res : Op → Type} {α β γ L : Type}

protected def bind : Program Op Res α → (α → Program Op Res β) → Program Op Res β
  | .ret a, f => f a
  | .call op rest, f => .call op (fun r => (rest r).bind f)

instance : Monad (Program Op Res) where
  pure := .ret
  bind := Program.bind

def perform (op : Op) : Program Op Res (Res op) :=
  .call op .ret

@[simp] theorem pure_def (a : α) : (pure a : Program Op Res α) = .ret a := rfl

@[simp] theorem ret_bind (a : α) (f : α → Program Op Res β) : (Program.ret a >>= f) = f a := rfl

@[simp] theorem call_bind (op : Op) (rest : Res op → Program Op Res α)
    (f : α → Program Op Res β) : (Program.call op rest >>= f) = .call op (fun r => rest r >>= f) :=
  rfl

@[simp] theorem perform_bind (op : Op) (f : Res op → Program Op Res β) :
    (perform op >>= f) = .call op f := rfl

theorem bind_assoc (p : Program Op Res α) (f : α → Program Op Res β) (g : β → Program Op Res γ) :
    p >>= f >>= g = p >>= fun a => f a >>= g := by
  induction p with
  | ret a => rfl
  | call op rest ih => exact congrArg (Program.call op) (funext ih)

theorem bind_ret (p : Program Op Res α) : p >>= .ret = p := by
  induction p with
  | ret a => rfl
  | call op rest ih => exact congrArg (Program.call op) (funext ih)

/-- Every operation is replaced by a program over other operations. -/
def translate {Op' : Type} {Res' : Op' → Type} (f : (op : Op) → Program Op' Res' (Res op)) :
    Program Op Res α → Program Op' Res' α
  | .ret a => .ret a
  | .call op rest => (f op).bind fun r => (rest r).translate f

section
variable {Op' : Type} {Res' : Op' → Type} {h : (op : Op) → Program Op' Res' (Res op)}

@[simp] theorem translate_ret (a : α) : (ret a : Program Op Res α).translate h = .ret a := rfl

@[simp] theorem translate_call (op : Op) (rest : Res op → Program Op Res α) :
    (call op rest).translate h = h op >>= fun r => (rest r).translate h := rfl

@[simp] theorem translate_bind (p : Program Op Res α) (f : α → Program Op Res β) :
    (p >>= f).translate h = p.translate h >>= fun a => (f a).translate h := by
  induction p with
  | ret a => rfl
  | call op rest ih =>
    rw [translate_call, bind_assoc]
    exact congrArg (h op >>= ·) (funext ih)

/-- Two replacements, one after the other. -/
theorem translate_translate {Op'' : Type} {Res'' : Op'' → Type}
    (g : (op : Op') → Program Op'' Res'' (Res' op)) (p : Program Op Res α) :
    (p.translate h).translate g = p.translate fun op => (h op).translate g := by
  induction p with
  | ret a => rfl
  | call op rest ih =>
    rw [translate_call, translate_bind]
    exact congrArg ((h op).translate g >>= ·) (funext ih)

theorem translate_forM (items : List β) (body : β → Program Op Res PUnit) :
    (items.forM body).translate h = items.forM fun item => (body item).translate h := by
  induction items with
  | nil => rfl
  | cons item rest ih =>
    refine (translate_bind _ _).trans ?_
    exact congrArg ((body item).translate h >>= ·) (funext fun _ => ih)

end

/-- What a thread must own to perform an operation, and what it owns after. -/
structure Discipline (L Op : Type) (Res : Op → Type) where
  pre : L → Op → Prop
  post : L → (op : Op) → Res op → L → Prop

/-- From what it owns a program performs only operations that the discipline
permits, and ends in the postcondition. -/
def Follows (d : Discipline L Op Res) : Program Op Res α → L → (α → L → Prop) → Prop
  | .ret a, l, Q => Q a l
  | .call op rest, l, Q => d.pre l op ∧ ∀ r l', d.post l op r l' → (rest r).Follows d l' Q

variable {d : Discipline L Op Res} {l : L}

@[simp] theorem follows_ret (a : α) (Q : α → L → Prop) :
    (ret a : Program Op Res α).Follows d l Q ↔ Q a l := Iff.rfl

@[simp] theorem follows_call (op : Op) (rest : Res op → Program Op Res α) (Q : α → L → Prop) :
    (call op rest).Follows d l Q ↔
      d.pre l op ∧ ∀ r l', d.post l op r l' → (rest r).Follows d l' Q := Iff.rfl

theorem Follows.mono {p : Program Op Res α} {Q R : α → L → Prop} (follows : p.Follows d l Q)
    (weaker : ∀ a l, Q a l → R a l) : p.Follows d l R := by
  induction p generalizing l with
  | ret a => exact weaker a l follows
  | call op rest ih => exact ⟨follows.1, fun r l' after => ih r (follows.2 r l' after)⟩

theorem Follows.bind {p : Program Op Res α} {f : α → Program Op Res β} {Q : β → L → Prop}
    (follows : p.Follows d l (fun a l' => (f a).Follows d l' Q)) : (p >>= f).Follows d l Q := by
  induction p generalizing l with
  | ret a => exact follows
  | call op rest ih => exact ⟨follows.1, fun r l' after => ih r (follows.2 r l' after)⟩

/-- The loop rule: an iteration keeps what the loop needs. -/
theorem Follows.forM {items : List β} {body : β → Program Op Res PUnit} {I : List β → L → Prop}
    (each : ∀ item rest l, I (item :: rest) l → (body item).Follows d l (fun _ => I rest))
    (start : I items l) : (items.forM body).Follows d l (fun _ => I []) := by
  induction items generalizing l with
  | nil => exact start
  | cons item rest ih => exact ((each item rest l start).mono (fun _ _ after => ih after)).bind

/-- No way to go on performs a bad operation before one that ends the matter. -/
def Avoids (ends bad : Op → Prop) : Program Op Res α → Prop
  | .ret _ => True
  | .call op rest => ends op ∨ (¬ bad op ∧ ∀ r, (rest r).Avoids ends bad)

/-- A call that can only perform bad operations when it owns something avoids them as
long as it does not. -/
theorem Follows.avoids {ends bad : Op → Prop} {F : L → Prop} {Q : α → L → Prop}
    (needs : ∀ l op, F l → d.pre l op → ¬ bad op)
    (keeps : ∀ l op r l', F l → d.pre l op → d.post l op r l' → ends op ∨ F l')
    (results : ∀ l op r, d.pre l op → ∃ l', d.post l op r l')
    {p : Program Op Res α} (follows : p.Follows d l Q) (start : F l) : p.Avoids ends bad := by
  induction p generalizing l with
  | ret a => trivial
  | call op rest ih =>
    by_cases ending : ends op
    · exact .inl ending
    · refine .inr ⟨needs l op start follows.1, fun r => ?_⟩
      obtain ⟨l', after⟩ := results l op r follows.1
      exact ih r (follows.2 r l' after)
        ((keeps l op r l' start follows.1 after).resolve_left ending)

/-- A call that avoids the operations that would settle what it owes owes nothing. -/
theorem Avoids.settled {ends bad : Op → Prop} {D : L → Prop} {Q : α → L → Prop}
    (settles : ∀ l op, D l → d.pre l op →
      ¬ ends op ∧ (¬ bad op → ∃ r l', d.post l op r l' ∧ D l'))
    (done : ∀ a l, Q a l → ¬ D l) {p : Program Op Res α} (avoids : p.Avoids ends bad)
    (follows : p.Follows d l Q) : ¬ D l := by
  induction p generalizing l with
  | ret a => exact done a l follows
  | call op rest ih =>
    intro debt
    rcases avoids with ending | ⟨good, avoids⟩
    · exact (settles l op debt follows.1).1 ending
    · obtain ⟨r, l', after, debt'⟩ := (settles l op debt follows.1).2 good
      exact ih r (avoids r) (follows.2 r l' after) debt'

end Program

namespace Transition
open Program

/-- The meaning of operations and of the events that start a call. A choice
resolves what the environment decides. L is private to a thread. -/
structure Semantics (S L Op : Type) (Res : Op → Type) (C E : Type) where
  enter : S → E → Option (S × L × Program Op Res Unit)
  step : S → L → (op : Op) → C → Option (S × L × Res op)

structure Config (T S L Op : Type) (Res : Op → Type) where
  shared : S
  own : T → L
  code : T → Program Op Res Unit

inductive Label (T C E : Type) where
  | enter (t : T) (e : E)
  | step (t : T) (c : C)
  deriving DecidableEq, Repr

namespace Semantics
variable {T S L Op C E : Type} {Res : Op → Type} [DecidableEq T]

/-- A thread whose call has returned takes the next one; another performs its
next operation. -/
def next (m : Semantics S L Op Res C E) (s : Config T S L Op Res) :
    Label T C E → Option (Config T S L Op Res)
  | .enter t e =>
    match s.code t with
    | .ret _ => (m.enter s.shared e).map fun (shared, l, p) =>
      ⟨shared, Function.update s.own t l, Function.update s.code t p⟩
    | .call _ _ => none
  | .step t c =>
    match s.code t with
    | .ret _ => none
    | .call op rest => (m.step s.shared (s.own t) op c).map fun (shared, l, r) =>
      ⟨shared, Function.update s.own t l, Function.update s.code t (rest r)⟩

def system (m : Semantics S L Op Res C E) (initial : S → Prop) (none : L) :
    System (Config T S L Op Res) (Label T C E) where
  initial s := initial s.shared ∧ ∀ t, s.own t = none ∧ s.code t = .ret ()
  next := m.next

/-- A condition on the operation that a thread is about to perform. -/
def Guarded (allowed : S → (T → L) → T → Op → C → Prop) (s : Config T S L Op Res) :
    Label T C E → Prop
  | .enter _ _ => True
  | .step t c =>
    match s.code t with
    | .ret _ => True
    | .call op _ => allowed s.shared s.own t op c

instance (allowed : S → (T → L) → T → Op → C → Prop)
    [∀ s own t op c, Decidable (allowed s own t op c)] (s : Config T S L Op Res) :
    (l : Label T C E) → Decidable (Guarded allowed s l)
  | .enter _ _ => .isTrue trivial
  | .step t c => match at_ : s.code t with
    | .ret _ => .isTrue (by simp [Guarded, at_])
    | .call op _ => decidable_of_iff (allowed s.shared s.own t op c) (by simp [Guarded, at_])

/-- Ownership: if every event and every operation keeps the invariant and leaves its
thread with what the discipline says, then in every run the invariant holds and every
thread follows the discipline in the rest of its call. -/
theorem invariant_of_guarded_run {m : Semantics S L Op Res C E} {initial : S → Prop} {none : L}
    {guard : Config T S L Op Res → Label T C E → Prop} {I : Config T S L Op Res → Prop}
    {idle : L → Prop} (d : Discipline L Op Res) (resting : idle none)
    (start : ∀ s, (m.system initial none).initial s → I s)
    (enter : ∀ s t e s' l p, I s → idle (s.own t) → guard s (.enter t e) →
      m.enter s.shared e = some (s', l, p) →
      I ⟨s', Function.update s.own t l, Function.update s.code t p⟩ ∧
        p.Follows d l (fun _ => idle))
    (step : ∀ s t op rest c s' l r, I s → (∀ u, (s.code u).Follows d (s.own u) (fun _ => idle)) →
      s.code t = .call op rest → guard s (.step t c) →
      m.step s.shared (s.own t) op c = some (s', l, r) → d.pre (s.own t) op →
      I ⟨s', Function.update s.own t l, Function.update s.code t (rest r)⟩ ∧
        d.post (s.own t) op r l)
    {s : Config T S L Op Res} (run : (m.system initial none).ReachableUnder guard s) :
    I s ∧ ∀ t, (s.code t).Follows d (s.own t) (fun _ => idle) := by
  refine run.invariant (P := fun s => I s ∧
    ∀ t, (s.code t).Follows d (s.own t) (fun _ => idle)) ?_ ?_
  · intro s first
    refine ⟨start s first, fun t => ?_⟩
    rw [(first.2 t).2, (first.2 t).1]
    exact resting
  · rintro s label s' ⟨inv, follows⟩ permitted taken
    cases label with
    | enter t e =>
      simp only [system, next] at taken
      split at taken
      · rename_i u at_
        have quiet : idle (s.own t) := by simpa [at_, Program.Follows] using follows t
        obtain ⟨⟨shared', l, p⟩, entered, rfl⟩ := Option.map_eq_some_iff.mp taken
        obtain ⟨inv', follows'⟩ := enter _ _ _ _ _ _ inv quiet permitted entered
        refine ⟨inv', fun u => ?_⟩
        by_cases h : u = t
        · subst u; simpa using follows'
        · simpa [h] using follows u
      · contradiction
    | step t c =>
      simp only [system, next] at taken
      split at taken
      · contradiction
      · rename_i op rest at_
        have now := follows t
        simp only [at_, Program.Follows] at now
        obtain ⟨⟨shared', l, r⟩, performed, rfl⟩ := Option.map_eq_some_iff.mp taken
        obtain ⟨inv', after⟩ := step _ _ _ _ _ _ _ _ inv follows at_ permitted performed now.1
        refine ⟨inv', fun u => ?_⟩
        by_cases h : u = t
        · subst u; simpa using now.2 r l after
        · simpa [h] using follows u

/-- The same when the guard says nothing of events. -/
theorem invariant_of_run {m : Semantics S L Op Res C E} {initial : S → Prop} {none : L}
    {guard : Config T S L Op Res → Label T C E → Prop} {I : Config T S L Op Res → Prop}
    {idle : L → Prop} (d : Discipline L Op Res) (resting : idle none)
    (start : ∀ s, (m.system initial none).initial s → I s)
    (enter : ∀ s t e s' l p, I s → idle (s.own t) → m.enter s.shared e = some (s', l, p) →
      I ⟨s', Function.update s.own t l, Function.update s.code t p⟩ ∧
        p.Follows d l (fun _ => idle))
    (step : ∀ s t op rest c s' l r, I s → (∀ u, (s.code u).Follows d (s.own u) (fun _ => idle)) →
      s.code t = .call op rest → guard s (.step t c) →
      m.step s.shared (s.own t) op c = some (s', l, r) → d.pre (s.own t) op →
      I ⟨s', Function.update s.own t l, Function.update s.code t (rest r)⟩ ∧
        d.post (s.own t) op r l)
    {s : Config T S L Op Res} (run : (m.system initial none).ReachableUnder guard s) :
    I s ∧ ∀ t, (s.code t).Follows d (s.own t) (fun _ => idle) :=
  invariant_of_guarded_run d resting start
    (fun s t e s' l p inv quiet _ entered => enter s t e s' l p inv quiet entered) step run

/-- The same for an invariant and a guard that do not look at the code of calls. -/
theorem follows_of_run {m : Semantics S L Op Res C E} {initial : S → Prop} {none : L}
    {allowed : S → (T → L) → T → Op → C → Prop} {I : S → (T → L) → Prop} {idle : L → Prop}
    (d : Discipline L Op Res) (resting : idle none)
    (start : ∀ s, initial s → I s (fun _ => none))
    (enter : ∀ s own t e s' l p, I s own → idle (own t) → m.enter s e = some (s', l, p) →
      I s' (Function.update own t l) ∧ p.Follows d l (fun _ => idle))
    (step : ∀ s own t op c s' l r, I s own → d.pre (own t) op → allowed s own t op c →
      m.step s (own t) op c = some (s', l, r) →
      I s' (Function.update own t l) ∧ d.post (own t) op r l)
    {s : Config T S L Op Res}
    (run : (m.system initial none).ReachableUnder (Guarded (E := E) allowed) s) :
    I s.shared s.own ∧ ∀ t, (s.code t).Follows d (s.own t) (fun _ => idle) := by
  refine invariant_of_run (I := fun s => I s.shared s.own) d resting ?_ ?_ ?_ run
  · rintro s ⟨first, quiet⟩
    have own : s.own = fun _ => none := funext fun t => (quiet t).1
    exact own ▸ start _ first
  · exact fun s t e s' l p inv quiet entered => enter _ _ _ _ _ _ _ inv quiet entered
  · intro s t op rest c s' l r inv _ at_ permitted performed needs
    simp only [Guarded, at_] at permitted
    exact step _ _ _ _ _ _ _ _ inv needs permitted performed

end Semantics
end Transition
