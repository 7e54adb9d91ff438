import TestIOCP.Transition
import Mathlib.Logic.Function.Basic

/-! What can be observed of the runs of a system, and objects whose operations take effect
at one moment. A system is linearizable if its runs show nothing that the runs of such an
object do not show. -/
namespace Transition
namespace System
variable {S L A M V : Type*}

/-- The states that runs reach while they show a history. -/
inductive Shows (m : System S L) (shows : S → L → List V) (guard : S → L → Prop) :
    List V → S → Prop where
  | initial : m.initial s → Shows m shows guard [] s
  | step : Shows m shows guard history s → guard s l → m.next s l = some t →
      Shows m shows guard (history ++ shows s l) t

theorem Shows.reachable {m : System S L} {shows : S → L → List V} {guard : S → L → Prop}
    (run : m.Shows shows guard history s) : m.ReachableUnder guard s := by
  induction run with
  | initial first => exact .initial first
  | step _ allowed taken ih => exact ih.step allowed taken

/-- The run that a list of labels describes, with what it shows. -/
def runShows (m : System S L) (shows : S → L → List V) (guard : S → L → Prop)
    [∀ s l, Decidable (guard s l)] : S → List L → Option (S × List V)
  | s, [] => some (s, [])
  | s, l :: ls =>
    if guard s l then
      match m.next s l with
      | none => none
      | some t => (m.runShows shows guard t ls).map fun (u, later) => (u, shows s l ++ later)
    else none

theorem runShows_shows {m : System S L} {shows : S → L → List V} {guard : S → L → Prop}
    [∀ s l, Decidable (guard s l)] {ls : List L} {later : List V}
    (from_ : m.Shows shows guard history s) (ran : m.runShows shows guard s ls = some (u, later)) :
    m.Shows shows guard (history ++ later) u := by
  induction ls generalizing s history later with
  | nil =>
    cases ran
    rwa [List.append_nil]
  | cons l ls ih =>
    simp only [runShows] at ran
    split at ran
    · rename_i allowed
      split at ran
      · cases ran
      · rename_i t taken
        obtain ⟨⟨v, rest⟩, rest_ran, same⟩ := Option.map_eq_some_iff.mp ran
        cases same
        simpa only [List.append_assoc] using ih (from_.step allowed taken) rest_ran
    · cases ran

/-- Each step of the first system shows nothing and keeps the relation, or shows what a
step of the second one shows. -/
structure Simulates (m : System S L) (shows : S → L → List V) (guard : S → L → Prop)
    (spec : System A M) (specShows : A → M → List V) (related : S → A → Prop) : Prop where
  initial : ∀ s, m.initial s → ∃ a, spec.initial a ∧ related s a
  step : ∀ s a l t, related s a → guard s l → m.next s l = some t →
    (shows s l = [] ∧ related t a) ∨
      ∃ k b, spec.next a k = some b ∧ specShows a k = shows s l ∧ related t b

theorem Simulates.shows {m : System S L} {shows : S → L → List V} {guard : S → L → Prop}
    {spec : System A M} {specShows : A → M → List V} {related : S → A → Prop}
    (simulates : m.Simulates shows guard spec specShows related)
    (run : m.Shows shows guard history s) :
    ∃ a, spec.Shows specShows (fun _ _ => True) history a ∧ related s a := by
  induction run with
  | initial first =>
    obtain ⟨a, started, rel⟩ := simulates.initial _ first
    exact ⟨a, .initial started, rel⟩
  | step _ allowed taken ih =>
    obtain ⟨a, ran, rel⟩ := ih
    rcases simulates.step _ _ _ _ rel allowed taken with ⟨silent, rel⟩ | ⟨k, b, moved, same, rel⟩
    · exact ⟨a, by rwa [silent, List.append_nil], rel⟩
    · exact ⟨b, same ▸ ran.step trivial moved, rel⟩

end System

/-- What an operation makes of the state of an object, and its result. -/
structure Object (S Op Res : Type*) where
  start : S
  apply : S → Op → S × Res

inductive Interaction (T Op Res : Type*) where
  | call (t : T) (op : Op)
  | ret (t : T) (res : Res)
  deriving DecidableEq, Repr

namespace Object
variable {T S Op Res : Type*} [DecidableEq T]

/-- Where the call of a thread is: it has not taken effect, or it has. -/
inductive Phase (Op Res : Type*) where
  | idle
  | called (op : Op)
  | done (res : Res)
  deriving DecidableEq, Repr

structure State (T S Op Res : Type*) where
  object : S
  phase : T → Phase Op Res

inductive Move (T Op : Type*) where
  | call (t : T) (op : Op)
  | effect (t : T)
  | ret (t : T)
  deriving DecidableEq, Repr

def next (o : Object S Op Res) (s : State T S Op Res) : Move T Op → Option (State T S Op Res)
  | .call t op =>
    match s.phase t with
    | .idle => some { s with phase := Function.update s.phase t (.called op) }
    | _ => none
  | .effect t =>
    match s.phase t with
    | .called op => some {
        object := (o.apply s.object op).1
        phase := Function.update s.phase t (.done (o.apply s.object op).2) }
    | _ => none
  | .ret t =>
    match s.phase t with
    | .done _ => some { s with phase := Function.update s.phase t .idle }
    | _ => none

/-- Threads that call the object. Each call takes effect once, after it has started and
before it returns. -/
def atomic (T : Type*) [DecidableEq T] (o : Object S Op Res) :
    System (State T S Op Res) (Move T Op) where
  initial s := s.object = o.start ∧ ∀ t, s.phase t = .idle
  next := o.next

/-- An observer sees the calls and what they return. -/
def shows (s : State T S Op Res) : Move T Op → List (Interaction T Op Res)
  | .call t op => [.call t op]
  | .effect _ => []
  | .ret t =>
    match s.phase t with
    | .done res => [.ret t res]
    | _ => []

variable {o : Object S Op Res} {s : State T S Op Res} {t : T}

theorem next_call (idle : s.phase t = .idle) (op : Op) :
    (o.atomic T).next s (.call t op) =
      some { s with phase := Function.update s.phase t (.called op) } := by
  simp only [atomic, next, idle]

theorem next_effect {op : Op} (called : s.phase t = .called op) :
    (o.atomic T).next s (.effect t) = some {
      object := (o.apply s.object op).1
      phase := Function.update s.phase t (.done (o.apply s.object op).2) } := by
  simp only [atomic, next, called]

theorem next_ret {res : Res} (done : s.phase t = .done res) :
    (o.atomic T).next s (.ret t : Move T Op) =
      some { s with phase := Function.update s.phase t .idle } := by
  simp only [atomic, next, done]

omit [DecidableEq T] in
theorem shows_ret {res : Res} (done : s.phase t = .done res) :
    shows s (.ret t : Move T Op) = [.ret t res] := by
  simp only [shows, done]

/-- A run of the atomic object shows the history. -/
def Linearizes (T : Type*) [DecidableEq T] (o : Object S Op Res)
    (history : List (Interaction T Op Res)) : Prop :=
  ∃ s, (o.atomic T).Shows shows (fun _ _ => True) history s

end Object
end Transition
