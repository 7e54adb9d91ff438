import Mathlib.Data.List.Nodup

/-! Resources that are in one place at a time. The places are those of the
program that uses the ledger (a free list, a pending operation, the hands of a
thread), and so is the relation that reads them off its state. -/

/-- Every live resource is in exactly one place, and nothing else is in one. -/
structure Accounted {P R : Type*} (holds : P → R → Prop) (live : R → Prop) : Prop where
  known : ∀ p r, holds p r → live r
  once : ∀ p q r, holds p r → holds q r → p = q
  total : ∀ r, live r → ∃ p, holds p r

/-- Some resources are now in the place p, and the others are where they were. -/
def Gathered {P R : Type*} (holds holds' : P → R → Prop) (S : R → Prop) (p : P) : Prop :=
  ∀ q x, holds' q x ↔ (S x ∧ q = p) ∨ (¬ S x ∧ holds q x)

/-- One resource is now in the place p, and the others are where they were. -/
def Moved {P R : Type*} (holds holds' : P → R → Prop) (r : R) (p : P) : Prop :=
  ∀ q x, holds' q x ↔ (x = r ∧ q = p) ∨ (x ≠ r ∧ holds q x)

namespace Accounted
variable {P R : Type*} {holds holds' : P → R → Prop} {live live' : R → Prop} {r : R} {p : P}

theorem empty (dead : ∀ r, ¬ live r) (nowhere : ∀ p r, ¬ holds p r) : Accounted holds live :=
  ⟨fun p r here => absurd here (nowhere p r), fun p _ r here => absurd here (nowhere p r),
    fun r alive => absurd alive (dead r)⟩

theorem elsewhere (ledger : Accounted holds live) (here : holds p r) (other : q ≠ p) :
    ¬ holds q r :=
  fun there => other (ledger.once _ _ _ there here)

theorem apart (ledger : Accounted holds live) (here : holds p r) (there : holds q x)
    (other : q ≠ p) : x ≠ r := by
  rintro rfl
  exact ledger.elsewhere here other there

theorem existsUnique (ledger : Accounted holds live) (alive : live r) : ∃! p, holds p r := by
  obtain ⟨p, here⟩ := ledger.total r alive
  exact ⟨p, here, fun q there => ledger.once q p r there here⟩

theorem congr (ledger : Accounted holds live) (same : ∀ q x, holds' q x ↔ holds q x) :
    Accounted holds' live := by
  obtain rfl : holds' = holds := funext fun q => funext fun x => propext (same q x)
  exact ledger

theorem gather {S : R → Prop} (ledger : Accounted holds live) (alive : ∀ x, S x → live x)
    (gathered : Gathered holds holds' S p) : Accounted holds' live := by
  constructor
  · intro q x there
    rcases (gathered q x).mp there with ⟨chosen, _⟩ | ⟨_, before⟩
    · exact alive x chosen
    · exact ledger.known q x before
  · intro q q' x there there'
    rcases (gathered q x).mp there with ⟨chosen, at_⟩ | ⟨other, before⟩
    all_goals rcases (gathered q' x).mp there' with ⟨chosen', at_'⟩ | ⟨other', before'⟩
    · exact at_.trans at_'.symm
    · exact absurd chosen other'
    · exact absurd chosen' other
    · exact ledger.once q q' x before before'
  · intro x alive'
    by_cases chosen : S x
    · exact ⟨p, (gathered p x).mpr (.inl ⟨chosen, rfl⟩)⟩
    · obtain ⟨q, before⟩ := ledger.total x alive'
      exact ⟨q, (gathered q x).mpr (.inr ⟨chosen, before⟩)⟩

theorem move (ledger : Accounted holds live) (alive : live r) (moved : Moved holds holds' r p) :
    Accounted holds' live :=
  ledger.gather (S := (· = r)) (fun _ same => same ▸ alive) moved

/-- New resources start their life in one place. -/
theorem extend {N : R → Prop} (ledger : Accounted holds live) (p : P)
    (fresh : ∀ x, live x → ¬ N x) (grown : ∀ x, live' x ↔ live x ∨ N x) :
    Accounted (fun q x => holds q x ∨ (q = p ∧ N x)) live' := by
  constructor
  · rintro q x (here | ⟨-, new⟩)
    · exact (grown x).mpr (.inl (ledger.known q x here))
    · exact (grown x).mpr (.inr new)
  · rintro q q' x (here | ⟨rfl, new⟩) (there | ⟨rfl, new'⟩)
    · exact ledger.once q q' x here there
    · exact absurd new' (fresh x (ledger.known q x here))
    · exact absurd new (fresh x (ledger.known q' x there))
    · rfl
  · intro x alive
    rcases (grown x).mp alive with before | new
    · exact (ledger.total x before).imp fun q here => .inl here
    · exact ⟨p, .inr ⟨rfl, new⟩⟩

/-- A new resource starts its life in the place p. -/
theorem create (ledger : Accounted holds live) (fresh : ¬ live r)
    (grown : ∀ x, live' x ↔ x = r ∨ live x) (moved : Moved holds holds' r p) :
    Accounted holds' live' := by
  refine (ledger.extend (N := (· = r)) p ?_ fun x => (grown x).trans or_comm).congr ?_
  · rintro x alive rfl
    exact fresh alive
  · intro q x
    have other : holds q x → x ≠ r := fun here same => fresh (same ▸ ledger.known q x here)
    rw [moved q x]
    constructor
    · rintro (⟨same, at_⟩ | ⟨_, here⟩)
      · exact .inr ⟨at_, same⟩
      · exact .inl here
    · rintro (here | ⟨at_, same⟩)
      · exact .inr ⟨other here, here⟩
      · exact .inl ⟨same, at_⟩

/-- A resource ends its life. -/
theorem destroy (ledger : Accounted holds live) (shrunk : ∀ x, live' x ↔ x ≠ r ∧ live x)
    (gone : ∀ q x, holds' q x ↔ x ≠ r ∧ holds q x) : Accounted holds' live' := by
  constructor
  · intro q x there
    obtain ⟨other, before⟩ := (gone q x).mp there
    exact (shrunk x).mpr ⟨other, ledger.known q x before⟩
  · intro q q' x there there'
    exact ledger.once q q' x ((gone q x).mp there).2 ((gone q' x).mp there').2
  · intro x alive
    obtain ⟨other, before⟩ := (shrunk x).mp alive
    obtain ⟨q, at_⟩ := ledger.total x before
    exact ⟨q, (gone q x).mpr ⟨other, at_⟩⟩

end Accounted

/-- One resource comes to a place and leaves those where it was; others only may leave theirs. -/
theorem once_of_arrival {P R : Type*} {holds holds' : P → R → Prop} {r : R} {p : P}
    (once : ∀ p q x, holds p x → holds q x → p = q)
    (arrives : ∀ q x, holds' q x → (q = p ∧ x = r) ∨ holds q x)
    (left : ∀ q, holds q r → holds' q r → q = p) : ∀ p q x, holds' p x → holds' q x → p = q := by
  intro q q' x here there
  rcases arrives q x here with ⟨at_, rfl⟩ | before
  all_goals rcases arrives q' x there with ⟨at_', same⟩ | before'
  · exact at_.trans at_'.symm
  · exact at_.trans (left q' before' there).symm
  · subst same
    exact (left q before here).trans at_'.symm
  · exact once q q' x before before'

/-- In a list without repeated keys, erasing an entry removes exactly its key. -/
theorem mem_map_erase [BEq α] [LawfulBEq α] {f : α → β} {l : List α} (once : (l.map f).Nodup)
    (member : a ∈ l) : x ∈ (l.erase a).map f ↔ x ≠ f a ∧ x ∈ l.map f := by
  simp only [List.mem_map, once.of_map.mem_erase_iff]
  constructor
  · rintro ⟨y, ⟨other, inside⟩, rfl⟩
    exact ⟨fun same => other (List.inj_on_of_nodup_map once inside member same), y, inside, rfl⟩
  · rintro ⟨other, y, inside, rfl⟩
    exact ⟨y, ⟨fun same => other (congrArg f same), inside⟩, rfl⟩

theorem nodup_map_erase [BEq α] {f : α → β} {l : List α} (once : (l.map f).Nodup) (a : α) :
    ((l.erase a).map f).Nodup :=
  once.sublist (List.erase_sublist.map f)

/-- At most one entry of a list has what only one thing has. -/
theorem countP_le_one {l : List α} {p : α → Bool} (nodup : l.Nodup)
    (unique : ∀ a ∈ l, ∀ b ∈ l, p a → p b → a = b) : l.countP p ≤ 1 := by
  induction l with
  | nil => simp
  | cons a rest ih =>
    obtain ⟨fresh, nodup⟩ := List.nodup_cons.mp nodup
    by_cases here : p a
    · have others : rest.countP p = 0 := by
        refine List.countP_eq_zero.mpr fun b inside there => fresh ?_
        exact unique a List.mem_cons_self b (List.mem_cons_of_mem a inside) here there ▸ inside
      simp [here, others]
    · rw [List.countP_cons_of_neg here]
      exact ih nodup fun b inside c inside' =>
        unique b (List.mem_cons_of_mem a inside) c (List.mem_cons_of_mem a inside')

/-- Things that are delivered once: each of them is in the hands of the one who is to
deliver it, or in the log. -/
structure Delivered {T A : Type*} (hand : T → Option A) (log all : List A) : Prop where
  once : log.Nodup
  allOnce : all.Nodup
  apart : ∀ t u a, hand t = some a → hand u = some a → t = u
  waiting : ∀ t a, hand t = some a → a ∉ log
  all : ∀ a, a ∈ all ↔ a ∈ log ∨ ∃ t, hand t = some a

namespace Delivered
variable {T A : Type*} [DecidableEq T] {hand : T → Option A} {log all : List A} {t : T} {a : A}

omit [DecidableEq T] in
theorem empty : Delivered (fun _ : T => none) ([] : List A) [] :=
  ⟨.nil, .nil, by simp, by simp, by simp⟩

omit [DecidableEq T] in
/-- What is to be delivered is in the log once, or in the hands of exactly one. -/
theorem exactly [DecidableEq A] (inv : Delivered hand log all) (known : a ∈ all) :
    (log.count a = 1 ∧ ∀ t, hand t ≠ some a) ∨ (log.count a = 0 ∧ ∃! t, hand t = some a) := by
  rcases (inv.all a).mp known with logged | ⟨t, has⟩
  · exact .inl ⟨List.count_eq_one_of_mem inv.once logged, fun t has => inv.waiting t a has logged⟩
  · refine .inr ⟨List.count_eq_zero_of_not_mem (inv.waiting t a has), t, has, ?_⟩
    exact fun u has' => inv.apart u t a has' has

/-- Something new comes into the hands of one who has nothing. -/
theorem take (inv : Delivered hand log all) (nothing : hand t = none) (fresh : a ∉ all) :
    Delivered (Function.update hand t (some a)) log (a :: all) := by
  have other {u : T} {b : A} (has : hand u = some b) : u ≠ t := by
    rintro rfl
    simp [nothing] at has
  have known {b : A} (inside : b ∈ log ∨ ∃ u, hand u = some b) : b ≠ a := by
    rintro rfl
    exact fresh ((inv.all b).mpr inside)
  have split {u : T} {b : A} : Function.update hand t (some a) u = some b ↔
      (u = t ∧ b = a) ∨ hand u = some b := by
    by_cases same : u = t
    · subst same
      simp [nothing, eq_comm]
    · simp [same]
  constructor
  · exact inv.once
  · exact List.nodup_cons.mpr ⟨fresh, inv.allOnce⟩
  · intro u v b has has'
    rcases split.mp has with ⟨rfl, rfl⟩ | before
    all_goals rcases split.mp has' with ⟨rfl, same⟩ | before'
    · rfl
    · exact absurd rfl (known (.inr ⟨v, before'⟩))
    · exact absurd same (known (.inr ⟨u, before⟩))
    · exact inv.apart u v b before before'
  · intro u b has logged
    rcases split.mp has with ⟨-, rfl⟩ | before
    · exact known (.inl logged) rfl
    · exact inv.waiting u b before logged
  · intro b
    rw [List.mem_cons, inv.all b]
    simp only [split, exists_or, exists_eq_left]
    tauto

/-- What one has in his hands is delivered. -/
theorem deliver (inv : Delivered hand log all) (has : hand t = some a) :
    Delivered (Function.update hand t none) (log ++ [a]) all := by
  have split {u : T} {b : A} : Function.update hand t none u = some b ↔ u ≠ t ∧
      hand u = some b := by
    by_cases same : u = t
    · subst same
      simp
    · simp [same]
  have left {u : T} {b : A} (other : u ≠ t) (has' : hand u = some b) : b ≠ a := by
    rintro rfl
    exact other (inv.apart u t b has' has)
  constructor
  · have fresh := inv.waiting t a has
    refine inv.once.append (List.nodup_singleton a) ?_
    simpa using fresh
  · exact inv.allOnce
  · intro u v b here there
    exact inv.apart u v b (split.mp here).2 (split.mp there).2
  · intro u b here logged
    obtain ⟨other, here⟩ := split.mp here
    rcases List.mem_append.mp logged with before | new
    · exact inv.waiting u b here before
    · exact left other here (List.mem_singleton.mp new)
  · intro b
    rw [inv.all b, List.mem_append, List.mem_singleton]
    simp only [split]
    constructor
    · rintro (logged | ⟨u, here⟩)
      · exact .inl (.inl logged)
      · by_cases same : u = t
        · subst same
          exact .inl (.inr (Option.some.inj (here.symm.trans has)))
        · exact .inr ⟨u, same, here⟩
    · rintro ((logged | rfl) | ⟨u, -, here⟩)
      · exact .inl logged
      · exact .inr ⟨t, has⟩
      · exact .inr ⟨u, here⟩

end Delivered
