import TestIOCP.NoLockBiList.Machine
import Mathlib.Data.List.Infix
import Mathlib.Data.List.Nodup

/-! The heap shape of the two chains while calls are in progress. Each chain has
an abstract node sequence, which changes at the compare-exchange that takes or
adds a node; the pointer writes that follow are debts of the thread that owes
them. Every node is in one sequence or owned by one thread. -/
namespace TestIOCP.NoLockBiList
variable {T E : Type} [DecidableEq T]

/-- The node that only this thread can reach through its local variables. -/
def Pc.owned : Pc E → Option Node
  | .popClearHead _ x | .readEle x | .countNode _ x | .setEle _ x | .clearNext _ x
  | .pushReadTail _ x | .pushCasHead _ x | .pushCasTail _ x _ => some x
  | _ => none

/-- The chain whose end pointers disagree until this thread's next write. -/
def Pc.ending : Pc E → Option Chain
  | .popClearHead c _ => some c.chain
  | .pushSetTail c _ => some c.chain
  | _ => none

/-- The node pushed and its predecessor, before the predecessor's pnext is set. -/
def Pc.linking : Pc E → Option (Node × Node)
  | .pushSetNext _ x p => some (x, p)
  | _ => none

/-- What a thread's position says about the chains. -/
def Pc.Holds (m : Memory E) (L : Chain → List Node) : Pc E → Prop
  | .popClearHead c x => L c.chain = [] ∧ m.phead c.chain = some x ∧ m.ptail c.chain = none ∧
      m.pnext x = none
  | .pushSetTail c x => L c.chain = [x] ∧ m.phead c.chain = some x ∧ m.ptail c.chain = none
  | .pushSetNext c x p => [p, x] <:+: L c.chain ∧ m.pnext p = none
  | .pushReadTail _ x | .pushCasHead _ x | .pushCasTail _ x _ => m.pnext x = none
  | _ => True

inductive Place (T : Type) where
  | chain (c : Chain)
  | thread (t : T)

structure Shape (m : Memory E) (pc : T → Pc E) (L : Chain → List Node)
    (place : Node → Place T) : Prop where
  nodup : ∀ c, (L c).Nodup
  member : ∀ c, ∀ x ∈ L c, x < m.allocated ∧ place x = .chain c
  owner : ∀ t x, (pc t).owned = some x → x < m.allocated ∧ place x = .thread t
  ends : ∀ c, (m.phead c = (L c).head? ∧ m.ptail c = (L c).getLast?) ∨
    (m.ptail c = none ∧ ∃ t, (pc t).ending = some c)
  links : ∀ c a b, [a, b] <:+: L c → m.pnext a = some b ∨
    (m.pnext a = none ∧ ∃ t, (pc t).linking = some (b, a))
  last : ∀ c x, (L c).getLast? = some x → m.pnext x = none
  holds : ∀ t, (pc t).Holds m L
  endOnce : ∀ t u c, (pc t).ending = some c → (pc u).ending = some c → t = u
  linkOnce : ∀ t u x p q, (pc t).linking = some (x, p) → (pc u).linking = some (x, q) → t = u

/-- A position keeps its meaning if the memory it speaks about is unchanged. -/
theorem Pc.Holds.mono {m m' : Memory E} {L L' : Chain → List Node} {p : Pc E} (holds : p.Holds m L)
    (ending : ∀ c, p.ending = some c →
      L' c = L c ∧ m'.phead c = m.phead c ∧ m'.ptail c = m.ptail c)
    (owned : ∀ x, p.owned = some x → m'.pnext x = m.pnext x)
    (linking : ∀ x q c, p.linking = some (x, q) → [q, x] <:+: L c → m.pnext q = none →
      [q, x] <:+: L' c ∧ m'.pnext q = none) : p.Holds m' L' := by
  cases p with
  | popClearHead c x =>
    obtain ⟨empty, head, tail, next⟩ := holds
    obtain ⟨sameL, sameHead, sameTail⟩ := ending _ rfl
    exact ⟨sameL.trans empty, sameHead.trans head, sameTail.trans tail, (owned x rfl).trans next⟩
  | pushSetTail c x =>
    obtain ⟨single, head, tail⟩ := holds
    obtain ⟨sameL, sameHead, sameTail⟩ := ending _ rfl
    exact ⟨sameL.trans single, sameHead.trans head, sameTail.trans tail⟩
  | pushSetNext c x q => exact linking x q _ rfl holds.1 holds.2
  | pushReadTail c x | pushCasHead c x | pushCasTail c x => exact (owned x rfl).trans holds
  | _ => trivial

namespace Shape
variable {m m' : Memory E} {pc : T → Pc E} {L L' : Chain → List Node}
  {place place' : Node → Place T}

/-- The shape after a step of one thread, from what the thread leaves behind
and what the other threads still see. -/
theorem step {t : T} {p : Pc E}
    (shape : Shape m pc L place)
    (nodup : ∀ c, (L' c).Nodup)
    (member : ∀ c, ∀ x ∈ L' c, x < m'.allocated ∧ place' x = .chain c)
    (own : ∀ x, p.owned = some x → x < m'.allocated ∧ place' x = .thread t)
    (owner : ∀ u x, u ≠ t → (pc u).owned = some x → x < m'.allocated ∧ place' x = .thread u)
    (ends : ∀ c, (m'.phead c = (L' c).head? ∧ m'.ptail c = (L' c).getLast?) ∨
      (m'.ptail c = none ∧ (p.ending = some c ∨ ∃ u, u ≠ t ∧ (pc u).ending = some c)))
    (links : ∀ c a b, [a, b] <:+: L' c → m'.pnext a = some b ∨ (m'.pnext a = none ∧
      (p.linking = some (b, a) ∨ ∃ u, u ≠ t ∧ (pc u).linking = some (b, a))))
    (last : ∀ c x, (L' c).getLast? = some x → m'.pnext x = none)
    (hold : p.Holds m' L') (holds : ∀ u, u ≠ t → (pc u).Holds m' L')
    (endOnce : ∀ u c, u ≠ t → p.ending = some c → (pc u).ending ≠ some c)
    (linkOnce : ∀ u x q r, u ≠ t → p.linking = some (x, q) → (pc u).linking ≠ some (x, r)) :
    Shape m' (Function.update pc t p) L' place' := by
  constructor
  · exact nodup
  · exact member
  · exact (Function.forall_update_iff pc (fun u q => ∀ x, q.owned = some x →
      x < m'.allocated ∧ place' x = .thread u)).mpr ⟨own, fun u other x => owner u x other⟩
  · intro c
    exact (ends c).imp_right (fun h => ⟨h.1,
      (Function.exists_update_iff pc (fun _ q => q.ending = some c)).mpr h.2⟩)
  · intro c a b adjacent
    exact (links c a b adjacent).imp_right (fun h => ⟨h.1,
      (Function.exists_update_iff pc (fun _ q => q.linking = some (b, a))).mpr h.2⟩)
  · exact last
  · exact (Function.forall_update_iff pc (fun _ q => q.Holds m' L')).mpr ⟨hold, holds⟩
  · intro u v c hu hv
    by_cases ht : u = t <;> by_cases hs : v = t
    · exact ht.trans hs.symm
    · subst u
      exact absurd (by simpa [hs] using hv) (endOnce v c hs (by simpa using hu))
    · subst v
      exact absurd (by simpa [ht] using hu) (endOnce u c ht (by simpa using hv))
    · exact shape.endOnce u v c (by simpa [ht] using hu) (by simpa [hs] using hv)
  · intro u v x q r hu hv
    by_cases ht : u = t <;> by_cases hs : v = t
    · exact ht.trans hs.symm
    · subst u
      exact absurd (by simpa [hs] using hv) (linkOnce v x q r hs (by simpa using hu))
    · subst v
      exact absurd (by simpa [ht] using hu) (linkOnce u x r q ht (by simpa using hv))
    · exact shape.linkOnce u v x q r (by simpa [ht] using hu) (by simpa [hs] using hv)

omit [DecidableEq T] in
/-- A thread that neither ends nor links a chain is not the one a chain waits for. -/
theorem ends_other (shape : Shape m pc L place) (free : (pc t).ending = none) (c : Chain) :
    (m.phead c = (L c).head? ∧ m.ptail c = (L c).getLast?) ∨
      (m.ptail c = none ∧ ∃ u, u ≠ t ∧ (pc u).ending = some c) := by
  refine (shape.ends c).imp_right ?_
  rintro ⟨tail, u, ending⟩
  refine ⟨tail, u, ?_, ending⟩
  rintro rfl
  simp [free] at ending

omit [DecidableEq T] in
theorem links_other (shape : Shape m pc L place) (free : (pc t).linking = none)
    (adjacent : [a, b] <:+: L c) :
    m.pnext a = some b ∨ (m.pnext a = none ∧ ∃ u, u ≠ t ∧ (pc u).linking = some (b, a)) := by
  refine (shape.links c a b adjacent).imp_right ?_
  rintro ⟨next, u, linking⟩
  refine ⟨next, u, ?_, linking⟩
  rintro rfl
  simp [free] at linking

omit [DecidableEq T] in
/-- While an end write is owed, ptail is null and phead is the only node. -/
theorem ending_holds (shape : Shape m pc L place) (ending : (pc u).ending = some c) :
    ∃ x, m.phead c = some x ∧ m.ptail c = none ∧ m.pnext x = none ∧ (L c = [] ∨ L c = [x]) := by
  have holds := shape.holds u
  cases at_ : pc u <;> simp [at_, Pc.ending] at ending
  all_goals
    subst c
    simp only [at_, Pc.Holds] at holds
  · exact ⟨_, holds.2.1, holds.2.2.1, holds.2.2.2, .inl holds.1⟩
  · exact ⟨_, holds.2.1, holds.2.2, shape.last _ _ (by rw [holds.1]; rfl), .inr holds.1⟩

omit [DecidableEq T] in
/-- A chain whose ptail is set is settled: its ends are those of its sequence. -/
theorem settled (shape : Shape m pc L place) (tail : m.ptail c = some x) :
    m.phead c = (L c).head? ∧ (L c).getLast? = some x := by
  rcases shape.ends c with ⟨head, same⟩ | ⟨none_, _⟩
  · exact ⟨head, same.symm.trans tail⟩
  · simp [none_] at tail

omit [DecidableEq T] in
theorem settled_ending (shape : Shape m pc L place) (tail : m.ptail c = some x) (u : T) :
    (pc u).ending ≠ some c := by
  intro ending
  obtain ⟨_, _, tailNone, _⟩ := shape.ending_holds ending
  simp [tail] at tailNone

/-- A thread that only reads, or writes a field outside the chains, keeps the
shape if it keeps what it owns and owes. -/
theorem move (shape : Shape m pc L place) {p : Pc E} (holds : p.Holds m L)
    (owned : p.owned = (pc t).owned) (ending : p.ending = (pc t).ending)
    (linking : p.linking = (pc t).linking) : Shape m (Function.update pc t p) L place := by
  have same {α : Type} (f : Pc E → Option α) (eq : f p = f (pc t)) (u : T) :
      f (Function.update pc t p u) = f (pc u) := by
    by_cases h : u = t
    · subst u; simpa using eq
    · simp [h]
  constructor
  · exact shape.nodup
  · exact shape.member
  · simpa only [same _ owned] using shape.owner
  · simpa only [same _ ending] using shape.ends
  · simpa only [same _ linking] using shape.links
  · exact shape.last
  · intro u
    by_cases h : u = t
    · subst u; simpa using holds
    · simpa [h] using shape.holds u
  · simpa only [same _ ending] using shape.endOnce
  · simpa only [same _ linking] using shape.linkOnce

omit [DecidableEq T] in
/-- The shape does not speak about elements and counters. -/
theorem fields (shape : Shape m pc L place) (phead : m'.phead = m.phead)
    (ptail : m'.ptail = m.ptail)
    (pnext : m'.pnext = m.pnext) (allocated : m'.allocated = m.allocated) :
    Shape m' pc L place := by
  constructor
  · exact shape.nodup
  · simpa only [allocated] using shape.member
  · simpa only [allocated] using shape.owner
  · simpa only [phead, ptail] using shape.ends
  · simpa only [pnext] using shape.links
  · simpa only [pnext] using shape.last
  · intro t
    refine (shape.holds t).mono (fun _ _ => ⟨rfl, ?_, ?_⟩) (fun _ _ => ?_)
      (fun _ _ _ _ pair next => ⟨pair, ?_⟩)
    · rw [phead]
    · rw [ptail]
    · rw [pnext]
    · rw [pnext, next]
  · exact shape.endOnce
  · exact shape.linkOnce

theorem newNode (shape : Shape m pc L place) (at_ : pc t = .newNode o) :
    Shape { m with allocated := m.allocated + 1 }
      (Function.update pc t (.countNode o m.allocated)) L
      (Function.update place m.allocated (.thread t)) := by
  have older : ∀ x, x < m.allocated →
      x < m.allocated + 1 ∧ Function.update place m.allocated (.thread t) x = place x := by
    intro x bound
    exact ⟨by omega, by simp [Nat.ne_of_lt bound]⟩
  refine shape.step shape.nodup ?_ ?_ ?_ ?_ ?_ ?_ ?_ ?_ ?_ ?_
  · intro c x hx
    obtain ⟨bound, at_⟩ := shape.member c x hx
    exact ⟨(older x bound).1, (older x bound).2.trans at_⟩
  · rintro x ⟨⟩
    simp
  · intro u x _ owned
    obtain ⟨bound, at_⟩ := shape.owner u x owned
    exact ⟨(older x bound).1, (older x bound).2.trans at_⟩
  · intro c
    exact (shape.ends_other (t := t) (by simp [at_, Pc.ending]) c).imp_right
      (fun h => ⟨h.1, .inr h.2⟩)
  · intro c a b adjacent
    exact (shape.links_other (t := t) (by simp [at_, Pc.linking]) adjacent).imp_right
      (fun h => ⟨h.1, .inr h.2⟩)
  · exact shape.last
  · trivial
  · intro u _
    exact (shape.holds u).mono (fun _ _ => ⟨rfl, rfl, rfl⟩) (fun _ _ => rfl)
      (fun _ _ _ _ infix_ next => ⟨infix_, next⟩)
  · simp [Pc.ending]
  · simp [Pc.linking]

/-- PushNullTail and PushTail clear pnext of the node they own. -/
theorem clearNext (shape : Shape m pc L place) (at_ : pc t = .clearNext c x) :
    Shape { m with pnext := Function.update m.pnext x none }
      (Function.update pc t (.pushReadTail c x)) L place := by
  have owned : (pc t).owned = some x := by simp [at_, Pc.owned]
  have outside : ∀ c', ∀ y ∈ L c', y ≠ x := by
    rintro c' y hy rfl
    have := (shape.member c' y hy).2.symm.trans (shape.owner t y owned).2
    contradiction
  have same : ∀ y, y ≠ x → Function.update m.pnext x none y = m.pnext y := by
    intro y different
    simp [different]
  refine shape.step shape.nodup ?_ ?_ ?_ ?_ ?_ ?_ ?_ ?_ ?_ ?_
  · exact shape.member
  · rintro y ⟨⟩
    exact shape.owner t x owned
  · exact fun u y _ => shape.owner u y
  · intro c'
    exact (shape.ends_other (t := t) (by simp [at_, Pc.ending]) c').imp_right
      (fun h => ⟨h.1, .inr h.2⟩)
  · intro c' a b adjacent
    have member : a ∈ L c' := adjacent.subset (by simp)
    dsimp only
    rw [same a (outside c' a member)]
    exact (shape.links_other (t := t) (by simp [at_, Pc.linking]) adjacent).imp_right
      (fun h => ⟨h.1, .inr h.2⟩)
  · intro c' y final
    exact (same y (outside c' y (List.mem_of_getLast? final))).trans (shape.last c' y final)
  · simp [Pc.Holds]
  · intro u other
    refine (shape.holds u).mono (fun _ _ => ⟨rfl, rfl, rfl⟩) ?_ ?_
    · intro y ownedU
      apply same
      rintro rfl
      have := (shape.owner u y ownedU).2.symm.trans (shape.owner t y owned).2
      exact other (Place.thread.inj this)
    · intro y q c' _ adjacent next
      exact ⟨adjacent, (same q (outside c' q (adjacent.subset (by simp)))).trans next⟩
  · simp [Pc.ending]
  · simp [Pc.linking]

private theorem single_of_ends {l : List Node} (nodup : l.Nodup) (first : l.head? = some x)
    (final : l.getLast? = some x) : l = [x] := by
  cases l with
  | nil => simp at first
  | cons y rest =>
    obtain rfl : y = x := by simpa using first
    cases rest with
    | nil => rfl
    | cons z rest =>
      have : y ∈ z :: rest := List.mem_of_getLast? (by simpa using final)
      exact absurd this (List.nodup_cons.mp nodup).1

private theorem no_pair (x a b : Node) : ¬ [a, b] <:+: [x] := by
  intro adjacent
  have := adjacent.length_le
  simp at this

/-- The compare-exchange that empties a chain: sound when phead still equals
the tail that it removes. -/
theorem popCasTail (shape : Shape m pc L place) (at_ : pc t = .popCasTail c x)
    (tail : m.ptail c.chain = some x) (head : m.phead c.chain = some x) :
    L c.chain = [x] ∧
    Shape { m with ptail := Function.update m.ptail c.chain none }
      (Function.update pc t (.popClearHead c x)) (Function.update L c.chain [])
      (Function.update place x (.thread t)) := by
  obtain ⟨first, final⟩ := shape.settled tail
  have single : L c.chain = [x] := single_of_ends (shape.nodup _) (first ▸ head) final
  obtain ⟨bound, placed⟩ := shape.member c.chain x (by simp [single])
  refine ⟨single, shape.step ?_ ?_ ?_ ?_ ?_ ?_ ?_ ?_ ?_ ?_ ?_⟩
  · intro d
    by_cases same : d = c.chain
    · subst d; simp
    · simpa [same] using shape.nodup d
  · intro d y hy
    by_cases same : d = c.chain
    · subst d; simp at hy
    · obtain ⟨boundY, placedY⟩ := shape.member d y (by simpa [same] using hy)
      refine ⟨boundY, ?_⟩
      have : y ≠ x := by
        rintro rfl
        exact same (Place.chain.inj (placedY.symm.trans placed))
      simpa [this] using placedY
  · rintro y ⟨⟩
    exact ⟨bound, by simp⟩
  · intro u y _ owned
    obtain ⟨boundY, placedY⟩ := shape.owner u y owned
    refine ⟨boundY, ?_⟩
    have : y ≠ x := by
      rintro rfl
      have := placedY.symm.trans placed
      contradiction
    simpa [this] using placedY
  · intro d
    by_cases same : d = c.chain
    · subst d
      exact .inr ⟨by simp, .inl rfl⟩
    · simpa [same] using (shape.ends_other (t := t) (by simp [at_, Pc.ending]) d).imp_right
        (fun h => (⟨h.1, .inr h.2⟩ : m.ptail d = none ∧
          (Pc.ending (.popClearHead c x) = some d ∨ _)))
  · intro d a b adjacent
    by_cases same : d = c.chain
    · subst d
      simp at adjacent
    · exact (shape.links_other (t := t) (by simp [at_, Pc.linking])
        (by simpa [same] using adjacent)).imp_right (fun h => ⟨h.1, .inr h.2⟩)
  · intro d y lastY
    by_cases same : d = c.chain
    · subst d; simp at lastY
    · exact shape.last d y (by simpa [same] using lastY)
  · exact ⟨by simp, head, by simp, shape.last _ _ final⟩
  · intro u _
    refine (shape.holds u).mono ?_ (fun _ _ => rfl) ?_
    · intro d ending
      have different : d ≠ c.chain := by
        rintro rfl
        exact shape.settled_ending tail u ending
      simp [different]
    · intro y q d _ adjacent next
      have different : d ≠ c.chain := by
        rintro rfl
        exact no_pair x q y (single ▸ adjacent)
      exact ⟨by simpa [different] using adjacent, next⟩
  · rintro u d _ ⟨⟩
    exact shape.settled_ending tail u
  · simp [Pc.linking]

private theorem pair_cons {a b x : Node} {l : List Node} :
    [a, b] <:+: x :: l ↔ (a = x ∧ l.head? = some b) ∨ [a, b] <:+: l := by
  rw [List.infix_cons_iff, List.cons_prefix_cons]
  cases l <;> simp [@eq_comm Node b]

private theorem pair_unique {l : List Node} (nodup : l.Nodup) (first : [a, b] <:+: l)
    (second : [a, d] <:+: l) : b = d := by
  induction l with
  | nil => simp at first
  | cons x l ih =>
    obtain ⟨fresh, rest⟩ := List.nodup_cons.mp nodup
    rcases pair_cons.mp first with ⟨rfl, headB⟩ | inB
    · rcases pair_cons.mp second with ⟨_, headD⟩ | inD
      · exact Option.some.inj (headB.symm.trans headD)
      · exact absurd (inD.subset (by simp)) fresh
    · rcases pair_cons.mp second with ⟨rfl, _⟩ | inD
      · exact absurd (inB.subset (by simp)) fresh
      · exact ih rest inB inD

private theorem pair_not_last {l : List Node} (nodup : l.Nodup) (pair : [a, b] <:+: l) :
    l.getLast? ≠ some a := by
  induction l with
  | nil => simp
  | cons x l ih =>
    obtain ⟨fresh, rest⟩ := List.nodup_cons.mp nodup
    cases l with
    | nil => exact absurd pair (no_pair x a b)
    | cons y l =>
      rw [List.getLast?_cons_cons]
      rcases pair_cons.mp pair with ⟨rfl, _⟩ | inside
      · intro final
        exact fresh (List.mem_of_getLast? final)
      · exact ih rest inside

@[simp] theorem taken_owned (c : PopCall E) : (c.taken x : Pc E).owned = some x := by
  cases c <;> rfl

@[simp] theorem taken_ending (c : PopCall E) : (c.taken x : Pc E).ending = none := by
  cases c <;> rfl

@[simp] theorem taken_linking (c : PopCall E) : (c.taken x : Pc E).linking = none := by
  cases c <;> rfl

theorem taken_holds (c : PopCall E) : (c.taken x).Holds m L := by
  cases c <;> trivial

omit [DecidableEq T] in
/-- The head of a chain with a successor in pnext is followed by it. -/
theorem head_next (shape : Shape m pc L place) (head : m.phead c = some h)
    (next : m.pnext h = some n) : ∃ rest, L c = h :: n :: rest := by
  rcases shape.ends c with ⟨first, _⟩ | ⟨_, u, ending⟩
  · cases seq : L c with
    | nil => simp [seq, head] at first
    | cons x rest =>
      obtain rfl : h = x := by simpa [seq, head] using first
      cases rest with
      | nil =>
        have := shape.last c h (by simp [seq])
        simp [next] at this
      | cons y rest =>
        rcases shape.links c h y (by simp [seq, pair_cons]) with linked | ⟨open_, _⟩
        · obtain rfl : n = y := Option.some.inj (next.symm.trans linked)
          exact ⟨rest, rfl⟩
        · simp [next] at open_
  · obtain ⟨x, headX, _, open_, _⟩ := shape.ending_holds ending
    obtain rfl : h = x := Option.some.inj (head.symm.trans headX)
    simp [next] at open_

/-- The compare-exchange that moves phead on: sound when the node it installs
is the current successor of the one it removes. -/
theorem popCasHead (shape : Shape m pc L place) (at_ : pc t = .popCasHead c h n)
    (head : m.phead c.chain = some h) (next : m.pnext h = some n) :
    ∃ rest, L c.chain = h :: n :: rest ∧
    Shape { m with phead := Function.update m.phead c.chain (some n) }
      (Function.update pc t (c.taken h)) (Function.update L c.chain (n :: rest))
      (Function.update place h (.thread t)) := by
  obtain ⟨rest, seq⟩ := shape.head_next head next
  obtain ⟨bound, placed⟩ := shape.member c.chain h (by simp [seq])
  have nodup := shape.nodup c.chain
  rw [seq] at nodup
  have busy : ∀ u, (pc u).ending ≠ some c.chain := by
    intro u ending
    obtain ⟨_, _, _, _, short | short⟩ := shape.ending_holds ending <;> simp [seq] at short
  have inside : ∀ d, ∀ y ∈ Function.update L c.chain (n :: rest) d, y ∈ L d ∧ y ≠ h := by
    intro d y hy
    by_cases same : d = c.chain
    · subst d
      simp only [Function.update_self] at hy
      rw [seq]
      refine ⟨List.mem_cons_of_mem _ hy, ?_⟩
      rintro rfl
      exact (List.nodup_cons.mp nodup).1 hy
    · rw [Function.update_of_ne same] at hy
      refine ⟨hy, ?_⟩
      rintro rfl
      exact same (Place.chain.inj ((shape.member d y hy).2.symm.trans placed))
  have pairs : ∀ d a b, [a, b] <:+: Function.update L c.chain (n :: rest) d → [a, b] <:+: L d := by
    intro d a b adjacent
    by_cases same : d = c.chain
    · subst d
      rw [seq]
      exact pair_cons.mpr (.inr (by simpa using adjacent))
    · simpa [same] using adjacent
  refine ⟨rest, seq, shape.step ?_ ?_ ?_ ?_ ?_ ?_ ?_ ?_ ?_ ?_ ?_⟩
  · intro d
    by_cases same : d = c.chain
    · subst d; simpa using (List.nodup_cons.mp nodup).2
    · simpa [same] using shape.nodup d
  · intro d y hy
    obtain ⟨old, different⟩ := inside d y hy
    obtain ⟨boundY, placedY⟩ := shape.member d y old
    exact ⟨boundY, by simpa [different] using placedY⟩
  · intro y owned
    obtain rfl : h = y := by simpa using owned
    exact ⟨bound, by simp⟩
  · intro u y _ owned
    obtain ⟨boundY, placedY⟩ := shape.owner u y owned
    have different : y ≠ h := by
      rintro rfl
      have := placedY.symm.trans placed
      contradiction
    exact ⟨boundY, by simpa [different] using placedY⟩
  · intro d
    by_cases same : d = c.chain
    · subst d
      rcases shape.ends c.chain with ⟨_, final⟩ | ⟨_, u, ending⟩
      · left
        rw [final, seq]
        simp
      · exact absurd ending (busy u)
    · simpa [same] using (shape.ends_other (t := t) (by simp [at_, Pc.ending]) d)
  · intro d a b adjacent
    exact (shape.links_other (t := t) (by simp [at_, Pc.linking]) (pairs d a b adjacent)).imp_right
      (fun h => ⟨h.1, .inr h.2⟩)
  · intro d y final
    by_cases same : d = c.chain
    · subst d
      exact shape.last _ y (by rw [seq, List.getLast?_cons_cons]; simpa using final)
    · exact shape.last d y (by simpa [same] using final)
  · exact taken_holds c
  · intro u _
    refine (shape.holds u).mono ?_ (fun _ _ => rfl) ?_
    · intro d ending
      have different : d ≠ c.chain := by
        rintro rfl
        exact busy u ending
      simp [different]
    · intro y q d _ adjacent open_
      refine ⟨?_, open_⟩
      by_cases same : d = c.chain
      · subst d
        rw [seq] at adjacent
        rcases pair_cons.mp adjacent with ⟨rfl, _⟩ | adjacent
        · simp [next] at open_
        · simpa using adjacent
      · simpa [same] using adjacent
  · simp
  · simp

/-- The write of null to phead that completes the removal of the last node. -/
theorem popClearHead (shape : Shape m pc L place) (at_ : pc t = .popClearHead c x) :
    Shape { m with phead := Function.update m.phead c.chain none }
      (Function.update pc t (c.taken x)) L place := by
  obtain ⟨empty, _, tail, _⟩ : (Pc.popClearHead c x).Holds m L := at_ ▸ shape.holds t
  have ending : (pc t).ending = some c.chain := by simp [at_, Pc.ending]
  refine shape.step shape.nodup ?_ ?_ ?_ ?_ ?_ ?_ ?_ ?_ ?_ ?_
  · exact shape.member
  · intro y owned
    obtain rfl : x = y := by simpa using owned
    exact shape.owner t x (by simp [at_, Pc.owned])
  · exact fun u y _ => shape.owner u y
  · intro d
    by_cases same : d = c.chain
    · subst d
      left
      simp [empty, tail]
    · rcases shape.ends d with settled | ⟨tailD, u, endingU⟩
      · left; simpa [same] using settled
      · refine .inr ⟨tailD, .inr ⟨u, ?_, endingU⟩⟩
        rintro rfl
        exact same (Option.some.inj (endingU.symm.trans ending))
  · intro d a b adjacent
    exact (shape.links_other (t := t) (by simp [at_, Pc.linking]) adjacent).imp_right
      (fun h => ⟨h.1, .inr h.2⟩)
  · exact shape.last
  · exact taken_holds c
  · intro u other
    refine (shape.holds u).mono ?_ (fun _ _ => rfl) (fun _ _ _ _ adjacent next => ⟨adjacent, next⟩)
    intro d endingU
    have different : d ≠ c.chain := by
      rintro rfl
      exact other (shape.endOnce u t _ endingU ending)
    simp [different]
  · simp
  · simp

/-- The compare-exchange that starts an empty chain. -/
theorem pushCasHead (shape : Shape m pc L place) (at_ : pc t = .pushCasHead c x)
    (head : m.phead c.chain = none) :
    L c.chain = [] ∧
    Shape { m with phead := Function.update m.phead c.chain (some x) }
      (Function.update pc t (.pushSetTail c x)) (Function.update L c.chain [x])
      (Function.update place x (.chain c.chain)) := by
  have open_ : m.pnext x = none := (at_ ▸ shape.holds t : (Pc.pushCasHead c x).Holds m L)
  obtain ⟨bound, placed⟩ := shape.owner t x (by simp [at_, Pc.owned])
  have busy : ∀ u, (pc u).ending ≠ some c.chain := by
    intro u ending
    obtain ⟨_, headSome, _⟩ := shape.ending_holds ending
    simp [head] at headSome
  obtain ⟨empty, tail⟩ : L c.chain = [] ∧ m.ptail c.chain = none := by
    rcases shape.ends c.chain with ⟨first, final⟩ | ⟨_, u, ending⟩
    · have empty : L c.chain = [] := List.head?_eq_none_iff.mp (first.symm.trans head)
      exact ⟨empty, by simpa [empty] using final⟩
    · exact absurd ending (busy u)
  have outside : ∀ d, ∀ y ∈ L d, y ≠ x := by
    rintro d y hy rfl
    have := (shape.member d y hy).2.symm.trans placed
    contradiction
  refine ⟨empty, shape.step ?_ ?_ ?_ ?_ ?_ ?_ ?_ ?_ ?_ ?_ ?_⟩
  · intro d
    by_cases same : d = c.chain
    · subst d; simp
    · simpa [same] using shape.nodup d
  · intro d y hy
    by_cases same : d = c.chain
    · subst d
      obtain rfl : y = x := by simpa using hy
      exact ⟨bound, by simp⟩
    · have old : y ∈ L d := by simpa [same] using hy
      obtain ⟨boundY, placedY⟩ := shape.member d y old
      exact ⟨boundY, by simpa [outside d y old] using placedY⟩
  · simp [Pc.owned]
  · intro u y other owned
    obtain ⟨boundY, placedY⟩ := shape.owner u y owned
    refine ⟨boundY, ?_⟩
    have different : y ≠ x := by
      rintro rfl
      exact other (Place.thread.inj (placedY.symm.trans placed))
    simpa [different] using placedY
  · intro d
    by_cases same : d = c.chain
    · subst d
      exact .inr ⟨tail, .inl rfl⟩
    · rcases shape.ends_other (t := t) (by simp [at_, Pc.ending]) d with settled | ⟨tailD, rest⟩
      · left; simpa [same] using settled
      · exact .inr ⟨tailD, .inr rest⟩
  · intro d a b adjacent
    by_cases same : d = c.chain
    · subst d
      exact absurd (by simpa using adjacent) (no_pair x a b)
    · exact (shape.links_other (t := t) (by simp [at_, Pc.linking])
        (by simpa [same] using adjacent)).imp_right (fun h => ⟨h.1, .inr h.2⟩)
  · intro d y final
    by_cases same : d = c.chain
    · subst d
      obtain rfl : x = y := by simpa using final
      exact open_
    · exact shape.last d y (by simpa [same] using final)
  · exact ⟨by simp, by simp, tail⟩
  · intro u _
    refine (shape.holds u).mono ?_ (fun _ _ => rfl) ?_
    · intro d ending
      have different : d ≠ c.chain := by
        rintro rfl
        exact busy u ending
      simp [different]
    · intro y q d _ adjacent next
      have different : d ≠ c.chain := by
        rintro rfl
        simp [empty] at adjacent
      exact ⟨by simpa [different] using adjacent, next⟩
  · rintro u d _ ⟨⟩
    exact busy u
  · simp [Pc.linking]

/-- The write of ptail that completes the start of an empty chain. -/
theorem pushSetTail (shape : Shape m pc L place) (at_ : pc t = .pushSetTail c x) :
    Shape { m with ptail := Function.update m.ptail c.chain (some x) }
      (Function.update pc t (.countEle c)) L place := by
  obtain ⟨single, head, tail⟩ : (Pc.pushSetTail c x).Holds m L := at_ ▸ shape.holds t
  have ending : (pc t).ending = some c.chain := by simp [at_, Pc.ending]
  refine shape.step shape.nodup ?_ ?_ ?_ ?_ ?_ ?_ ?_ ?_ ?_ ?_
  · exact shape.member
  · simp [Pc.owned]
  · exact fun u y _ => shape.owner u y
  · intro d
    by_cases same : d = c.chain
    · subst d
      left
      simp [single, head]
    · rcases shape.ends d with settled | ⟨tailD, u, endingU⟩
      · left; simpa [same] using settled
      · refine .inr ⟨by simpa [same] using tailD, .inr ⟨u, ?_, endingU⟩⟩
        rintro rfl
        exact same (Option.some.inj (endingU.symm.trans ending))
  · intro d a b adjacent
    exact (shape.links_other (t := t) (by simp [at_, Pc.linking]) adjacent).imp_right
      (fun h => ⟨h.1, .inr h.2⟩)
  · exact shape.last
  · trivial
  · intro u other
    refine (shape.holds u).mono ?_ (fun _ _ => rfl) (fun _ _ _ _ adjacent next => ⟨adjacent, next⟩)
    intro d endingU
    have different : d ≠ c.chain := by
      rintro rfl
      exact other (shape.endOnce u t _ endingU ending)
    simp [different]
  · simp [Pc.ending]
  · simp [Pc.linking]

/-- The compare-exchange that appends a node to a chain with a tail. -/
theorem pushCasTail (shape : Shape m pc L place) (at_ : pc t = .pushCasTail c x q)
    (tail : m.ptail c.chain = some q) :
    Shape { m with ptail := Function.update m.ptail c.chain (some x) }
      (Function.update pc t (.pushSetNext c x q)) (Function.update L c.chain (L c.chain ++ [x]))
      (Function.update place x (.chain c.chain)) := by
  have open_ : m.pnext x = none := (at_ ▸ shape.holds t : (Pc.pushCasTail c x q).Holds m L)
  obtain ⟨bound, placed⟩ := shape.owner t x (by simp [at_, Pc.owned])
  obtain ⟨first, final⟩ := shape.settled tail
  obtain ⟨front, seq⟩ := List.getLast?_eq_some_iff.mp final
  have outside : ∀ d, ∀ y ∈ L d, y ≠ x := by
    rintro d y hy rfl
    have := (shape.member d y hy).2.symm.trans placed
    contradiction
  refine shape.step ?_ ?_ ?_ ?_ ?_ ?_ ?_ ?_ ?_ ?_ ?_
  · intro d
    by_cases same : d = c.chain
    · subst d
      simp only [Function.update_self]
      refine (shape.nodup c.chain).append (List.nodup_singleton x) ?_
      intro y hy hx
      exact outside _ y hy (List.mem_singleton.mp hx)
    · simpa [same] using shape.nodup d
  · intro d y hy
    by_cases same : d = c.chain
    · subst d
      rw [Function.update_self] at hy
      rcases List.mem_append.mp hy with old | new
      · obtain ⟨boundY, placedY⟩ := shape.member _ y old
        exact ⟨boundY, by simpa [outside _ y old] using placedY⟩
      · obtain rfl : y = x := List.mem_singleton.mp new
        exact ⟨bound, by simp⟩
    · have old : y ∈ L d := by simpa [same] using hy
      obtain ⟨boundY, placedY⟩ := shape.member d y old
      exact ⟨boundY, by simpa [outside d y old] using placedY⟩
  · simp [Pc.owned]
  · intro u y other owned
    obtain ⟨boundY, placedY⟩ := shape.owner u y owned
    refine ⟨boundY, ?_⟩
    have different : y ≠ x := by
      rintro rfl
      exact other (Place.thread.inj (placedY.symm.trans placed))
    simpa [different] using placedY
  · intro d
    by_cases same : d = c.chain
    · subst d
      left
      rw [seq] at first
      simp only [Function.update_self, List.getLast?_concat, and_true, first, seq]
      cases front <;> rfl
    · rcases shape.ends_other (t := t) (by simp [at_, Pc.ending]) d with settled | ⟨tailD, rest⟩
      · left; simpa [same] using settled
      · exact .inr ⟨by simpa [same] using tailD, .inr rest⟩
  · intro d a b adjacent
    have old (inL : [a, b] <:+: L d) := (shape.links_other (t := t)
      (by simp [at_, Pc.linking]) inL).imp_right (fun h => (⟨h.1, .inr h.2⟩ :
        m.pnext a = none ∧ ((Pc.pushSetNext c x q).linking = some (b, a) ∨ _)))
    by_cases same : d = c.chain
    · subst d
      rw [Function.update_self] at adjacent
      rcases List.infix_concat_iff.mp adjacent with suffix | inL
      · -- the new pair: the old tail and the node just appended
        obtain ⟨lead, eq⟩ := suffix
        have split : lead ++ [a] = front ++ [q] ∧ b = x := by
          have : (lead ++ [a]) ++ [b] = L c.chain ++ [x] := by simpa using eq
          obtain ⟨whole, single⟩ := List.append_inj' this rfl
          exact ⟨whole.trans seq, by simpa using single⟩
        obtain ⟨prefix_, rfl⟩ := split
        obtain rfl : a = q := by simpa using (List.append_inj' prefix_ rfl).2
        exact .inr ⟨shape.last _ a final, .inl rfl⟩
      · exact old inL
    · exact old (by simpa [same] using adjacent)
  · intro d y lastY
    by_cases same : d = c.chain
    · subst d
      obtain rfl : x = y := by simpa using lastY
      exact open_
    · exact shape.last d y (by simpa [same] using lastY)
  · refine ⟨⟨front, [], ?_⟩, shape.last _ q final⟩
    simp [seq]
  · intro u _
    refine (shape.holds u).mono ?_ (fun _ _ => rfl) ?_
    · intro d ending
      have different : d ≠ c.chain := by
        rintro rfl
        exact shape.settled_ending tail u ending
      simp [different]
    · intro y r d _ adjacent next
      refine ⟨?_, next⟩
      by_cases same : d = c.chain
      · subst d
        rw [Function.update_self]
        exact adjacent.trans (List.prefix_append _ _).isInfix
      · simpa [same] using adjacent
  · simp [Pc.ending]
  · rintro u y r s other ⟨⟩ linking
    have holds := shape.holds u
    cases atU : pc u <;> simp [atU, Pc.linking] at linking
    obtain ⟨rfl, rfl⟩ := linking
    simp only [atU, Pc.Holds] at holds
    exact outside _ _ (holds.1.subset (by simp)) rfl

/-- The write of pnext that completes an append. -/
theorem pushSetNext (shape : Shape m pc L place) (at_ : pc t = .pushSetNext c x q) :
    Shape { m with pnext := Function.update m.pnext q (some x) }
      (Function.update pc t (.countEle c)) L place := by
  obtain ⟨pair, open_⟩ : (Pc.pushSetNext c x q).Holds m L := at_ ▸ shape.holds t
  have linking : (pc t).linking = some (x, q) := by simp [at_, Pc.linking]
  have inside : q ∈ L c.chain := pair.subset (by simp)
  have same : ∀ y, y ≠ q → Function.update m.pnext q (some x) y = m.pnext y := by
    intro y different
    simp [different]
  have only : ∀ d b, [q, b] <:+: L d → b = x := by
    intro d b adjacent
    have : d = c.chain := Place.chain.inj
      ((shape.member d q (adjacent.subset (by simp))).2.symm.trans (shape.member _ q inside).2)
    subst d
    exact pair_unique (shape.nodup _) adjacent pair
  refine shape.step shape.nodup ?_ ?_ ?_ ?_ ?_ ?_ ?_ ?_ ?_ ?_
  · exact shape.member
  · simp [Pc.owned]
  · exact fun u y _ => shape.owner u y
  · intro d
    exact (shape.ends_other (t := t) (by simp [at_, Pc.ending]) d).imp_right
      (fun h => ⟨h.1, .inr h.2⟩)
  · intro d a b adjacent
    by_cases linked : a = q
    · subst a
      left
      simp [only d b adjacent]
    · dsimp only
      rw [same a linked]
      rcases shape.links d a b adjacent with next | ⟨none_, u, linkingU⟩
      · exact .inl next
      · refine .inr ⟨none_, .inr ⟨u, ?_, linkingU⟩⟩
        rintro rfl
        have := linkingU.symm.trans linking
        simp only [Option.some.injEq, Prod.mk.injEq] at this
        exact linked this.2
  · intro d y final
    refine (same y ?_).trans (shape.last d y final)
    rintro rfl
    have : d = c.chain := Place.chain.inj
      ((shape.member d y (List.mem_of_getLast? final)).2.symm.trans (shape.member _ y inside).2)
    subst d
    exact pair_not_last (shape.nodup _) pair final
  · trivial
  · intro u other
    refine (shape.holds u).mono (fun _ _ => ⟨rfl, rfl, rfl⟩) ?_ ?_
    · intro y owned
      apply same
      rintro rfl
      have := (shape.owner u y owned).2.symm.trans (shape.member _ y inside).2
      contradiction
    · intro y r d linkingU adjacent next
      refine ⟨adjacent, (same r ?_).trans next⟩
      rintro rfl
      obtain rfl := only d y adjacent
      exact other (shape.linkOnce u t _ _ _ linkingU linking)
  · simp [Pc.ending]
  · simp [Pc.linking]

end Shape
end TestIOCP.NoLockBiList
