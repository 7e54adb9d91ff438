import TestIOCP.NoLockBiList.Shape

/-! Where every pushed element is: in a node of the element chain, in the hands
of one thread, or returned. The map from occurrences to spots makes the three
cases exclusive. -/
namespace TestIOCP.NoLockBiList
variable {T E : Type} [DecidableEq T]

def PopCall.carries : PopCall E → Option (Occurrence E)
  | .popHead => none
  | .pushTail o => some o

/-- The occurrence that a thread has in hand: one that it is to push, or one
that it has taken off the element chain and not yet returned. -/
def Pc.carries (ele : Node → Option (Occurrence E)) : Pc E → Option (Occurrence E)
  | .idle => none
  | .popReadTail c | .popReadHead c _ | .popReadNext c _ | .popCasTail c _ | .popCasHead c _ _
  | .fault c => c.carries
  | .popClearHead .popHead x | .readEle x => ele x
  | .popClearHead (.pushTail o) _ | .newNode o | .countNode o _ | .setEle o _ => some o
  | .clearNext .pushTail x | .pushReadTail .pushTail x | .pushCasHead .pushTail x
  | .pushCasTail .pushTail x _ => ele x
  | .clearNext (.popHead pele) _ | .pushReadTail (.popHead pele) _ | .pushCasHead (.popHead pele) _
  | .pushCasTail (.popHead pele) _ _ | .pushSetTail (.popHead pele) _
  | .pushSetNext (.popHead pele) _ _ | .countEle (.popHead pele) => pele
  | .pushSetTail .pushTail _ | .pushSetNext .pushTail _ _ | .countEle .pushTail => none

/-- The node of a PushTail call once its element is stored. -/
def Pc.filled : Pc E → Option Node
  | .clearNext .pushTail x | .pushReadTail .pushTail x | .pushCasHead .pushTail x
  | .pushCasTail .pushTail x _ => some x
  | _ => none

inductive Spot (T : Type) where
  | node (x : Node)
  | thread (t : T)
  | popped

structure Track (ele : Node → Option (Occurrence E)) (pc : T → Pc E) (queue : List Node)
    (pushed popped : List (Occurrence E)) (spot : Occurrence E → Spot T) : Prop where
  queued : ∀ x ∈ queue, ∃ o, ele x = some o ∧ o ∈ pushed ∧ spot o = .node x
  carried : ∀ t o, (pc t).carries ele = some o → o ∈ pushed ∧ spot o = .thread t
  returned : ∀ o ∈ popped, o ∈ pushed ∧ spot o = .popped
  once : popped.Nodup
  filled : ∀ t x, (pc t).filled = some x → ∃ o, ele x = some o
  complete : ∀ o ∈ pushed, match spot o with
    | .node x => x ∈ queue ∧ ele x = some o
    | .thread t => (pc t).carries ele = some o
    | .popped => o ∈ popped
  numbered : ∀ o ∈ pushed, o.call < pushed.length
  distinct : pushed.Nodup

/-- A thread reads elements only of nodes that it owns. -/
theorem Pc.carries_congr {ele ele' : Node → Option (Occurrence E)} {p : Pc E}
    (same : ∀ x, p.owned = some x → ele' x = ele x) : p.carries ele' = p.carries ele := by
  cases p with
  | popClearHead c x => cases c <;> simp [Pc.carries, same x rfl]
  | readEle x => exact same x rfl
  | clearNext c x | pushReadTail c x | pushCasHead c x | pushCasTail c x =>
    cases c <;> simp [Pc.carries, same x rfl]
  | pushSetTail c x | pushSetNext c x | countEle c => cases c <;> rfl
  | _ => rfl

namespace Track
variable {ele : Node → Option (Occurrence E)} {pc : T → Pc E} {queue : List Node}
  {pushed popped : List (Occurrence E)} {spot : Occurrence E → Spot T}

omit [DecidableEq T] in
private theorem moved {o q : Occurrence E} {a b : Spot T} (atO : spot o = a) (atQ : spot q = b)
    (apart : b ≠ a) : q ≠ o := by
  rintro rfl
  exact apart (atQ.symm.trans atO)

/-- A step of a thread that keeps what it carries. -/
theorem move (track : Track ele pc queue pushed popped spot) {p : Pc E}
    (carries : p.carries ele = (pc t).carries ele)
    (filled : ∀ x, p.filled = some x → (pc t).filled = some x) :
    Track ele (Function.update pc t p) queue pushed popped spot := by
  have same (u : T) : (Function.update pc t p u).carries ele = (pc u).carries ele := by
    by_cases h : u = t
    · subst u; simpa using carries
    · simp [h]
  constructor
  · exact track.queued
  · simpa only [same] using track.carried
  · exact track.returned
  · exact track.once
  · intro u x hx
    by_cases h : u = t
    · rw [h, Function.update_self] at hx
      exact track.filled t x (filled x hx)
    · exact track.filled u x (by simpa [h] using hx)
  · simpa only [same] using track.complete
  · exact track.numbered
  · exact track.distinct

/-- The element is stored in a node that no other thread reads. -/
theorem store (track : Track ele pc queue pushed popped spot) (at_ : pc t = .setEle o x)
    (outside : x ∉ queue) (others : ∀ u, u ≠ t → (pc u).owned ≠ some x) :
    Track (Function.update ele x (some o)) (Function.update pc t (.clearNext .pushTail x))
      queue pushed popped spot := by
  have same (u : T) : (Function.update pc t (.clearNext .pushTail x) u).carries
      (Function.update ele x (some o)) = (pc u).carries ele := by
    by_cases h : u = t
    · subst u; simp [at_, Pc.carries]
    · rw [Function.update_of_ne h]
      apply Pc.carries_congr
      intro y owned
      have : y ≠ x := by
        rintro rfl
        exact others u h owned
      simp [this]
  have kept : ∀ y ∈ queue, Function.update ele x (some o) y = ele y := by
    intro y hy
    have : y ≠ x := by
      rintro rfl
      exact outside hy
    simp [this]
  constructor
  · intro y hy
    simpa only [kept y hy] using track.queued y hy
  · simpa only [same] using track.carried
  · exact track.returned
  · exact track.once
  · intro u y filled
    by_cases h : y = x
    · subst y; exact ⟨o, by simp⟩
    · have hu : u ≠ t := by
        rintro rfl
        simp only [Function.update_self, Pc.filled, Option.some.injEq] at filled
        exact h filled.symm
      simpa [h] using track.filled u y (by simpa [hu] using filled)
  · intro p hp
    have := track.complete p hp
    cases at_ : spot p with
    | node y =>
      simp only [at_] at this
      exact ⟨this.1, (kept y this.1).trans this.2⟩
    | thread u =>
      simp only [at_] at this
      exact (same u).trans this
    | popped => simpa only [at_] using this
  · exact track.numbered
  · exact track.distinct

/-- A node leaves the queue, and its element passes to the thread that took it. -/
theorem take (track : Track ele pc (x :: queue) pushed popped spot) {p : Pc E}
    (empty : (pc t).carries ele = none) (carries : p.carries ele = ele x) (filled : p.filled = none)
    (fresh : x ∉ queue) :
    ∃ spot', Track ele (Function.update pc t p) queue pushed popped spot' := by
  obtain ⟨o, holds, known, placed⟩ := track.queued x (by simp)
  classical
  refine ⟨fun q => if q = o then .thread t else spot q, ?_⟩
  constructor
  · intro y hy
    obtain ⟨q, holdsY, knownQ, placedQ⟩ := track.queued y (List.mem_cons_of_mem _ hy)
    refine ⟨q, holdsY, knownQ, ?_⟩
    have apart : y ≠ x := by
      rintro rfl
      exact fresh hy
    simpa [moved placed placedQ (by simp [apart])] using placedQ
  · intro u q hq
    by_cases h : u = t
    · subst u
      rw [Function.update_self, carries, holds] at hq
      obtain rfl := Option.some.inj hq
      exact ⟨known, by simp⟩
    · rw [Function.update_of_ne h] at hq
      obtain ⟨knownQ, placedQ⟩ := track.carried u q hq
      refine ⟨knownQ, ?_⟩
      simpa [moved placed placedQ (by simp)] using placedQ
  · intro q hq
    obtain ⟨knownQ, placedQ⟩ := track.returned q hq
    refine ⟨knownQ, ?_⟩
    simpa [moved placed placedQ (by simp)] using placedQ
  · exact track.once
  · intro u y hy
    by_cases h : u = t
    · subst u; simp [filled] at hy
    · exact track.filled u y (by simpa [h] using hy)
  · intro q hq
    by_cases h : q = o
    · subst q
      simp [carries, holds]
    · simp only [h, if_false]
      have := track.complete q hq
      cases at_ : spot q with
      | node y =>
        simp only [at_, List.mem_cons] at this
        obtain ⟨member, holdsY⟩ := this
        refine ⟨member.resolve_left ?_, holdsY⟩
        rintro rfl
        exact h (Option.some.inj (holdsY.symm.trans holds))
      | thread u =>
        simp only [at_] at this
        have : u ≠ t := by
          rintro rfl
          simp [empty] at this
        simpa [this]
      | popped => simpa only [at_] using this
  · exact track.numbered
  · exact track.distinct

/-- A filled node joins the queue, and its thread no longer carries the element. -/
theorem give (track : Track ele pc queue pushed popped spot) {p : Pc E}
    (carries : (pc t).carries ele = ele x) (filled : (pc t).filled = some x)
    (empty : p.carries ele = none) (unfilled : p.filled = none) {queue' : List Node}
    (joined : ∀ y, y ∈ queue' ↔ y = x ∨ y ∈ queue) (fresh : x ∉ queue) :
    ∃ spot', Track ele (Function.update pc t p) queue' pushed popped spot' := by
  obtain ⟨o, holds⟩ := track.filled t x filled
  obtain ⟨known, placed⟩ := track.carried t o (carries.trans holds)
  classical
  refine ⟨fun q => if q = o then .node x else spot q, ?_⟩
  constructor
  · intro y hy
    rcases (joined y).mp hy with rfl | old
    · exact ⟨o, holds, known, by simp⟩
    · obtain ⟨q, holdsY, knownQ, placedQ⟩ := track.queued y old
      refine ⟨q, holdsY, knownQ, ?_⟩
      simpa [moved placed placedQ (by simp)] using placedQ
  · intro u q hq
    by_cases h : u = t
    · subst u; simp [empty] at hq
    · rw [Function.update_of_ne h] at hq
      obtain ⟨knownQ, placedQ⟩ := track.carried u q hq
      refine ⟨knownQ, ?_⟩
      simpa [moved placed placedQ (by simp [h])] using placedQ
  · intro q hq
    obtain ⟨knownQ, placedQ⟩ := track.returned q hq
    refine ⟨knownQ, ?_⟩
    simpa [moved placed placedQ (by simp)] using placedQ
  · exact track.once
  · intro u y hy
    by_cases h : u = t
    · subst u; simp [unfilled] at hy
    · exact track.filled u y (by simpa [h] using hy)
  · intro q hq
    by_cases h : q = o
    · subst q
      simpa using ⟨(joined x).mpr (.inl rfl), holds⟩
    · simp only [h, if_false]
      have := track.complete q hq
      cases at_ : spot q with
      | node y =>
        simp only [at_] at this
        exact ⟨(joined y).mpr (.inr this.1), this.2⟩
      | thread u =>
        simp only [at_] at this
        have different : u ≠ t := by
          rintro rfl
          exact h (Option.some.inj (this.symm.trans (carries.trans holds)))
        simpa [different] using this
      | popped => simpa only [at_] using this
  · exact track.numbered
  · exact track.distinct

/-- A PopHead call returns the element in its hands. -/
theorem return_ (track : Track ele pc queue pushed popped spot)
    (carries : (pc t).carries ele = some o) :
    ∃ spot', Track ele (Function.update pc t .idle) queue pushed (popped ++ [o]) spot' := by
  obtain ⟨known, placed⟩ := track.carried t o carries
  classical
  refine ⟨fun q => if q = o then .popped else spot q, ?_⟩
  constructor
  · intro y hy
    obtain ⟨q, holdsY, knownQ, placedQ⟩ := track.queued y hy
    refine ⟨q, holdsY, knownQ, ?_⟩
    simpa [moved placed placedQ (by simp)] using placedQ
  · intro u q hq
    by_cases h : u = t
    · subst u; simp [Pc.carries] at hq
    · rw [Function.update_of_ne h] at hq
      obtain ⟨knownQ, placedQ⟩ := track.carried u q hq
      refine ⟨knownQ, ?_⟩
      simpa [moved placed placedQ (by simp [h])] using placedQ
  · intro q hq
    by_cases h : q = o
    · subst q; exact ⟨known, by simp⟩
    · have old : q ∈ popped := by simpa [h] using hq
      obtain ⟨knownQ, placedQ⟩ := track.returned q old
      exact ⟨knownQ, by simpa [h] using placedQ⟩
  · refine track.once.append (List.nodup_singleton o) ?_
    intro q hq single
    obtain rfl := List.mem_singleton.mp single
    have := (track.returned q hq).2.symm.trans placed
    contradiction
  · intro u y hy
    by_cases h : u = t
    · subst u; simp [Pc.filled] at hy
    · exact track.filled u y (by simpa [h] using hy)
  · intro q hq
    by_cases h : q = o
    · subst q; simp
    · simp only [h, if_false]
      have := track.complete q hq
      cases at_ : spot q with
      | node y => simpa only [at_] using this
      | thread u =>
        simp only [at_] at this
        have different : u ≠ t := by
          rintro rfl
          exact h (Option.some.inj (this.symm.trans carries))
        simpa [different] using this
      | popped =>
        simp only [at_] at this
        exact List.mem_append_left _ this
  · exact track.numbered
  · exact track.distinct

/-- A PushTail call starts with a new occurrence in its hands. -/
theorem start (track : Track ele pc queue pushed popped spot) (idle : pc t = .idle) (e : E) :
    ∃ spot', Track ele (Function.update pc t (.popReadTail (.pushTail ⟨pushed.length, e⟩))) queue
      (pushed ++ [⟨pushed.length, e⟩]) popped spot' := by
  set o : Occurrence E := ⟨pushed.length, e⟩
  have fresh : ∀ q ∈ pushed, q ≠ o := by
    rintro q hq rfl
    have := track.numbered _ hq
    simp [o] at this
  classical
  refine ⟨fun q => if q = o then .thread t else spot q, ?_⟩
  constructor
  · intro y hy
    obtain ⟨q, holdsY, knownQ, placedQ⟩ := track.queued y hy
    exact ⟨q, holdsY, List.mem_append_left _ knownQ, by simpa [fresh q knownQ] using placedQ⟩
  · intro u q hq
    by_cases h : u = t
    · subst u
      obtain rfl : o = q := by simpa [Pc.carries, PopCall.carries] using hq
      exact ⟨by simp, by simp⟩
    · rw [Function.update_of_ne h] at hq
      obtain ⟨knownQ, placedQ⟩ := track.carried u q hq
      exact ⟨List.mem_append_left _ knownQ, by simpa [fresh q knownQ] using placedQ⟩
  · intro q hq
    obtain ⟨knownQ, placedQ⟩ := track.returned q hq
    exact ⟨List.mem_append_left _ knownQ, by simpa [fresh q knownQ] using placedQ⟩
  · exact track.once
  · intro u y hy
    by_cases h : u = t
    · subst u; simp [Pc.filled] at hy
    · exact track.filled u y (by simpa [h] using hy)
  · intro q hq
    rcases List.mem_append.mp hq with old | new
    · simp only [fresh q old, if_false]
      have := track.complete q old
      cases at_ : spot q with
      | node y => simpa only [at_] using this
      | thread u =>
        simp only [at_] at this
        have different : u ≠ t := by
          rintro rfl
          simp [idle, Pc.carries] at this
        simpa [different] using this
      | popped => simpa only [at_] using this
    · obtain rfl := List.mem_singleton.mp new
      simp [Pc.carries, PopCall.carries]
  · intro q hq
    rcases List.mem_append.mp hq with old | new
    · have := track.numbered q old
      simp only [List.length_append, List.length_singleton]
      omega
    · obtain rfl := List.mem_singleton.mp new
      simp [o]
  · refine track.distinct.append (List.nodup_singleton o) ?_
    intro q hq single
    exact fresh q hq (List.mem_singleton.mp single)

end Track
end TestIOCP.NoLockBiList
