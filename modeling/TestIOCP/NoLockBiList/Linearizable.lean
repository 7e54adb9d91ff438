import TestIOCP.NoLockBiList.Safety
import TestIOCP.History

/-! The list as a concurrent queue. Each call takes effect with one of its accesses: with
the compare-exchange that takes a node or that adds one to the element chain, with the write
of ptail that makes the first node visible, or with the read of a null ptail. -/
namespace TestIOCP.NoLockBiList
open Transition

inductive Operation (E : Type) where
  | pushTail (o : Occurrence E)
  | popHead
  deriving DecidableEq, Repr

/-- PushTail returns true, PopHead an element or NULL. -/
inductive Result (E : Type) where
  | pushed
  | popped (pele : Option (Occurrence E))
  deriving DecidableEq, Repr

/-- A queue, first in first out. -/
def queue (E : Type) : Object (List (Occurrence E)) (Operation E) (Result E) where
  start := []
  apply contents
    | .pushTail o => (contents ++ [o], .pushed)
    | .popHead => (contents.tail, .popped contents.head?)

/-- What a call returns with its last access. -/
def Pc.result : Pc E → Option (Result E)
  | .popReadHead .popHead none => some (.popped none)
  | .countEle .pushTail => some .pushed
  | .countEle (.popHead pele) => some (.popped pele)
  | _ => none

variable {T E : Type} [DecidableEq T]

def shows (s : State T E) : Act T E → List (Interaction T (Operation E) (Result E))
  | .pushTail t e => [.call t (.pushTail ⟨s.pushed.length, e⟩)]
  | .popHead t => [.call t .popHead]
  | .step t => ((s.pc t).result.map (Interaction.ret t)).toList

/-- The access with which a call takes effect. -/
def Pc.effective (m : Memory E) : Pc E → Bool
  | .popReadTail .popHead => m.ptail .ele = none
  | .popCasTail .popHead x => m.ptail .ele = some x
  | .popCasHead .popHead h _ => m.phead .ele = some h
  | .pushCasTail .pushTail _ q => m.ptail .ele = some q
  | .pushSetTail .pushTail _ => true
  | _ => false

/-- Where the call is, seen from outside. A PopHead call that has read a null ptail returns
NULL whatever it reads next. -/
def Pc.phase (ele : Node → Option (Occurrence E)) :
    Pc E → Option (Object.Phase (Operation E) (Result E))
  | .idle => some .idle
  | .popReadHead .popHead none => some (.done (.popped none))
  | .popReadTail .popHead | .popReadHead .popHead (some _) | .popReadNext .popHead _
  | .popCasTail .popHead _ | .popCasHead .popHead _ _ | .fault .popHead => some (.called .popHead)
  | .popClearHead .popHead x | .readEle x => (ele x).map fun o => .done (.popped (some o))
  | .popReadTail (.pushTail o) | .popReadHead (.pushTail o) _ | .popReadNext (.pushTail o) _
  | .popCasTail (.pushTail o) _ | .popCasHead (.pushTail o) _ _ | .popClearHead (.pushTail o) _
  | .fault (.pushTail o) | .newNode o | .countNode o _ | .setEle o _ =>
    some (.called (.pushTail o))
  | .clearNext .pushTail x | .pushReadTail .pushTail x | .pushCasHead .pushTail x
  | .pushCasTail .pushTail x _ | .pushSetTail .pushTail x =>
    (ele x).map fun o => .called (.pushTail o)
  | .clearNext (.popHead pele) _ | .pushReadTail (.popHead pele) _ | .pushCasHead (.popHead pele) _
  | .pushCasTail (.popHead pele) _ _ | .pushSetTail (.popHead pele) _
  | .pushSetNext (.popHead pele) _ _ | .countEle (.popHead pele) => some (.done (.popped pele))
  | .pushSetNext .pushTail _ _ | .countEle .pushTail => some (.done .pushed)

/-- What the queue holds for the calls that take effect: nothing while ptail is null. -/
def Contents (m : Memory E) (nodes : List Node) (contents : List (Occurrence E)) : Prop :=
  if m.ptail .ele = none then contents = [] else nodes.map m.ele = contents.map some

theorem Contents.congr {m m' : Memory E} {nodes : List Node} {contents : List (Occurrence E)}
    (holds : Contents m nodes contents) (ptail : m'.ptail .ele = m.ptail .ele)
    (ele : ∀ x ∈ nodes, m'.ele x = m.ele x) : Contents m' nodes contents := by
  rw [Contents, ptail, List.map_congr_left ele]
  exact holds

theorem Contents.empty {m : Memory E} {nodes : List Node} (none_ : m.ptail .ele = none) :
    Contents m nodes [] :=
  (if_pos none_).mpr rfl

theorem Contents.settled {m : Memory E} {nodes : List Node} {contents : List (Occurrence E)}
    (holds : Contents m nodes contents) (some_ : m.ptail .ele ≠ none) :
    nodes.map m.ele = contents.map some := by
  rwa [Contents, if_neg some_] at holds

/-- A call that does not take effect with its access, nor return. -/
theorem phase_silent {m : Memory E} {p : Pc E} {phase : Object.Phase (Operation E) (Result E)}
    (known : p.phase m.ele = some phase) (silent : p.effective m = false)
    (goesOn : p.result = none) :
    (advance m p).2.phase (advance m p).1.ele = some phase := by
  cases p with
  | readEle x =>
    obtain ⟨o, stored, rfl⟩ := Option.map_eq_some_iff.mp known
    simp only [advance, stored]
    rfl
  | setEle o x => simpa [advance, Pc.phase] using known
  | idle | newNode o | countNode o x => exact known
  | popReadTail c =>
    cases c with
    | pushTail o => exact known
    | popHead =>
      obtain ⟨x, some_⟩ := Option.ne_none_iff_exists'.mp (of_decide_eq_false silent)
      rw [advance, PopCall.chain, some_]
      exact known
  | popReadHead c ptailnode =>
    cases c with
    | popHead =>
      cases ptailnode with
      | none => cases goesOn
      | some q =>
        simp only [advance]
        split <;> exact known
    | pushTail o =>
      simp only [advance]
      split
      · exact known
      · split <;> exact known
  | popReadNext c pheadnode =>
    cases pheadnode with
    | none => cases c <;> exact known
    | some h =>
      simp only [advance]
      split <;> cases c <;> exact known
  | popCasTail c x =>
    cases c with
    | popHead =>
      rw [show advance m (.popCasTail .popHead x) = (m, .popReadTail .popHead) from
        if_neg (of_decide_eq_false silent)]
      exact known
    | pushTail o =>
      simp only [advance]
      split <;> exact known
  | popCasHead c h n =>
    cases c with
    | popHead =>
      rw [show advance m (.popCasHead .popHead h n) = (m, .popReadTail .popHead) from
        if_neg (of_decide_eq_false silent)]
      exact known
    | pushTail o =>
      simp only [advance]
      split <;> exact known
  | popClearHead c x | clearNext c x | pushSetNext c x q | fault c => cases c <;> exact known
  | pushReadTail c x | pushCasHead c x =>
    simp only [advance]
    split <;> cases c <;> exact known
  | pushCasTail c x q =>
    cases c with
    | pushTail =>
      rw [show advance m (.pushCasTail .pushTail x q) = (m, .pushReadTail .pushTail x) from
        if_neg (of_decide_eq_false silent)]
      exact known
    | popHead pele =>
      simp only [advance]
      split <;> exact known
  | pushSetTail c x =>
    cases c with
    | pushTail => cases silent
    | popHead pele => exact known
  | countEle c => cases c <;> cases goesOn

theorem ptail_silent {m : Memory E} {p : Pc E} (silent : p.effective m = false) :
    (advance m p).1.ptail .ele = m.ptail .ele := by
  cases p with
  | popCasTail c x =>
    cases c with
    | popHead => rw [show advance m (.popCasTail .popHead x) = (m, .popReadTail .popHead) from
        if_neg (of_decide_eq_false silent)]
    | pushTail o =>
      simp only [advance]
      split
      · exact Function.update_of_ne (by decide : Chain.ele ≠ Chain.null) none _
      · rfl
  | pushCasTail c x q =>
    cases c with
    | pushTail =>
      rw [show advance m (.pushCasTail .pushTail x q) = (m, .pushReadTail .pushTail x) from
        if_neg (of_decide_eq_false silent)]
    | popHead pele =>
      simp only [advance]
      split
      · exact Function.update_of_ne (by decide : Chain.ele ≠ Chain.null) (some x) _
      · rfl
  | pushSetTail c x =>
    cases c with
    | pushTail => cases silent
    | popHead pele => exact Function.update_of_ne (by decide : Chain.ele ≠ Chain.null) (some x) _
  | popReadHead c ptailnode | popCasHead c h n | pushReadTail c x | pushCasHead c x =>
    simp only [advance]
    split
    · rfl
    · first | rfl | (split <;> rfl)
  | popReadNext c pheadnode =>
    cases pheadnode with
    | none => rfl
    | some h =>
      simp only [advance]
      split <;> rfl
  | countEle c => cases c <;> rfl
  | _ => rfl

/-- Elements are written by PushTail only. -/
theorem ele_advance {m : Memory E} {p : Pc E} :
    (advance m p).1.ele = m.ele ∨ ∃ o x, p = .setEle o x := by
  cases p with
  | setEle o x => exact .inr ⟨o, x, rfl⟩
  | popReadNext c pheadnode =>
    cases pheadnode with
    | none => exact .inl rfl
    | some h =>
      simp only [advance]
      split <;> exact .inl rfl
  | countEle c => cases c <;> exact .inl rfl
  | _ =>
    refine .inl ?_
    simp only [advance]
    repeat' split
    all_goals rfl

/-- Only the first node enters the chain before it is visible. -/
theorem chainAfter_silent {m : Memory E} {p : Pc E} (nodes : List Node)
    (silent : p.effective m = false) :
    p.chainAfter m nodes = nodes ∨ ∃ x, p = .pushCasHead .pushTail x ∧ m.phead .ele = none := by
  cases p with
  | popCasTail c x =>
    cases c with
    | popHead => exact .inl (if_neg (of_decide_eq_false silent))
    | pushTail o => exact .inl rfl
  | popCasHead c h n =>
    cases c with
    | popHead => exact .inl (if_neg (of_decide_eq_false silent))
    | pushTail o => exact .inl rfl
  | pushCasTail c x q =>
    cases c with
    | pushTail => exact .inl (if_neg (of_decide_eq_false silent))
    | popHead pele => exact .inl rfl
  | pushCasHead c x =>
    cases c with
    | pushTail =>
      by_cases head : m.phead .ele = none
      · exact .inr ⟨x, rfl, head⟩
      · exact .inl (if_neg head)
    | popHead pele => exact .inl rfl
  | _ => exact .inl rfl

namespace Invariant
variable {m m' : Memory E} {pc : T → Pc E} {pushed popped : List (Occurrence E)}
  {L : Chain → List Node} {place : Node → Place T} {spot : Occurrence E → Spot T} {t : T}

omit [DecidableEq T] in
/-- The node whose element PushTail writes is not in the chain. -/
theorem apart_owned (inv : Invariant ⟨m, pc, pushed, popped⟩ L place spot)
    (owned : (pc t).owned = some x) {c : Chain} {y : Node} (inside : y ∈ L c) : y ≠ x := by
  rintro rfl
  have := (inv.shape.member c y inside).2.symm.trans (inv.shape.owner t y owned).2
  contradiction

omit [DecidableEq T] in
theorem contents_silent (inv : Invariant ⟨m, pc, pushed, popped⟩ L place spot) (t : T)
    (silent : (pc t).effective m = false) {contents : List (Occurrence E)}
    (holds : Contents m (L .ele) contents) :
    Contents (advance m (pc t)).1 ((pc t).chainAfter m (L .ele)) contents := by
  have ptail := ptail_silent silent
  rcases chainAfter_silent (L .ele) silent with same | ⟨x, at_, head⟩
  · rw [same]
    refine holds.congr ptail fun y inside => ?_
    rcases ele_advance (m := m) (p := pc t) with ele | ⟨o, x, at_⟩
    · rw [ele]
    · have apart := inv.apart_owned (t := t) (x := x) (by simp [at_, Pc.owned]) inside
      rw [at_]
      exact Function.update_of_ne apart _ _
  · -- ptail stays null until the thread writes it
    have none_ : m.ptail .ele = none := by
      rcases inv.shape.ends .ele with ⟨first, last⟩ | ⟨none_, -⟩
      · rw [last, List.head?_eq_none_iff.mp (first.symm.trans head)]
        rfl
      · exact none_
    rw [Contents, if_pos none_] at holds
    rw [holds]
    exact Contents.empty (ptail.trans none_)

omit [DecidableEq T] in
theorem elements (inv : Invariant ⟨m, pc, pushed, popped⟩ L place spot)
    (inside : x ∈ L .ele) : ∃ o, m.ele x = some o := by
  obtain ⟨o, stored, -⟩ := inv.track.queued x inside
  exact ⟨o, stored⟩

omit [DecidableEq T] in
/-- A chain with two nodes is visible. -/
theorem visible (inv : Invariant ⟨m, pc, pushed, popped⟩ L place spot)
    (two : L .ele = h :: n :: rest) : m.ptail .ele ≠ none := by
  rcases inv.shape.ends .ele with ⟨-, last⟩ | ⟨-, u, ending⟩
  · rw [last, two]
    simp
  · obtain ⟨_, _, _, _, short | short⟩ := inv.shape.ending_holds ending <;> simp [two] at short

theorem serves_popCasTail (inv : Invariant ⟨m, pc, pushed, popped⟩ L place spot)
    (at_ : pc t = .popCasTail .popHead x) (tail : m.ptail .ele = some x)
    (head : m.phead .ele = some x) {contents : List (Occurrence E)}
    (holds : Contents m (L .ele) contents) :
    ∃ o, m.ele x = some o ∧ contents = [o] := by
  obtain ⟨single, -⟩ := inv.shape.popCasTail at_ tail head
  have elements := holds.settled (by simp [tail])
  rw [show L .ele = [x] from single] at elements
  cases contents with
  | nil => cases elements
  | cons o later =>
    obtain ⟨stored, none_⟩ := List.cons.inj elements
    exact ⟨o, stored, by rw [List.map_eq_nil_iff.mp none_.symm]⟩

theorem serves_popCasHead (inv : Invariant ⟨m, pc, pushed, popped⟩ L place spot)
    (at_ : pc t = .popCasHead .popHead h n) (head : m.phead .ele = some h)
    (next : m.pnext h = some n) {contents : List (Occurrence E)}
    (holds : Contents m (L .ele) contents) :
    m.ptail .ele ≠ none ∧ ∃ o later, m.ele h = some o ∧ contents = o :: later ∧
      (L .ele).tail.map m.ele = later.map some := by
  obtain ⟨rest, two, -⟩ := inv.shape.popCasHead at_ head next
  have two : L .ele = h :: n :: rest := two
  have some_ := inv.visible two
  have elements := holds.settled some_
  rw [two] at elements ⊢
  cases contents with
  | nil => cases elements
  | cons o later =>
    obtain ⟨stored, same⟩ := List.cons.inj elements
    exact ⟨some_, o, later, stored, rfl, same⟩

/-- What the access with which a call takes effect does: it serves the call as the queue
does. -/
theorem serves (inv : Invariant ⟨m, pc, pushed, popped⟩ L place spot) (t : T)
    (intact : Intact m (pc t)) (effective : (pc t).effective m = true)
    {phase : Object.Phase (Operation E) (Result E)} (known : (pc t).phase m.ele = some phase)
    {contents : List (Occurrence E)} (holds : Contents m (L .ele) contents) :
    ∃ op, phase = .called op ∧
      Contents (advance m (pc t)).1 ((pc t).chainAfter m (L .ele))
        ((queue E).apply contents op).1 ∧
      (advance m (pc t)).2.phase (advance m (pc t)).1.ele =
        some (.done ((queue E).apply contents op).2) := by
  have there : (pc t).Holds m L := inv.shape.holds t
  cases at_ : pc t with
  | popReadTail c =>
    cases c with
    | pushTail o => simp [at_, Pc.effective] at effective
    | popHead =>
      rw [at_] at known effective
      have none_ : m.ptail .ele = none := of_decide_eq_true effective
      obtain rfl : contents = [] := by rwa [Contents, if_pos none_] at holds
      refine ⟨.popHead, (Option.some.inj known).symm, Contents.empty none_, ?_⟩
      rw [advance, PopCall.chain, none_]
      rfl
  | popCasTail c x =>
    cases c with
    | pushTail o => simp [at_, Pc.effective] at effective
    | popHead =>
      rw [at_] at known effective intact
      have tail : m.ptail .ele = some x := of_decide_eq_true effective
      obtain ⟨o, stored, rfl⟩ := inv.serves_popCasTail at_ tail (intact tail) holds
      refine ⟨.popHead, (Option.some.inj known).symm, ?_, ?_⟩
      all_goals
        rw [show advance m (.popCasTail .popHead x) = ({ m with
          ptail := Function.update m.ptail .ele none }, .popClearHead .popHead x) from if_pos tail]
      · exact Contents.empty (Function.update_self Chain.ele none m.ptail)
      · simp only [Pc.phase, stored]
        rfl
  | popCasHead c h n =>
    cases c with
    | pushTail o => simp [at_, Pc.effective] at effective
    | popHead =>
      rw [at_] at known effective intact
      have head : m.phead .ele = some h := of_decide_eq_true effective
      obtain ⟨some_, o, later, stored, rfl, same⟩ :=
        inv.serves_popCasHead at_ head (intact head) holds
      refine ⟨.popHead, (Option.some.inj known).symm, ?_, ?_⟩
      all_goals
        rw [show advance m (.popCasHead .popHead h n) = ({ m with
          phead := Function.update m.phead .ele (some n) }, .readEle h) from if_pos head]
      · rw [show (Pc.popCasHead .popHead h n).chainAfter m (L .ele) = (L .ele).tail from
          if_pos head]
        exact (if_neg some_).mpr same
      · simp only [Pc.phase, stored]
        rfl
  | pushCasTail c x q =>
    cases c with
    | popHead pele => simp [at_, Pc.effective] at effective
    | pushTail =>
      rw [at_] at known effective
      have tail : m.ptail .ele = some q := of_decide_eq_true effective
      obtain ⟨o, stored, rfl⟩ := Option.map_eq_some_iff.mp known
      refine ⟨.pushTail o, rfl, ?_, ?_⟩
      all_goals
        rw [show advance m (.pushCasTail .pushTail x q) = ({ m with
          ptail := Function.update m.ptail .ele (some x) }, .pushSetNext .pushTail x q) from
            if_pos tail]
      · rw [show (Pc.pushCasTail .pushTail x q).chainAfter m (L .ele) = L .ele ++ [x] from
          if_pos tail]
        refine (if_neg (by simp)).mpr ?_
        simp [queue, holds.settled (by simp [tail]), stored]
      · rfl
  | pushSetTail c x =>
    cases c with
    | popHead pele => simp [at_, Pc.effective] at effective
    | pushTail =>
      rw [at_] at known there
      obtain ⟨single, -, none_⟩ := there
      have none_ : m.ptail .ele = none := none_
      obtain rfl : contents = [] := by rwa [Contents, if_pos none_] at holds
      obtain ⟨o, stored, rfl⟩ := Option.map_eq_some_iff.mp known
      refine ⟨.pushTail o, rfl, ?_, rfl⟩
      rw [show (Pc.pushSetTail .pushTail x).chainAfter m (L .ele) = [x] from single]
      refine (if_neg (by simp [advance, PushCall.chain])).mpr ?_
      simp [queue, advance, stored]
  | _ => simp [at_, Pc.effective] at effective

end Invariant

/-- A call that returns is one that has taken effect, with the result that it returns. -/
theorem phase_result {m : Memory E} {p : Pc E} {result : Result E}
    (returns : p.result = some result) :
    p.effective m = false ∧ p.phase m.ele = some (.done result) ∧ (advance m p).2 = .idle := by
  cases p with
  | popReadHead c ptailnode =>
    cases c with
    | pushTail o => cases returns
    | popHead =>
      cases ptailnode with
      | some q => cases returns
      | none =>
        cases returns
        exact ⟨rfl, rfl, rfl⟩
  | countEle c =>
    cases c
    all_goals
      cases returns
      exact ⟨rfl, rfl, rfl⟩
  | _ => cases returns

/-- The nodes that a call reads its element from are in the chain or belong to its thread. -/
theorem Pc.phase_congr {ele ele' : Node → Option (Occurrence E)} {p : Pc E}
    (owned : ∀ x, p.owned = some x → ele' x = ele x)
    (ending : ∀ c x, p = .pushSetTail c x → ele' x = ele x) : p.phase ele' = p.phase ele := by
  cases p with
  | popClearHead c x => cases c <;> simp [Pc.phase, owned x rfl]
  | readEle x => simp [Pc.phase, owned x rfl]
  | clearNext c x | pushReadTail c x | pushCasHead c x | pushCasTail c x q =>
    cases c <;> simp [Pc.phase, owned x rfl]
  | pushSetTail c x => cases c <;> simp [Pc.phase, ending _ x rfl]
  | popReadHead c ptailnode =>
    cases c with
    | pushTail o => rfl
    | popHead => cases ptailnode <;> rfl
  | popReadTail c | popReadNext c pheadnode | popCasTail c x | popCasHead c h n | fault c
  | pushSetNext c x q | countEle c => cases c <;> rfl
  | idle | newNode o | countNode o x | setEle o x => rfl

omit [DecidableEq T] in
theorem Invariant.phase_other {m : Memory E} {pc : T → Pc E} {pushed popped : List (Occurrence E)}
    {L : Chain → List Node} {place : Node → Place T} {spot : Occurrence E → Spot T}
    (inv : Invariant ⟨m, pc, pushed, popped⟩ L place spot) {t u : T} (other : u ≠ t) :
    (pc u).phase (advance m (pc t)).1.ele = (pc u).phase m.ele := by
  rcases ele_advance (m := m) (p := pc t) with same | ⟨o, x, at_⟩
  · rw [same]
  have written {y : Node} (apart : y ≠ x) : (advance m (pc t)).1.ele y = m.ele y := by
    rw [at_]
    exact Function.update_of_ne apart _ _
  have owned : (pc t).owned = some x := by simp [at_, Pc.owned]
  refine Pc.phase_congr (fun y owned' => written ?_) (fun c y ending => written ?_)
  · rintro rfl
    exact other (Place.thread.inj
      ((inv.shape.owner u y owned').2.symm.trans (inv.shape.owner t y owned).2))
  · have there : (pc u).Holds m L := inv.shape.holds u
    rw [ending] at there
    exact inv.apart_owned owned (c := c.chain) (by simp [there.1])

/-- The list in a state of the queue: what is visible are the contents, and each thread is
as far with its call. -/
def Related (s : State T E)
    (a : Object.State T (List (Occurrence E)) (Operation E) (Result E)) : Prop :=
  (∃ nodes, Queued s nodes ∧ Contents s.memory nodes a.object) ∧
    ∀ t, (s.pc t).phase s.memory.ele = some (a.phase t)

theorem phases_update {pc : T → Pc E} {ele ele' : Node → Option (Occurrence E)}
    {phase : T → Object.Phase (Operation E) (Result E)}
    (phases : ∀ u, (pc u).phase ele = some (phase u)) {t : T} {p : Pc E}
    {new : Object.Phase (Operation E) (Result E)} (own : p.phase ele' = some new)
    (others : ∀ u, u ≠ t → (pc u).phase ele' = (pc u).phase ele) (u : T) :
    (Function.update pc t p u).phase ele' = some (Function.update phase t new u) := by
  by_cases same : u = t
  · subst u
    simpa using own
  · rw [Function.update_of_ne same, Function.update_of_ne same, others u same]
    exact phases u

/-- Every step of the list under the condition is one of the queue, or not seen. -/
theorem simulates : (system T E).Simulates shows Unrecycled ((queue E).atomic T) Object.shows
    Related where
  initial s first := by
    refine ⟨⟨[], fun _ => .idle⟩, ⟨rfl, fun _ => rfl⟩, ⟨[], first.queued, ?_⟩, fun t => ?_⟩
    · exact Contents.empty (first.1 .ele).2
    · rw [first.2.2.2.2.1 t]
      rfl
  step s a l s' related unrecycled taken := by
    obtain ⟨m, pc, pushed, popped⟩ := s
    obtain ⟨⟨nodes, ⟨L, place, spot, inv, rfl⟩, contents⟩, phases⟩ := related
    have phases : ∀ u, (pc u).phase m.ele = some (a.phase u) := phases
    cases l with
    | pushTail t e =>
      simp only [system, next] at taken
      split at taken
      · rename_i at_
        cases taken
        have idle : a.phase t = .idle := by simpa [at_, Pc.phase] using (phases t).symm
        exact .inr ⟨.call t (.pushTail ⟨pushed.length, e⟩), _, Object.next_call idle _, rfl,
          ⟨L .ele, inv.callPushTail at_ e, contents⟩,
          phases_update phases rfl fun _ _ => rfl⟩
      · contradiction
    | popHead t =>
      simp only [system, next] at taken
      split at taken
      · rename_i at_
        cases taken
        have idle : a.phase t = .idle := by simpa [at_, Pc.phase] using (phases t).symm
        exact .inr ⟨.call t .popHead, _, Object.next_call idle _, rfl,
          ⟨L .ele, inv.callPopHead at_, contents⟩, phases_update phases rfl fun _ _ => rfl⟩
      · contradiction
    | step t =>
      simp only [system, next] at taken
      split at taken
      swap
      · contradiction
      cases taken
      have queued := inv.access t unrecycled
      have others : ∀ u, u ≠ t →
          (pc u).phase (advance m (pc t)).1.ele = (pc u).phase m.ele :=
        fun u other => inv.phase_other other
      cases returns : (pc t).result with
      | some result =>
        obtain ⟨silent, known, idle⟩ := phase_result returns
        have done : a.phase t = .done result := Option.some.inj ((phases t).symm.trans known)
        refine .inr ⟨.ret t, _, Object.next_ret done, ?_,
          ⟨_, queued, inv.contents_silent t silent contents⟩, ?_⟩
        · simp [shows, returns, Object.shows_ret done]
        · exact phases_update phases (by rw [idle]; rfl) others
      | none =>
        have unseen : shows ⟨m, pc, pushed, popped⟩ (.step t) = [] := by simp [shows, returns]
        cases effective : (pc t).effective m with
        | true =>
          obtain ⟨op, called, contents', done⟩ :=
            inv.serves t unrecycled effective (phases t) contents
          exact .inr ⟨.effect t, _, Object.next_effect called, unseen.symm, ⟨_, queued, contents'⟩,
            phases_update phases done others⟩
        | false =>
          refine .inl ⟨unseen, ⟨_, queued, inv.contents_silent t effective contents⟩, fun u => ?_⟩
          have kept := phases_update phases (phase_silent (phases t) effective returns) others u
          rwa [Function.update_eq_self] at kept

/-- The list is linearizable: as long as no compare-exchange succeeds on a recycled node,
its threads see what they could see of a queue that serves each call at one moment between
the call and its return. -/
theorem linearizable {history : List (Interaction T (Operation E) (Result E))} {s : State T E}
    (run : (system T E).Shows shows Unrecycled history s) : (queue E).Linearizes T history := by
  obtain ⟨a, ran, -⟩ := simulates.shows run
  exact ⟨a, ran⟩

/-- What two pushes at once and a pop and a push at once show. -/
def takingHistory : List (Interaction Bool (Operation Nat) (Result Nat)) :=
  [.call true (.pushTail ⟨0, 10⟩), .call false (.pushTail ⟨1, 20⟩), .ret true .pushed,
    .ret false .pushed, .call true .popHead, .call false (.pushTail ⟨2, 30⟩),
    .ret true (.popped (some ⟨0, 10⟩)), .ret false .pushed]

theorem taking_shows :
    ((system Bool Nat).runShows shows Unrecycled constructed taking).map Prod.snd =
      some takingHistory := by
  decide +kernel

theorem linearizable_taking : (queue Nat).Linearizes Bool takingHistory := by
  obtain ⟨⟨s, history⟩, ran, same⟩ := Option.map_eq_some_iff.mp taking_shows
  obtain rfl : history = takingHistory := same
  exact linearizable (System.runShows_shows (.initial constructed_initial) ran)

end TestIOCP.NoLockBiList
