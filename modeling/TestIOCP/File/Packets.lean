import TestIOCP.File.Rejected

/-! What a writer keeps of the packets that it gets, whatever fails: memory may be short,
WriteFile may reject a write, a write may complete with an error, and packets may come
before there is a file. -/
namespace TestIOCP.File
open Transition
open CString (Byte)
open Files

/-! ### Batches of packets -/

/-- The blocks that were written out, and what is cached behind them. -/
abbrev Stored := List (List Byte) × List Byte

/-- The cache is left alone, or written out, or lost. -/
inductive Turned (lost : Prop) : Stored → Stored → Prop where
  | stays (stored : Stored) : Turned lost stored stored
  | written (blocks : List (List Byte)) (cache : List Byte) :
    Turned lost (blocks, cache) (blocks ++ [cache], [])
  | lost (now : lost) (blocks : List (List Byte)) (cache : List Byte) :
    Turned lost (blocks, cache) (blocks, [])

theorem Turned.imp {lost lost' : Prop} {before after : Stored} (turned : Turned lost before after)
    (weaker : lost → lost') : Turned lost' before after := by
  cases turned with
  | stays => exact .stays _
  | written => exact .written _ _
  | lost now => exact .lost (weaker now) _ _

/-- The blocks and the cache are made of whole packets, in their order. -/
def Holds (stored : Stored) (packets : List (List Byte)) : Prop :=
  ∃ (batches : List (List (List Byte))) (last : List (List Byte)), 
    stored.1 = batches.map List.flatten ∧ stored.2 = last.flatten ∧
      batches.flatten ++ last = packets

theorem Holds.put {stored : Stored} {packets : List (List Byte)} (holds : Holds stored packets)
    (data : List Byte) : Holds (stored.1, stored.2 ++ data) (packets ++ [data]) := by
  obtain ⟨batches, last, blocks, cache, rfl⟩ := holds
  refine ⟨batches, last ++ [data], blocks, ?_, by rw [List.append_assoc]⟩
  rw [List.flatten_append, ← cache, List.flatten_singleton]

theorem Holds.turned {stored stored' : Stored} {packets : List (List Byte)} {lost : Prop}
    (holds : Holds stored packets) (turned : Turned lost stored stored') :
    ∃ packets', Holds stored' packets' ∧ packets'.Sublist packets ∧
      (¬ lost → packets' = packets) := by
  obtain ⟨batches, last, same, cache, rfl⟩ := holds
  cases turned with
  | stays => exact ⟨_, ⟨batches, last, same, cache, rfl⟩, .refl _, fun _ => rfl⟩
  | written blocks =>
    refine ⟨batches.flatten ++ last, ⟨batches ++ [last], [], ?_, rfl, ?_⟩, .refl _, fun _ => rfl⟩
    · rw [List.map_append, ← same, List.map_singleton, ← cache]
    · rw [List.flatten_append, List.flatten_singleton, List.append_nil]
  | lost now blocks =>
    exact ⟨batches.flatten, ⟨batches, [], same, rfl, List.append_nil _⟩,
      List.sublist_append_left _ _, fun not => absurd now not⟩

/-! ### The buffers -/

variable {W : Type} [DecidableEq W] {s s' : Files W} {w : W} {b : Buf} {bs : List Buf}
  {data : List Byte} {api : Api}

/-- Nobody shares a current buffer, and those of bs are in nobody else's hands. After a
rejected write bs has a buffer that is lost. -/
structure Loaned (s : Files W) (bs : List Buf) : Prop where
  kept : Kept s bs []
  mine : ∀ u b, current s u = some b → b ∈ bs
  apart : ∀ u v b, current s u = some b → current s v = some b → u = v
  sized : ∀ u, current s u ≠ none → (s.writers u).m_nCurSize ≤ WFILEBUFSIZE
  noted : ∀ f ∈ s.writing, f.contents.take f.size ∈ s.payloads f.writer

/-- What u wrote out and caches. -/
def stored (s : Files W) (u : W) : Stored :=
  (s.payloads u, cached s u)

/-- No writer but w is touched. -/
def Touched (s : Files W) (w : W) (s' : Files W) : Prop :=
  ∀ u, u ≠ w → s'.writers u = s.writers u ∧ stored s' u = stored s u

omit [DecidableEq W] in
theorem Touched.trans {s'' : Files W} (first : Touched s w s') (second : Touched s' w s'') :
    Touched s w s'' := fun u other =>
  ⟨(second u other).1.trans (first u other).1, (second u other).2.trans (first u other).2⟩

theorem touched_set (f : FileWriter → FileWriter) : Touched s w (s.set w f) := by
  intro u other
  have same := set_other (s := s) other f
  exact ⟨same, Prod.ext rfl (cached_congr (congrArg _ same) (congrArg _ same) fun _ _ => rfl)⟩

omit [DecidableEq W] in
theorem touched_aside (aside : Aside s s') : Touched s w s' := by
  intro u other
  have same := congrFun aside.writers u
  refine ⟨same, Prod.ext (congrFun aside.payloads u) ?_⟩
  exact cached_congr (congrArg _ same) (congrArg _ same) fun b _ => congrFun aside.memory b

namespace Loaned

/-- What has to be seen to when only w changes. -/
theorem of_touched (loaned : Loaned s bs) {bs' : List Buf} (touched : Touched s w s')
    (kept : Kept s' bs' [])
    (others : ∀ u b, u ≠ w → current s u = some b → b ∈ bs' ∧ current s' w ≠ some b)
    (mine : ∀ b, current s' w = some b → b ∈ bs')
    (sized : current s' w ≠ none → (s'.writers w).m_nCurSize ≤ WFILEBUFSIZE)
    (noted : ∀ f ∈ s'.writing, f.contents.take f.size ∈ s'.payloads f.writer) :
    Loaned s' bs' := by
  have same {u : W} (other : u ≠ w) : current s' u = current s u :=
    congrArg FileWriter.m_pCurBuf (touched u other).1
  refine ⟨kept, fun u b cur => ?_, fun u v b cur cur' => ?_, fun u some_ => ?_, noted⟩
  · by_cases this : u = w
    · exact mine b (this ▸ cur)
    · rw [same this] at cur
      exact (others u b this cur).1
  · by_cases this : u = w
    · by_cases that : v = w
      · exact this.trans that.symm
      · rw [same that] at cur'
        exact absurd (this ▸ cur) (others v b that cur').2
    · rw [same this] at cur
      by_cases that : v = w
      · exact absurd (that ▸ cur') (others u b this cur).2
      · rw [same that] at cur'
        exact loaned.apart u v b cur cur'
  · by_cases this : u = w
    · rw [this] at some_ ⊢
      exact sized some_
    · rw [same this] at some_
      rw [(touched u this).1]
      exact loaned.sized u some_

omit [DecidableEq W] in
/-- Only the lists change. -/
theorem only_lists (loaned : Loaned s bs) (aside : Aside s s') (kept : Kept s' bs []) :
    Loaned s' bs := by
  have same := current_aside aside
  refine ⟨kept, ?_, ?_, ?_, ?_⟩
  · rw [same]
    exact loaned.mine
  · rw [same]
    exact loaned.apart
  · rw [same, aside.writers]
    exact loaned.sized
  · rw [aside.writing, aside.payloads]
    exact loaned.noted

/-- Fields of w are written that say nothing of its buffer. -/
theorem keeps (loaned : Loaned s bs) {f : FileWriter → FileWriter}
    (buf : ∀ o, (f o).m_pCurBuf = o.m_pCurBuf ∧ (f o).m_nCurSize = o.m_nCurSize) :
    Loaned (s.set w f) bs ∧ stored (s.set w f) w = stored s w := by
  have cur : current (s.set w f) w = current s w := by rw [current, set_self, (buf _).1]; rfl
  have size : ((s.set w f).writers w).m_nCurSize = (s.writers w).m_nCurSize := by
    rw [set_self, (buf _).2]
  refine ⟨loaned.of_touched (touched_set f) (loaned.kept.congr ⟨rfl, rfl⟩ ⟨rfl, rfl, rfl⟩ rfl rfl)
    (fun u b other at_ => ⟨loaned.mine u b at_, fun at' => ?_⟩)
    (fun b at_ => loaned.mine w b (cur ▸ at_)) ?_ loaned.noted,
    Prod.ext rfl (cached_congr cur size fun _ _ => rfl)⟩
  · rw [cur] at at'
    exact other (loaned.apart u w b at_ at')
  · rw [cur, size]
    exact loaned.sized w

/-- The current buffer of w is forgotten. It may be lost. -/
theorem clears (loaned : Loaned s bs) (size : Nat → Nat) :
    Loaned (s.set w fun o => { o with m_pCurBuf := none, m_nCurSize := size o.m_nCurSize }) bs ∧
      stored (s.set w fun o => { o with m_pCurBuf := none, m_nCurSize := size o.m_nCurSize }) w =
        ((stored s w).1, []) := by
  have none_ : current (s.set w fun o =>
      { o with m_pCurBuf := none, m_nCurSize := size o.m_nCurSize }) w = none := by
    rw [current, set_self]
  refine ⟨loaned.of_touched (touched_set _) (loaned.kept.congr ⟨rfl, rfl⟩ ⟨rfl, rfl, rfl⟩ rfl rfl)
    (fun u b other at_ => ⟨loaned.mine u b at_, ?_⟩) ?_ ?_ loaned.noted, Prod.ext rfl ?_⟩
  · simp [none_]
  · simp [none_]
  · simp [none_]
  · simp [stored, cached]

/-- The writer takes a buffer, if there is one. -/
theorem takes (loaned : Loaned s bs) (available : Bool) :
    (∃ s' b bs', s.takeBuf available = (s', some b) ∧
      Loaned (s'.set w fun o => { o with m_pCurBuf := some b, m_nCurSize := 0 }) bs' ∧
      Touched s w (s'.set w fun o => { o with m_pCurBuf := some b, m_nCurSize := 0 }) ∧
      stored (s'.set w fun o => { o with m_pCurBuf := some b, m_nCurSize := 0 }) w =
        ((stored s w).1, [])) ∨
      s.takeBuf available = (s, none) := by
  rcases loaned.kept.takesBuf available with ⟨s', b, took, kept, fresh, aside⟩ | none_
  · have touched := (touched_aside (w := w) aside).trans
      (touched_set fun o => { o with m_pCurBuf := some b, m_nCurSize := 0 })
    have cur : current (s'.set w fun o => { o with m_pCurBuf := some b, m_nCurSize := 0 }) w =
        some b := by rw [current, set_self]
    refine .inl ⟨s', b, b :: bs, took, ?_, touched, Prod.ext (congrFun aside.payloads w) ?_⟩
    · refine loaned.of_touched touched (kept.congr ⟨rfl, rfl⟩ ⟨rfl, rfl, rfl⟩ rfl rfl)
        (fun u b' other at_ => ⟨List.mem_cons_of_mem b (loaned.mine u b' at_), ?_⟩) ?_ ?_ ?_
      · rw [cur, ne_eq, Option.some.injEq]
        rintro rfl
        exact fresh (loaned.mine u b at_)
      · rw [cur]
        rintro b' same
        exact Option.some.inj same ▸ List.mem_cons_self
      · simp
      · show ∀ f ∈ s'.writing, f.contents.take f.size ∈ s'.payloads f.writer
        rw [aside.writing, aside.payloads]
        exact loaned.noted
    · simp [stored, cached]
  · exact .inr none_

/-- The packet is copied behind what the current buffer holds. -/
theorem appends (loaned : Loaned s bs) (cur : current s w = some b)
    (fits : (s.writers w).m_nCurSize + data.length ≤ WFILEBUFSIZE) :
    Loaned (append s w data) bs ∧ Touched s w (append s w data) ∧
      stored (append s w data) w = ((stored s w).1, (stored s w).2 ++ data) := by
  have mine := loaned.mine w b cur
  have sized := loaned.kept.sized b
  have appended : append s w data =
      { s with
        memory :=
          Function.update s.memory b (store (s.memory b) (s.writers w).m_nCurSize data) }.set w
        fun o => { o with m_nCurSize := o.m_nCurSize + data.length } := by
    rw [current] at cur
    simp only [append, cur]
  have same : current (append s w data) w = some b := by
    rw [appended, current, set_self]
    exact cur
  have touched : Touched s w (append s w data) := by
    intro u other
    rw [appended]
    have writer := set_other (s := { s with
      memory := Function.update s.memory b (store (s.memory b) (s.writers w).m_nCurSize data) })
      other fun o => { o with m_nCurSize := o.m_nCurSize + data.length }
    refine ⟨writer, Prod.ext rfl (cached_congr (congrArg _ writer) (congrArg _ writer)
      fun b' at_ => Function.update_of_ne ?_ _ _)⟩
    rintro rfl
    exact other (loaned.apart u w b' at_ cur)
  refine ⟨loaned.of_touched touched ?_ (fun u b' other at_ => ⟨loaned.mine u b' at_, ?_⟩) ?_ ?_ ?_,
    touched, Prod.ext ?_ ?_⟩
  · rw [appended]
    exact (loaned.kept.fill mine fits).congr ⟨rfl, rfl⟩ ⟨rfl, rfl, rfl⟩ rfl rfl
  · rw [same, ne_eq, Option.some.injEq]
    rintro rfl
    exact other (loaned.apart u w b at_ cur)
  · rw [same]
    rintro b' at_
    exact Option.some.inj at_ ▸ mine
  · rw [appended, set_self]
    exact fun _ => fits
  · rw [appended]
    exact loaned.noted
  · rw [appended]
    rfl
  · have longer : (store (s.memory b) (s.writers w).m_nCurSize data).take
        ((s.writers w).m_nCurSize + data.length) =
          (s.memory b).take (s.writers w).m_nCurSize ++ data := by
      rw [store, List.take_append_of_le_length, List.take_of_length_le]
      · simp
      · simp only [List.length_append, List.length_take]
        omega
    rw [current] at cur
    simp only [stored, appended, cached, cur, Option.elim_some, Files.set,
      Function.update_self, longer]

/-- The current buffer is written out, or lost when WriteFile rejects the write; without a
request nothing is done. -/
theorem turns (loaned : Loaned s bs) (api : Api) (w : W) (size : Nat → Nat) :
    s.writeCurBuf api w = (s, none) ∨ ∃ s' returned bs', s.writeCurBuf api w = (s', some returned) ∧
      let cleared :=
        s'.set w fun o => { o with m_pCurBuf := none, m_nCurSize := size o.m_nCurSize }
      Loaned cleared bs' ∧ Touched s w cleared ∧ (stored cleared w).2 = [] ∧
        Turned (ReqAvailable api s ∧ (current s w = none ∨ api.writeFile = .failed))
          (stored s w) (stored cleared w) := by
  by_cases found : ReqAvailable api s
  swap
  · exact .inl (loaned.kept.writeCurBuf_missing found)
  refine .inr ?_
  obtain ⟨s₁, q, took, kept₁, noted, aside⟩ := loaned.kept.takesReq_found found
    ⟨w, (s.writers w).m_pCurBuf, WFILEBUFSIZE, (s.writers w).m_nCurSize, 0xffffffff, 0xffffffff⟩
  by_cases rejects : current s w = none ∨ api.writeFile = .failed
  · have refused : s₁.writeFile api.writeFile w q = (s₁, false) := by
      refine writeFile_refused ?_ q
      rwa [current, aside.writers]
    let s₂ := { s₁ with m_IOReqList := s₁.m_IOReqList.pushTail (some q) }
    have aside₂ : Aside s s₂ :=
      ⟨aside.writers, aside.memory, aside.writing, aside.payloads, aside.imported⟩
    have kept₂ : Kept s₂ bs [] :=
      ⟨kept₁.bufs, kept₁.reqs.push, kept₁.noted, kept₁.sized, kept₁.intact⟩
    obtain ⟨counted, same⟩ := (loaned.only_lists aside₂ kept₂).keeps (w := w)
      (f := fun o => { o with m_nWriteNum := o.m_nWriteNum + 1 }) fun _ => ⟨rfl, rfl⟩
    obtain ⟨cleared, empty⟩ := counted.clears (w := w) size
    have before : stored s₂ w = stored s w :=
      Prod.ext (congrFun aside.payloads w) (cached_congr
        (congrArg _ (congrFun aside.writers w)) (congrArg _ (congrFun aside.writers w))
        fun b _ => congrFun aside.memory b)
    refine ⟨s₂.set w fun o => { o with m_nWriteNum := o.m_nWriteNum + 1 }, true, bs, ?_,
      cleared, (touched_aside aside₂).trans ((touched_set _).trans (touched_set _)), ?_, ?_⟩
    · simp only [writeCurBuf, took, refused, Bool.not_false, Bool.false_eq_true, if_false, s₂]
    · rw [empty]
    · rw [empty, same, before]
      exact .lost ⟨found, rejects⟩ _ _
  · obtain ⟨there, accepted⟩ := not_or.mp rejects
    obtain ⟨b, cur⟩ := Option.ne_none_iff_exists'.mp there
    rw [current] at cur
    rw [cur] at took noted
    obtain ⟨s', wrote, kept, writers, memory, writing, payloads, -⟩ :=
      writeCurBuf_spec kept₁ took noted aside accepted cur (loaned.mine w b cur)
    have other {u : W} (differ : u ≠ w) : s'.writers u = s.writers u := by
      rw [writers]
      exact set_other differ _
    have handed : Touched s w s' := by
      intro u differ
      refine ⟨other differ, Prod.ext ?_ ?_⟩
      · simp only [stored, payloads, Function.update_of_ne differ]
      · exact cached_congr (congrArg _ (other differ)) (congrArg _ (other differ))
          fun b' _ => congrFun memory b'
    have touched := handed.trans
      (touched_set fun o => { o with m_pCurBuf := none, m_nCurSize := size o.m_nCurSize })
    have none_ : current (s'.set w fun o =>
        { o with m_pCurBuf := none, m_nCurSize := size o.m_nCurSize }) w = none := by
      rw [current, set_self]
    have block : cached s w = (s.memory b).take (s.writers w).m_nCurSize := by
      rw [cached, cur, Option.elim_some]
    have after : stored (s'.set w fun o =>
        { o with m_pCurBuf := none, m_nCurSize := size o.m_nCurSize }) w =
          (s.payloads w ++ [cached s w], []) := by
      refine Prod.ext ?_ ?_
      · simp only [stored, Files.set, payloads, Function.update_self, block]
      · simp [stored, cached]
    refine ⟨s', false, bs.erase b, wrote, ?_, touched, by rw [after], ?_⟩
    · refine loaned.of_touched touched (kept.congr ⟨rfl, rfl⟩ ⟨rfl, rfl, rfl⟩ rfl rfl)
        (fun u b' differ at_ => ⟨?_, by simp [none_]⟩) (by simp [none_]) (by simp [none_]) ?_
      · refine (List.mem_erase_of_ne ?_).mpr (loaned.mine u b' at_)
        rintro rfl
        exact differ (loaned.apart u w b' at_ cur)
      · show ∀ f ∈ s'.writing, f.contents.take f.size ∈ s'.payloads f.writer
        rw [writing, payloads]
        intro f inside
        rcases List.mem_cons.mp inside with rfl | inside
        · simp
        · have noted := loaned.noted f inside
          by_cases this : f.writer = w
          · rw [this, Function.update_self]
            exact List.mem_append_left _ (this ▸ noted)
          · rwa [Function.update_of_ne this]
    · rw [after]
      exact .written _ _

end Loaned

/-! ### The calls -/

/-- What a call of ImportData by w does: the cache is turned, and then the packet put behind
it if the call reports success. -/
structure Imports (s : Files W) (w : W) (data : List Byte) (lost : Prop) (r : Result W) : Prop where
  loaned : ∃ bs, Loaned r.state bs
  touched : Touched s w r.state
  turned : ∃ turned, Turned lost (stored s w) turned ∧
    stored r.state w = if r.res = 0 then (turned.1, turned.2 ++ data) else turned

omit [DecidableEq W] in
/-- The call fails and leaves everything as it is. -/
theorem Loaned.fails {lost : Prop} (loaned : Loaned s bs) {res : Int} (failed : res ≠ 0)
    (returned : Nat) : Imports s w data lost ⟨s, res, returned⟩ :=
  ⟨⟨bs, loaned⟩, fun _ _ => ⟨rfl, rfl⟩, _, .stays _, by rw [if_neg failed]⟩

/-- A flush turns the cache. -/
theorem Loaned.flushes (loaned : Loaned s bs) (api : Api) (w : W) :
    Imports s w [] (ReqAvailable api s ∧ 0 < (s.writers w).m_nCurSize ∧
      (current s w = none ∨ api.writeFile = .failed)) (flush api s w) := by
  rw [flush]
  by_cases some_ : 0 < (s.writers w).m_nCurSize
  · rw [if_pos some_]
    rcases loaned.turns api w fun _ => 0 with missing | ⟨s', returned, bs', wrote, cleared⟩
    · simp only [missing]
      exact loaned.fails (by decide) 1
    · obtain ⟨loaned', touched, -, turned⟩ := cleared
      simp only [wrote]
      refine ⟨⟨bs', loaned'⟩, touched, _, turned.imp fun now =>
        ⟨now.1, some_, now.2⟩, ?_⟩
      rw [if_pos rfl, List.append_nil]
  · rw [if_neg some_]
    obtain ⟨loaned', after⟩ := loaned.clears (w := w) fun _ => 0
    have touched := touched_set (s := s) (w := w) fun o =>
      { o with m_pCurBuf := none, m_nCurSize := 0 }
    refine ⟨⟨bs, loaned'⟩, touched, _, .stays _, ?_⟩
    rw [if_pos rfl, after, List.append_nil]
    refine Prod.ext rfl ?_
    obtain none_ : (s.writers w).m_nCurSize = 0 := Nat.eq_zero_of_not_pos some_
    cases cur : (s.writers w).m_pCurBuf <;> simp [stored, cached, cur, none_]

/-- A buffer that was just taken has room for the packet. -/
theorem Loaned.stores {lost : Prop} {s₁ : Files W} {after : Stored}
    (loaned : Loaned (s₁.set w fun o => { o with m_pCurBuf := some b, m_nCurSize := 0 }) bs)
    (touched : Touched s w (s₁.set w fun o => { o with m_pCurBuf := some b, m_nCurSize := 0 }))
    (same : stored (s₁.set w fun o => { o with m_pCurBuf := some b, m_nCurSize := 0 }) w = after)
    (turned : Turned lost (stored s w) after) (fits : data.length ≤ WFILEBUFSIZE) (returned : Nat) :
    Imports s w data lost
      ⟨append (s₁.set w fun o => { o with m_pCurBuf := some b, m_nCurSize := 0 }) w data, 0,
        returned⟩ := by
  have cur : current (s₁.set w fun o => { o with m_pCurBuf := some b, m_nCurSize := 0 }) w =
      some b := by rw [current, set_self]
  have room : ((s₁.set w fun o => { o with m_pCurBuf := some b, m_nCurSize := 0 }).writers
      w).m_nCurSize + data.length ≤ WFILEBUFSIZE := by simpa using fits
  obtain ⟨loaned', appended, put⟩ := loaned.appends cur room
  refine ⟨⟨bs, loaned'⟩, touched.trans appended, after, turned, ?_⟩
  rw [if_pos rfl, put, same]

/-- A packet is put behind what is cached, which may have to be turned before. -/
theorem Loaned.puts (loaned : Loaned s bs) (api : Api) (w : W) (fits : data.length ≤ WFILEBUFSIZE) :
    Imports s w data (ReqAvailable api s ∧ (s.writers w).m_pCurBuf ≠ none ∧
      WFILEBUFSIZE < (s.writers w).m_nCurSize + data.length ∧ api.writeFile = .failed)
      (match firstBuf api s w with
        | .error failed => failed
        | .ok s =>
          match nextBuf api s w data.length with
          | .error failed => failed
          | .ok (s, returned) => (⟨append s w data, 0, returned + 1⟩ : Result W)) := by
  cases cur : (s.writers w).m_pCurBuf with
  | none =>
    rcases loaned.takes (w := w) api.newBuf with ⟨s₁, b, bs', took, loaned', touched, same⟩ | none_
    · have first : firstBuf api s w =
          .ok (s₁.set w fun o => { o with m_pCurBuf := some b, m_nCurSize := 0 }) := by
        simp only [firstBuf, cur, if_true, took]
      have room : ¬ ((s₁.set w fun o => { o with
          m_pCurBuf := some b, m_nCurSize := 0 }).writers w).m_nCurSize + data.length >
            WFILEBUFSIZE := by
        simpa using fits
      have empty : (stored s w).2 = [] := by simp [stored, cached, cur]
      simp only [first, nextBuf, if_neg room]
      refine loaned'.stores touched same ?_ fits _
      rw [← empty]
      exact .stays _
    · simp only [firstBuf, cur, if_true, none_]
      exact loaned.fails (by decide) 1
  | some b =>
    have first : firstBuf api s w = .ok s := by
      simp only [firstBuf, cur, reduceCtorEq, if_false]
    simp only [first, nextBuf]
    by_cases full : (s.writers w).m_nCurSize + data.length > WFILEBUFSIZE
    · rw [if_pos full]
      rcases loaned.turns api w id with missing | ⟨s₁, returned, bs', wrote, cleared⟩
      · simp only [missing]
        exact loaned.fails (by decide) 1
      · obtain ⟨loaned', touched, empty, turned⟩ := cleared
        have turned' : Turned (ReqAvailable api s ∧ some b ≠ none ∧
            WFILEBUFSIZE < (s.writers w).m_nCurSize + data.length ∧ api.writeFile = .failed) _ _ :=
          turned.imp fun now => ⟨now.1, by simp, full,
            now.2.resolve_left (by rw [current, cur]; simp)⟩
        have next := loaned'.takes (w := w) api.nextBuf
        rw [takeBuf_set] at next
        cases took : s₁.takeBuf api.nextBuf with
        | mk s₂ m_pCurBuf =>
          rw [took] at next
          simp only [wrote, took]
          rcases next with ⟨s₃, b', bs'', took, loaned'', swapped, same⟩ | none_
          · obtain ⟨rfl, rfl⟩ := Prod.mk.inj took
            rw [set_set] at loaned'' swapped same
            refine loaned''.stores (touched.trans swapped) ?_ turned' fits _
            exact same.trans (Prod.ext rfl empty.symm)
          · obtain ⟨same, rfl⟩ := Prod.mk.inj none_
            rw [← same] at loaned' touched turned'
            exact ⟨⟨bs', loaned'⟩, touched, _, turned',
              (if_neg (show ¬ (-2 : Int) = 0 by decide)).symm⟩
    · rw [if_neg full]
      obtain ⟨loaned', touched, put⟩ := loaned.appends cur (Nat.le_of_not_lt full)
      exact ⟨⟨bs, loaned'⟩, touched, _, .stays _, by rw [if_pos rfl, put]⟩

/-- A packet is only counted when there is no file. -/
theorem Loaned.imports (loaned : Loaned s bs) (api : Api) (w : W)
    (fits : data.length ≤ WFILEBUFSIZE) :
    Imports s w data (Rejects api s w data) (importData api s w data) := by
  have noted : Loaned { s with
      imported := Function.update s.imported w (s.imported w ++ data) } bs :=
    ⟨loaned.kept.congr ⟨rfl, rfl⟩ ⟨rfl, rfl, rfl⟩ rfl rfl, loaned.mine, loaned.apart, loaned.sized,
      loaned.noted⟩
  obtain ⟨received, same⟩ := noted.keeps (w := w)
    (f := fun o => { o with m_nRecvPackets := o.m_nRecvPackets + BitVec.ofNat 32 data.length })
    fun _ => ⟨rfl, rfl⟩
  have touched : Touched s w (receive s w data) := touched_set (s := { s with
    imported := Function.update s.imported w (s.imported w ++ data) })
    fun o => { o with m_nRecvPackets := o.m_nRecvPackets + BitVec.ofNat 32 data.length }
  -- What the rest of the call does starts from the same buffers.
  suffices rest : Imports (receive s w data) w data (Rejects api (receive s w data) w data)
      (importData api s w data) by
    obtain ⟨after, touched', turned, lost, put⟩ := rest
    refine ⟨after, touched.trans touched', turned, ?_, put⟩
    rw [← show stored (receive s w data) w = stored s w from same]
    exact lost.imp (rejects_receive api s w data).mp
  replace received : Loaned (receive s w data) bs := received
  rw [importData]
  generalize receive s w data = s at received ⊢
  by_cases open_ : (s.writers w).m_hFileDest = none
  · simp only [if_pos open_]
    exact received.fails (by decide) _
  simp only [if_neg open_]
  by_cases end_ : data.length = 0
  · obtain rfl := List.length_eq_zero_iff.mp end_
    obtain ⟨after, touched, turned, lost, put⟩ := received.flushes api w
    simp only [if_pos end_]
    refine ⟨after, touched, turned, lost.imp fun now => ?_, put⟩
    exact ⟨open_, now.1, by rw [if_pos end_]; exact now.2⟩
  · obtain ⟨after, touched, turned, lost, put⟩ := received.puts api w fits
    simp only [if_neg end_]
    refine ⟨after, touched, turned, lost.imp fun now => ?_, put⟩
    exact ⟨open_, now.1, by rw [if_neg end_]; exact now.2⟩

/-- The buffer of a completed write goes back to the list. -/
theorem Loaned.completes (loaned : Loaned s bs) {f : Write W} (member : f ∈ s.writing)
    (error : Bool) :
    Loaned (complete s f error) bs ∧ ∀ u, stored (complete s f error) u = stored s u := by
  have writers := loaned.kept.complete_writers member error
  obtain ⟨-, -, -, memory, writing, payloads, -⟩ := complete_same (s := s) (f := f) error
  have same : current (complete s f error) = current s := by
    funext u
    rw [current, writers]
    split <;> rfl
  have size (u : W) : ((complete s f error).writers u).m_nCurSize = (s.writers u).m_nCurSize := by
    rw [writers]
    split <;> rfl
  refine ⟨⟨loaned.kept.completes member error, ?_, ?_, fun u => ?_, ?_⟩, fun u => Prod.ext ?_ ?_⟩
  · rw [same]
    exact loaned.mine
  · rw [same]
    exact loaned.apart
  · rw [same, size]
    exact loaned.sized u
  · rw [writing, payloads]
    exact fun g inside => loaned.noted g (List.mem_of_mem_erase inside)
  · exact congrFun payloads u
  · exact cached_congr (congrFun same u) (size u) fun b _ => congrFun memory b

/-- InitObject touches no buffer that is in use. -/
theorem Loaned.opens (loaned : Loaned s bs)
    (room : api.newBuf = true ∧ api.nextBuf = true ∧ api.newReq = true) (named : Bool)
    (m_hFileDest : Option Nat) : Loaned (initObject api s w named m_hFileDest).1 bs ∧
      ∀ u, stored (initObject api s w named m_hFileDest).1 u = stored s u := by
  have fields {f : FileWriter → FileWriter}
      (buf : ∀ o, (f o).m_pCurBuf = o.m_pCurBuf ∧ (f o).m_nCurSize = o.m_nCurSize) :
      Loaned (s.set w f) bs ∧ ∀ u, stored (s.set w f) u = stored s u := by
    obtain ⟨kept, same⟩ := loaned.keeps (w := w) buf
    refine ⟨kept, fun u => ?_⟩
    by_cases this : u = w
    · rw [this, same]
    · exact (touched_set f u this).2
  cases named with
  | false => exact ⟨loaned, fun _ => rfl⟩
  | true =>
    cases m_hFileDest with
    | none => exact fields (f := fun o => { o with m_hFileDest := none }) fun _ => ⟨rfl, rfl⟩
    | some file =>
      obtain ⟨opened, same⟩ := fields (f := fun o => { { o with m_hFileDest := some file } with
        m_nRecvPackets := 0, m_nWritedPackets := 0 }) fun _ => ⟨rfl, rfl⟩
      simp only [initObject, Bool.not_true, Bool.false_eq_true, if_false, reduceCtorEq,
        set_set, room.1, room.2.1, room.2.2]
      refine ⟨?_, same⟩
      have stocked {s : Files W} (loaned : Loaned s bs) : Loaned (stockBuf s true) bs :=
        loaned.only_lists ⟨rfl, rfl, rfl, rfl, rfl⟩ loaned.kept.stockBuf
      exact (stocked (stocked opened)).only_lists
        ⟨rfl, rfl, rfl, rfl, rfl⟩
        ((stocked (stocked opened)).kept.stockReq w)

/-! ### Runs -/

/-- The packet of a call of ImportData by w that reports success. -/
def taken (w : W) (s : Files W) : Event W → List (List Byte)
  | .importData v data api =>
    if v = w ∧ (importData api s v data).res = 0 then [data] else []
  | .init _ _ _ _ | .complete _ _ => []

/-- The packets for which ImportData reports success to w in a run. -/
def accepted (w : W) : Files W → List (Event W) → List (List Byte)
  | _, [] => []
  | s, e :: es =>
    taken w s e ++
      match next s e with
      | none => []
      | some t => accepted w t es

variable {t : Files W} {e : Event W} {events : List (Event W)} {packets : List (List Byte)}

theorem Loaned.next (loaned : Loaned s bs) (promise : Promised s e) (went : next s e = some t)
    (holds : Holds (stored s w) packets) :
    (∃ bs', Loaned t bs') ∧ ∃ packets', Holds (stored t w) packets' ∧
      packets'.Sublist (packets ++ taken w s e) ∧
      (¬ Rejected s e → packets' = packets ++ taken w s e) := by
  cases e with
  | init v named m_hFileDest api =>
    cases went
    obtain ⟨loaned, same⟩ := loaned.opens (w := v) promise.2 named m_hFileDest
    refine ⟨⟨bs, loaned⟩, packets, (same w).symm ▸ holds, ?_, fun _ => ?_⟩
    · simp [taken]
    · simp [taken]
  | importData v data api =>
    cases went
    obtain ⟨after, touched, turned, lost, put⟩ := loaned.imports api v promise
    refine ⟨after, ?_⟩
    by_cases this : v = w
    · subst this
      obtain ⟨packets', holds, fewer, all⟩ := holds.turned lost
      by_cases done : (importData api s v data).res = 0
      · rw [if_pos done] at put
        refine ⟨packets' ++ [data], put ▸ holds.put data, ?_, fun orderly => ?_⟩
        · simpa only [taken, done, and_self, if_true] using fewer.append (List.Sublist.refl _)
        · simp only [taken, done, and_self, if_true, all orderly]
      · rw [if_neg done] at put
        refine ⟨packets', put ▸ holds, ?_, fun orderly => ?_⟩
        · simpa only [taken, done, and_false, if_false, List.append_nil] using fewer
        · simp only [taken, done, and_false, if_false, List.append_nil, all orderly]
    · have same := (touched w (Ne.symm this)).2
      refine ⟨packets, same.symm ▸ holds, ?_, fun _ => ?_⟩
      · simp [taken, this]
      · simp [taken, this]
  | complete f error =>
    simp only [File.next] at went
    split at went
    · rename_i member
      cases went
      obtain ⟨loaned, same⟩ := loaned.completes member error
      refine ⟨⟨bs, loaned⟩, packets, (same w).symm ▸ holds, ?_, fun _ => ?_⟩
      · simp [taken]
      · simp [taken]
    · cases went

theorem Loaned.run (loaned : Loaned s bs) (ran : (promised W).run s events = some t)
    (holds : Holds (stored s w) packets) :
    (∃ bs', Loaned t bs') ∧ ∃ packets', Holds (stored t w) packets' ∧
      packets'.Sublist (packets ++ accepted w s events) ∧
      ((promised W).EveryStep (fun s e _ => ¬ Rejected s e) s events →
        packets' = packets ++ accepted w s events) := by
  induction events generalizing s bs packets with
  | nil =>
    cases ran
    refine ⟨⟨bs, loaned⟩, packets, holds, ?_, fun _ => ?_⟩
    · simp [accepted]
    · simp [accepted]
  | cons e events ih =>
    simp only [System.run] at ran
    split at ran
    · cases ran
    · rename_i s₁ went
      obtain ⟨promise, taken_⟩ := promised_taken went
      obtain ⟨⟨bs', loaned⟩, packets₁, holds, fewer, all⟩ := loaned.next promise taken_ holds
      obtain ⟨after, packets', holds, fewer', all'⟩ := ih loaned ran holds
      simp only [accepted, taken_, ← List.append_assoc]
      refine ⟨after, packets', holds, fewer'.trans (fewer.append (List.Sublist.refl _)),
        fun each => ?_⟩
      obtain ⟨orderly, later⟩ := each s₁ went
      rw [all' later, all orderly]

omit [DecidableEq W] in
theorem Unused.loaned (unused : Unused s) : Loaned s [] := by
  refine ⟨unused.kept, ?_, ?_, ?_, by simp [unused.writing]⟩
  · simp [current, unused.writers, constructed]
  · simp [current, unused.writers, constructed]
  · simp [current, unused.writers, constructed]

/-- Whatever fails, a writer tears no packet, repeats none and changes their order: what it
gave to WriteFile and what it caches are made of packets that it accepted, of all of them
unless WriteFile rejected a write; and a write in flight still finds in its buffer what
was to be written. -/
theorem packets_whole (unused : Unused s) (ran : (promised W).run s events = some t) (w : W) :
    (∃ packets, Holds (t.payloads w, cached t w) packets ∧
      packets.Sublist (accepted w s events) ∧
      ((promised W).EveryStep (fun s e _ => ¬ Rejected s e) s events →
        packets = accepted w s events)) ∧
    ∀ f ∈ t.writing, (t.memory f.buf).take f.size ∈ t.payloads f.writer := by
  have start : Holds (stored s w) [] := by
    refine ⟨[], [], (unused.history w).1, ?_, rfl⟩
    simp [stored, cached, unused.writers, constructed]
  obtain ⟨⟨bs, loaned⟩, packets, holds, fewer, all⟩ := unused.loaned.run ran start
  refine ⟨⟨packets, holds, fewer, all⟩, fun f inside => ?_⟩
  rw [loaned.kept.intact f inside]
  exact loaned.noted f inside

/-- A write is rejected in the middle of a stream. -/
def rejectingOne : List (Event Bool) :=
  [.init false true (some 3) accepting, .importData false [1, 2] accepting,
    .importData false [] accepting, .importData false [3] accepting,
    .importData false [] ⟨true, true, true, .failed⟩, .importData false [4] accepting]

theorem rejectingOne_runs : ((promised Bool).run unused rejectingOne).map
    (fun t => (t.payloads false, cached t false, t.writing.length)) =
      some ([[1, 2]], [4], 1) := by
  decide +kernel

theorem packets_whole_rejecting : ∃ t : Files Bool, t.payloads false = [[1, 2]] ∧
    cached t false = [4] ∧ t.writing.length = 1 ∧
    (∃ packets, Holds (t.payloads false, cached t false) packets ∧
      packets.Sublist (accepted false unused rejectingOne) ∧
      ((promised Bool).EveryStep (fun s e _ => ¬ Rejected s e) unused rejectingOne →
        packets = accepted false unused rejectingOne)) ∧
    ∀ f ∈ t.writing, (t.memory f.buf).take f.size ∈ t.payloads f.writer := by
  obtain ⟨t, ran, after⟩ := Option.map_eq_some_iff.mp rejectingOne_runs
  simp only [Prod.mk.injEq] at after
  exact ⟨t, after.1, after.2.1, after.2.2, packets_whole unused_unused ran false⟩

end TestIOCP.File
