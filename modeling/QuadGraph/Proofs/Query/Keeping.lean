import QuadGraph.Query.Results

/-! What stays true of a walk, whatever is made from its matches. Records, a count and documents go
on in the walk or read terms of nodes that its current match shows, and do nothing else to it. -/
namespace QuadGraph

/-- A node at which a match stands, or which it has named. -/
def Binding.Shows (b : Binding) (n : NodeId) : Prop :=
  n = b.node ∨ ∃ name : String, b.tags[name]? = some n

/-- A property of walks that is kept by going on and by reading what the current match shows. -/
structure Walk.Keeps (token : Token) (P : Walk → Prop) : Prop where
  advance (w : Walk) : P w → P (w.advance token).2
  resolve (w : Walk) (b : Binding) (n : NodeId) :
    P w → w.binding? = some b → b.Shows n → P (w.resolve n).2

theorem RecordWalk.shows_pick (selected : List String) (b : Binding) :
    ∀ tag ∈ pick selected b, b.Shows tag.2 := by
  intro tag hmem
  unfold pick at hmem
  split at hmem
  · exact Or.inr ⟨tag.1, Std.ExtTreeMap.mem_toList_iff_getElem?_eq_some.mp hmem⟩
  · obtain ⟨name, -, htag⟩ := List.mem_filterMap.mp hmem
    obtain ⟨n, hn, rfl⟩ := Option.map_eq_some_iff.mp htag
    exact Or.inr ⟨name, hn⟩

theorem Walk.eq_of_resolve (w w' : Walk) (n : NodeId) (t : Term)
    (h : w.resolve n = (some t, w')) : w' = w := by
  unfold resolve at h
  split at h
  · exact (Prod.mk.inj h).2.symm
  · cases (Prod.mk.inj h).1
  · cases (Prod.mk.inj h).1

namespace Walk.Keeps

variable {token : Token} {P : Walk → Prop} (h : Walk.Keeps token P)

include h

theorem term (w : Walk) (hw : P w) : P w.term.2 := by
  unfold Walk.term
  split
  · next b hb => exact h.resolve w b b.node hw hb (Or.inl rfl)
  · exact hw

theorem exhaust (w : Walk) (hw : P w) : P (w.exhaust token).2 := by
  fun_induction Walk.exhaust token w with
  | case1 w w' hadvance =>
    have hnext := h.advance w hw
    rwa [hadvance] at hnext
  | case2 w w' hadvance n last hlast ih =>
    have hnext := h.advance w hw
    rw [hadvance] at hnext
    rw [hlast] at ih
    exact ih hnext

theorem resolveAll (tags : List (String × NodeId)) (w : Walk) (b : Binding) (hw : P w)
    (hb : w.binding? = some b) (ht : ∀ tag ∈ tags, b.Shows tag.2) :
    P (RecordWalk.resolveAll tags w).2 := by
  fun_induction RecordWalk.resolveAll tags w with
  | case1 => exact hw
  | case2 name n rest w w' hresolve =>
    have hnext := h.resolve w b n hw hb (ht (name, n) List.mem_cons_self)
    rwa [hresolve] at hnext
  | case3 name n rest w t w' hresolve others last hothers ih =>
    -- The term was there, so the walk has not moved.
    have hsame : w' = w := w.eq_of_resolve w' n t hresolve
    rw [hothers] at ih
    rw [hsame] at ih
    exact ih hw hb fun tag hmem => ht tag (List.mem_cons_of_mem _ hmem)

theorem tags (r : RecordWalk) (hr : P r.walk) : P r.tags.2.walk := by
  unfold RecordWalk.tags
  split
  · exact hr
  · next b hb => exact h.resolveAll _ r.walk b hr hb (RecordWalk.shows_pick r.selected b)

theorem record (r : RecordWalk) (hr : P r.walk) : P r.result.2.walk := by
  have htags := h.tags r hr
  unfold RecordWalk.result
  split
  · next r' hr' => rwa [hr'] at htags
  · next tags r' hr' =>
    rw [hr'] at htags
    split
    · exact h.term r'.walk htags
    · exact htags

/-- Pulling a document takes a match and reads its terms. -/
theorem pull (r : RecordWalk) (hr : P r.walk) : P (r.pull token).2.walk := by
  have hadvance : P (r.advance token).2.walk := h.advance r.walk hr
  unfold RecordWalk.pull
  split
  · next r' hr' => rwa [hr'] at hadvance
  · next r' hr' =>
    rw [hr'] at hadvance
    have hsubject : P r'.subject.2.walk := h.term r'.walk hadvance
    split
    · next r₂ hr₂ => rwa [hr₂] at hsubject
    · next subject r₂ hr₂ =>
      rw [hr₂] at hsubject
      have htags := h.tags r₂ hsubject
      split
      · next r₃ hr₃ => rwa [hr₃] at htags
      · next tags r₃ hr₃ => rwa [hr₃] at htags

theorem count (c : CountWalk) (hc : P c.walk) : P (c.advance token).2.walk := by
  have hexhaust := h.exhaust c.walk hc
  unfold CountWalk.advance
  split
  · exact hc
  · simp only
    split
    · exact hexhaust
    · exact hexhaust

theorem nextAdjacent (records : RecordWalk) (pending : Option Document) (hr : P records.walk) :
    P (DocumentWalk.nextAdjacent token records pending).2.2.walk := by
  fun_induction DocumentWalk.nextAdjacent token records pending with
  | case1 records doc records' hpull ih =>
    have hnext := h.pull records hr
    rw [hpull] at hnext
    exact ih hnext
  | case2 records doc records' hpull p hsame ih =>
    have hnext := h.pull records hr
    rw [hpull] at hnext
    exact ih hnext
  | case3 records doc records' hpull p hother =>
    have hnext := h.pull records hr
    rwa [hpull] at hnext
  | case4 records pending records' hpull =>
    have hnext := h.pull records hr
    rwa [hpull] at hnext

theorem drainDocuments (records : RecordWalk) (docs : Slots Term Document Term.compareKey)
    (hr : P records.walk) :
    P (DocumentWalk.drain token records docs).2.walk := by
  fun_induction DocumentWalk.drain token records docs with
  | case1 records docs doc records' hpull ih =>
    have hnext := h.pull records hr
    rw [hpull] at hnext
    exact ih hnext
  | case2 records docs records' hpull =>
    have hnext := h.pull records hr
    rwa [hpull] at hnext

theorem documents (d : DocumentWalk) (hd : P d.records.walk) :
    P (d.advance token).2.records.walk := by
  unfold DocumentWalk.advance
  split
  · exact h.nextAdjacent d.records d.pending hd
  · simp only [DocumentWalk.fill]
    split
    · exact hd
    · exact h.drainDocuments d.records .empty hd

end Walk.Keeps

namespace Results

/-- The walk along matches that results are made from. -/
def walk : Results → Walk
  | .values w => w
  | .records r => r.walk
  | .count c => c.walk
  | .documents d => d.records.walk

theorem error?_eq_walk (r : Results) : r.error? = r.walk.error? := by
  cases r <;> rfl

variable {token : Token} {P : Walk → Prop} (h : Walk.Keeps token P)

include h

theorem walk_advance (r : Results) (hr : P r.walk) : P (r.advance token).2.walk := by
  cases r with
  | values w => exact h.advance w hr
  | records r => exact h.advance r.walk hr
  | count c => exact h.count c hr
  | documents d => exact h.documents d hr

theorem walk_result (r : Results) (hr : P r.walk) : P r.result.2.walk := by
  cases r with
  | values w => exact h.term w hr
  | records r => exact h.record r hr
  | count c => exact hr
  | documents d => exact hr

theorem walk_drain (r : Results) (hr : P r.walk) : P (r.drain token).2.walk := by
  fun_induction drain token r with
  | case1 r r' hadvance =>
    have hnext := r.walk_advance h hr
    rwa [hadvance] at hnext
  | case2 r r' hadvance found next hresult others last hdrain ih =>
    have hnext := r.walk_advance h hr
    rw [hadvance] at hnext
    have hread := r'.walk_result h hnext
    rw [hresult] at hread
    rw [hdrain] at ih
    exact ih hread

end Results

end QuadGraph
