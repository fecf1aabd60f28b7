import QuadGraph.Proofs.Json.Members
import QuadGraph.Proofs.Outcome
import QuadGraph.Query.Records

/-! What is read at a match: its node or its record. Reading asks the store for terms, one after the
other, and gives a result or the reason of the first failure. -/
namespace QuadGraph

open Outcome

/-- The term of a node, without which there is no result. -/
def QuadStore.read (store : QuadStore) (n : NodeId) : Except QueryError Term :=
  match store.termOf n with
  | .ok (some t) => .ok t
  | .ok none => .error (.resolution n)
  | .error e => .error (.store e)

/-- The terms of named nodes. -/
def QuadStore.readAll (store : QuadStore) (named : List (String × NodeId)) :
    Except QueryError (List (String × Term)) :=
  named.mapM fun member => do return (member.1, ← store.read member.2)

namespace Binding

/-- The result that is the node of a match. -/
def value (store : QuadStore) (v : Vocabulary) (b : Binding) : Except QueryError Json := do
  return (JsonLd.encode v (← store.read b.node)).toJson

/-- The nodes that the record of a match tells, under their keys: all its tags in the order of their
names, or those that are selected in the order in which they are. -/
def members (b : Binding) : List String → List (String × NodeId)
  | [] => if b.tags.isEmpty then [("@current", b.node)] else b.tags.toList
  | selected => selected.filterMap fun name => (b.tags[name]?).map fun n => (name, n)

/-- The result that is the record of a match. -/
def record (selected : List String) (store : QuadStore) (v : Vocabulary) (b : Binding) :
    Except QueryError Json := do
  let tags ← store.readAll (b.members selected)
  return Json.ofMembers (tags.map fun tag => (tag.1, (JsonLd.encode v tag.2).toJson))

/-- The node that the record of a match tells under a key: the one that the match has named so, or
under a key of its own the match itself, if it has no names and none is selected. -/
def recorded (selected : List String) (b : Binding) (key : String) : Option NodeId :=
  if selected = [] ∧ b.tags.isEmpty then if key = "@current" then some b.node else none
  else if selected = [] ∨ key ∈ selected then b.tags[key]? else none

/-- A record of a match: an object with the form of the term of every node that is told, under its
key, and with nothing else. -/
def RecordedAs (selected : List String) (store : QuadStore) (v : Vocabulary) (b : Binding)
    (json : Json) : Prop :=
  json.IsObject fun key => (b.recorded selected key).bind fun n =>
    (store.read n).toOption.map fun t => (JsonLd.encode v t).toJson

theorem mem_members_iff (selected : List String) (b : Binding) (key : String) (n : NodeId) :
    (key, n) ∈ b.members selected ↔ b.recorded selected key = some n := by
  cases selected with
  | nil =>
    unfold members recorded
    by_cases hbare : b.tags.isEmpty
    · simp [hbare, eq_comm]
    · simp [hbare, Std.ExtTreeMap.mem_toList_iff_getElem?_eq_some]
  | cons name rest =>
    simp only [members, recorded, List.mem_filterMap, Option.map_eq_some_iff, Prod.mk.injEq,
      reduceCtorEq, false_and, if_false, false_or]
    constructor
    · rintro ⟨other, hother, m, hm, rfl, rfl⟩
      rwa [if_pos hother]
    · intro h
      split at h
      · next hkey => exact ⟨key, hkey, n, h, rfl, rfl⟩
      · cases h

/-- The forms of the terms of named nodes, where all terms are there. -/
theorem mem_forms_iff (store : QuadStore) (v : Vocabulary) (named : List (String × NodeId))
    (tags : List (String × Term)) (h : store.readAll named = .ok tags) (key : String)
    (json : Json) :
    (key, json) ∈ tags.map (fun tag => (tag.1, (JsonLd.encode v tag.2).toJson)) ↔
      ∃ n, (key, n) ∈ named ∧ ∃ t, store.read n = .ok t ∧ (JsonLd.encode v t).toJson = json := by
  rw [QuadStore.readAll, mapM_eq_ok] at h
  have hread (member : String × NodeId) (tag : String × Term) :
      (do return (member.1, ← store.read member.2)) = Except.ok tag ↔
        tag.1 = member.1 ∧ store.read member.2 = .ok tag.2 := by
    rw [bind_eq_ok]
    constructor
    · rintro ⟨t, ht, ⟨⟩⟩
      exact ⟨rfl, ht⟩
    · rintro ⟨hname, ht⟩
      exact ⟨tag.2, ht, congrArg Except.ok (Prod.ext hname.symm rfl)⟩
  rw [List.mem_map]
  constructor
  · rintro ⟨tag, htag, ⟨⟩⟩
    obtain ⟨member, hmember, hok⟩ := exists_of_forall₂_right h tag htag
    obtain ⟨hname, ht⟩ := (hread member tag).mp hok
    exact ⟨member.2, hname ▸ hmember, tag.2, ht, rfl⟩
  · rintro ⟨n, hmember, t, ht, rfl⟩
    obtain ⟨tag, htag, hok⟩ := exists_of_forall₂_right h.flip (key, n) hmember
    obtain ⟨hname, ht'⟩ := (hread (key, n) tag).mp hok
    cases ht.symm.trans ht'
    exact ⟨tag, htag, by rw [hname]⟩

/-- Where all terms are there, a record is what it should be. -/
theorem recordedAs_of_record (selected : List String) (store : QuadStore) (v : Vocabulary)
    (b : Binding) (json : Json) (h : b.record selected store v = .ok json) :
    b.RecordedAs selected store v json := by
  obtain ⟨tags, htags, hjson⟩ := (bind_eq_ok _ _ _).mp h
  cases hjson
  refine Json.isObject_ofMembers _ _ fun key => ?_
  -- However often a key comes up, it is with the same node.
  rw [Json.get?_ofMembers]
  apply Json.lookup_eq_of_mem_iff
  intro json
  rw [List.mem_reverse, mem_forms_iff store v _ tags htags]
  simp only [mem_members_iff, Option.bind_eq_some_iff, Option.map_eq_some_iff, toOption_eq_some]

end Binding

namespace Walk

/-- A walk in which something has been read, or which has been stopped in trying. -/
def reading {α : Type} (w : Walk) : Except QueryError α → Option α × Walk
  | .ok a => (some a, w)
  | .error e => (none, w.fail e)

theorem resolve_eq_reading (w : Walk) (n : NodeId) : w.resolve n = w.reading (w.store.read n) := by
  unfold resolve QuadStore.read
  cases w.store.termOf n with
  | error e => rfl
  | ok t => cases t <;> rfl

theorem resolveAll_eq_reading (tags : List (String × NodeId)) (w : Walk) :
    RecordWalk.resolveAll tags w = w.reading (w.store.readAll tags) := by
  induction tags with
  | nil => rfl
  | cons tag rest ih =>
    obtain ⟨name, n⟩ := tag
    rw [RecordWalk.resolveAll, w.resolve_eq_reading, QuadStore.readAll, List.mapM_cons]
    cases w.store.read n with
    | error e => rfl
    | ok t =>
      -- The walk has not changed, so the other terms are read in the same one.
      simp only [reading, ih]
      rw [QuadStore.readAll]
      cases rest.mapM fun member => (do return (member.1, ← w.store.read member.2)) with
      | error e => rfl
      | ok others => rfl

theorem result_eq_reading (w : Walk) (b : Binding) (hb : w.binding? = some b) :
    w.result = w.reading (b.value w.store w.vocabulary) := by
  rw [result, term, hb]
  simp only [w.resolve_eq_reading, Binding.value]
  cases w.store.read b.node with
  | error e => rfl
  | ok t => rfl

end Walk

namespace RecordWalk

theorem members_of_bare (b : Binding) (h : b.tags.isEmpty) :
    b.members [] = [("@current", b.node)] ∧ pick [] b = [] := by
  have hnone : b.tags.toList = [] := by
    rw [← List.isEmpty_iff, Std.ExtTreeMap.isEmpty_toList]
    exact h
  exact ⟨if_pos h, hnone⟩

theorem members_eq_pick (selected : List String) (b : Binding)
    (h : ¬ (selected = [] ∧ b.tags.isEmpty)) : b.members selected = pick selected b := by
  cases selected with
  | nil => exact if_neg fun hbare => h ⟨rfl, hbare⟩
  | cons name rest => rfl

theorem pick_ne_nil (b : Binding) (h : ¬ b.tags.isEmpty) : pick [] b ≠ [] := by
  intro hnone
  apply h
  rw [← Std.ExtTreeMap.isEmpty_toList, List.isEmpty_iff]
  exact hnone

theorem subject_eq_reading (r : RecordWalk) (b : Binding) (hb : r.walk.binding? = some b) :
    r.subject = (r.walk.reading (r.walk.store.read b.node)).map id
      fun w => { r with walk := w } := by
  simp only [subject, Walk.term, hb, Walk.resolve_eq_reading]
  rfl

theorem tags_eq_reading (r : RecordWalk) (b : Binding) (hb : r.walk.binding? = some b) :
    r.tags = (r.walk.reading (r.walk.store.readAll (pick r.selected b))).map id
      fun w => { r with walk := w } := by
  simp only [tags, hb, Walk.resolveAll_eq_reading]
  rfl

theorem result_eq_reading (r : RecordWalk) (b : Binding) (hb : r.walk.binding? = some b) :
    r.result = (r.walk.reading (b.record r.selected r.walk.store r.walk.vocabulary)).map id
      fun w => { r with walk := w } := by
  have hsubject := r.subject_eq_reading b hb
  have htags := r.tags_eq_reading b hb
  obtain ⟨w, selected⟩ := r
  rw [result, Binding.record]
  by_cases hbare : selected = [] ∧ b.tags.isEmpty
  -- Nothing is selected and there is nothing to select, so the node is read instead.
  · obtain ⟨rfl, hbare⟩ := hbare
    obtain ⟨hmembers, hpick⟩ := members_of_bare b hbare
    rw [hpick] at htags
    rw [htags, hmembers]
    simp only [QuadStore.readAll, Walk.reading, List.mapM_nil, List.mapM_cons, pure, Except.pure,
      Prod.map, id, List.isEmpty_nil, Bool.and_self, if_true, hsubject]
    cases w.store.read b.node with
    | error e => rfl
    | ok t => rfl
  · rw [htags, members_eq_pick selected b hbare]
    cases hread : w.store.readAll (pick selected b) with
    | error e => rfl
    | ok read =>
      have hsome : ¬ (read.isEmpty && selected.isEmpty) := by
        rw [Bool.and_eq_true, List.isEmpty_iff, List.isEmpty_iff]
        rintro ⟨rfl, rfl⟩
        rw [QuadStore.readAll, mapM_eq_ok, List.forall₂_nil_right_iff] at hread
        exact pick_ne_nil b (fun h => hbare ⟨rfl, h⟩) hread
      simp only [Walk.reading, Prod.map, id]
      rw [if_neg hsome]
      rfl

end RecordWalk

end QuadGraph
