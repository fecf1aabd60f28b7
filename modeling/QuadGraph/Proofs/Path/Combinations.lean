import QuadGraph.Proofs.FirstSeen
import QuadGraph.Proofs.Path.Matches
import QuadGraph.Proofs.Slots

/-! Matches with names for one choice out of each of some groups. In all combinations taken
together the choices out of one group come up first in the order of the group, whatever the other
groups are. Saving everything at a node makes such matches, one group for each predicate. -/
namespace QuadGraph

namespace Binding

/-- The matches with the names of some groups, for every choice of a node out of every group. -/
def spread (groups : List (String × List NodeId)) (partials : List Binding) : List Binding :=
  groups.foldl (fun partials group => partials.flatMap fun b => group.2.map (b.tagged group.1))
    partials

/-- The nodes under a name in some matches. -/
def under (name : String) (bindings : List Binding) : List NodeId :=
  bindings.flatMap (·.tags[name]?.toList)

theorem spread_cons (group : String × List NodeId) (groups : List (String × List NodeId))
    (partials : List Binding) :
    spread (group :: groups) partials =
      spread groups (partials.flatMap fun b => group.2.map (b.tagged group.1)) :=
  rfl

theorem getElem?_tagged (b : Binding) (name other : String) (n : NodeId) :
    (b.tagged name n).tags[other]? = if name = other then some n else b.tags[other]? := by
  rw [tagged, Std.ExtTreeMap.getElem?_insert]
  by_cases h : name = other
  · rw [if_pos h, if_pos (by rw [h]; exact Std.ReflOrd.compare_self)]
  · rw [if_neg h, if_neg fun heq => h (Std.LawfulEqOrd.eq_of_compare heq)]

/-- Naming nodes of one more group does not change what other names stand for. -/
theorem under_step_other (name other : String) (nodes : List NodeId) (partials : List Binding)
    (hne : name ≠ other) (hnodes : nodes ≠ []) :
    (under other (partials.flatMap fun b => nodes.map (b.tagged name))).eraseDups =
      (under other partials).eraseDups := by
  have hsame : under other (partials.flatMap fun b => nodes.map (b.tagged name)) =
      partials.flatMap fun b => nodes.flatMap fun _ => b.tags[other]?.toList := by
    simp [under, List.flatMap_assoc, List.flatMap_map, getElem?_tagged, hne]
  rw [hsame, under]
  apply eraseDups_flatMap_congr
  intro b _
  exact eraseDups_flatMap_const nodes _ hnodes

/-- The nodes of one more group come up in the order of the group, from every match again. -/
theorem under_step_self (name : String) (nodes : List NodeId) (partials : List Binding)
    (hpartials : partials ≠ []) :
    (under name (partials.flatMap fun b => nodes.map (b.tagged name))).eraseDups =
      nodes.eraseDups := by
  have hsame : under name (partials.flatMap fun b => nodes.map (b.tagged name)) =
      partials.flatMap fun _ => nodes := by
    simp [under, List.flatMap_assoc, List.flatMap_map, getElem?_tagged]
  rw [hsame, eraseDups_flatMap_const partials _ hpartials]

theorem step_ne_nil (name : String) (nodes : List NodeId) (partials : List Binding)
    (hpartials : partials ≠ []) (hnodes : nodes ≠ []) :
    (partials.flatMap fun b => nodes.map (b.tagged name)) ≠ [] := by
  obtain ⟨b, partials, rfl⟩ := List.exists_cons_of_ne_nil hpartials
  obtain ⟨n, nodes, rfl⟩ := List.exists_cons_of_ne_nil hnodes
  exact List.cons_ne_nil _ _

variable {groups : List (String × List NodeId)}

theorem spread_ne_nil (partials : List Binding) (hpartials : partials ≠ [])
    (hgroups : ∀ group ∈ groups, group.2 ≠ []) : spread groups partials ≠ [] := by
  induction groups generalizing partials with
  | nil => exact hpartials
  | cons group rest ih =>
    rw [List.forall_mem_cons] at hgroups
    exact ih _ (step_ne_nil group.1 group.2 partials hpartials hgroups.1) hgroups.2

theorem node_of_mem_spread (partials : List Binding) (n : NodeId)
    (hpartials : ∀ b ∈ partials, b.node = n) : ∀ b ∈ spread groups partials, b.node = n := by
  induction groups generalizing partials with
  | nil => exact hpartials
  | cons group rest ih =>
    apply ih
    intro b hb
    obtain ⟨b', hb', hmem⟩ := List.mem_flatMap.mp hb
    obtain ⟨m, -, rfl⟩ := List.mem_map.mp hmem
    exact hpartials b' hb'

theorem under_spread_other (name : String) (partials : List Binding)
    (hname : name ∉ groups.map (·.1)) (hgroups : ∀ group ∈ groups, group.2 ≠ []) :
    (under name (spread groups partials)).eraseDups = (under name partials).eraseDups := by
  induction groups generalizing partials with
  | nil => rfl
  | cons group rest ih =>
    rw [List.forall_mem_cons] at hgroups
    rw [List.map_cons, List.mem_cons, not_or] at hname
    rw [spread_cons, ih _ hname.2 hgroups.2]
    exact under_step_other group.1 name group.2 partials (Ne.symm hname.1) hgroups.1

/-- In all combinations, the nodes under the name of a group come up first in the order of the
group. -/
theorem under_spread (name : String) (nodes : List NodeId) (partials : List Binding)
    (hmem : (name, nodes) ∈ groups) (hnames : (groups.map (·.1)).Nodup)
    (hpartials : partials ≠ []) (hgroups : ∀ group ∈ groups, group.2 ≠ []) :
    (under name (spread groups partials)).eraseDups = nodes.eraseDups := by
  induction groups generalizing partials with
  | nil => cases hmem
  | cons group rest ih =>
    obtain ⟨hnew, hrest⟩ := List.nodup_cons.mp hnames
    rw [List.forall_mem_cons] at hgroups
    rw [spread_cons]
    rcases List.mem_cons.mp hmem with rfl | hlater
    · -- No later group has this name, so the order stays that of this group.
      rw [under_spread_other name _ hnew hgroups.2]
      exact under_step_self name nodes partials hpartials
    · exact ih _ hlater hrest (step_ne_nil group.1 group.2 partials hpartials hgroups.1) hgroups.2

end Binding

namespace Walking

open Outcome Binding

/-- The far ends of quads, in groups by predicate, for some predicates with names. -/
def farEnds (way : Way) (found : List IndexedQuad) (named : List (NodeId × String)) :
    List (String × List NodeId) :=
  named.map fun p => (p.2, (found.filter (·.predicate = p.1)).map way.far)

/-- There is something in every group if the predicates are those of the quads. -/
theorem farEnds_nonempty (way : Way) (found : List IndexedQuad) (named : List (NodeId × String))
    (h : ∀ p ∈ named, p.1 ∈ predicates found) :
    ∀ group ∈ farEnds way found named, group.2 ≠ [] := by
  intro group hgroup
  obtain ⟨p, hp, rfl⟩ := List.mem_map.mp hgroup
  obtain ⟨q, hq, hqp⟩ := (mem_predicates found p.1).mp (h p hp)
  have hmem : q ∈ found.filter (·.predicate = p.1) :=
    List.mem_filter.mpr ⟨hq, decide_eq_true hqp⟩
  exact List.ne_nil_of_mem (List.mem_map_of_mem hmem)

variable {store : QuadStore}

/-- The far ends of quads, in groups that are known by their predicates. -/
def filed (way : Way) (found : List IndexedQuad) (named : List (NodeId × String)) :
    List (NodeId × String × List NodeId) :=
  named.map fun p => (p.1, p.2, (found.filter (·.predicate = p.1)).map way.far)

/-- One more quad goes into the group of its predicate. -/
theorem filed_append (way : Way) (found : List IndexedQuad) (q : IndexedQuad)
    (named : List (NodeId × String)) :
    filed way (found ++ [q]) named = (filed way found named).map fun entry =>
      if entry.1 = q.predicate then (entry.1, entry.2.1, entry.2.2 ++ [way.far q]) else entry := by
  rw [filed, filed, List.map_map]
  refine List.map_congr_left fun p _ => ?_
  by_cases hp : q.predicate = p.1
  · simp [hp]
  · simp [hp, Ne.symm hp]

theorem filed_of_not_mem (way : Way) (found : List IndexedQuad) (q : IndexedQuad)
    (named : List (NodeId × String)) (h : q.predicate ∉ named.map (·.1)) :
    filed way (found ++ [q]) named = filed way found named := by
  refine List.map_congr_left fun p hp => ?_
  have hne : q.predicate ≠ p.1 := fun heq => h (heq ▸ List.mem_map_of_mem hp)
  simp [hne]

theorem keys_filed (way : Way) (found : List IndexedQuad) (named : List (NodeId × String)) :
    (filed way found named).map Prod.fst = named.map (·.1) := by
  rw [filed, List.map_map]
  rfl

theorem enterEnd_of_mem {way : Way} {groups : Slots NodeId (String × List NodeId) compare}
    {found : List IndexedQuad} {named : List (NodeId × String)} (q : IndexedQuad)
    (h : groups.Holds (filed way found named)) (hq : q.predicate ∈ named.map (·.1)) :
    ∃ groups', enterEnd store way groups q = .ok groups' ∧
      groups'.Holds (filed way (found ++ [q]) named) := by
  obtain ⟨i, hi⟩ : ∃ i, groups.place? q.predicate = some i := by
    rw [← Option.ne_none_iff_exists', ne_eq, h.place_eq_none_iff, keys_filed, not_not]
    exact hq
  refine ⟨groups.change i fun group => (group.1, group.2 ++ [way.far q]), ?_, ?_⟩
  · rw [enterEnd, hi]
    rfl
  · rw [filed_append]
    exact h.change q.predicate i _ hi

theorem enterEnd_of_not_mem {way : Way} {groups : Slots NodeId (String × List NodeId) compare}
    {found : List IndexedQuad} {named : List (NodeId × String)} (q : IndexedQuad)
    (h : groups.Holds (filed way found named)) (hq : q.predicate ∉ named.map (·.1))
    (hnew : q.predicate ∉ found.map (·.predicate)) :
    match store.term q.predicate with
    | .error e => enterEnd store way groups q = .error e
    | .ok t => ∃ groups', enterEnd store way groups q = .ok groups' ∧
        groups'.Holds (filed way (found ++ [q]) (named ++ [(q.predicate, t.tagName)])) := by
  have hkey : q.predicate ∉ (filed way found named).map Prod.fst := by rwa [keys_filed]
  rw [enterEnd, (h.place_eq_none_iff q.predicate).mpr hkey]
  cases store.term q.predicate with
  | error e => rfl
  | ok t =>
    refine ⟨_, rfl, ?_⟩
    have hnone : found.filter (·.predicate = q.predicate) = [] := by
      rw [List.filter_eq_nil_iff]
      intro q' hq' heq
      exact hnew (of_decide_eq_true heq ▸ List.mem_map_of_mem hq')
    have hfiled : filed way (found ++ [q]) (named ++ [(q.predicate, t.tagName)]) =
        filed way found named ++ [(q.predicate, t.tagName, [way.far q])] := by
      rw [← filed_of_not_mem way found q named hq, filed, List.map_append]
      simp [hnone, filed]
    rw [hfiled]
    exact h.push q.predicate _ hkey

theorem map_fst_named (found : List IndexedQuad) (terms : List Term)
    (h : (predicates found).mapM store.term = .ok terms) :
    ((predicates found).zip (terms.map Term.tagName)).map (·.1) = predicates found := by
  have hlength := ((mapM_eq_ok _ _ _).mp h).length_eq
  exact List.map_fst_zip (by rw [List.length_map, hlength])

/-- What comes of going through quads: the failure of the first predicate that has no term, or the
groups of all quads, named after the terms of their predicates. -/
def Files (store : QuadStore) (way : Way) (found : List IndexedQuad)
    (outcome : Except StoreError (Slots NodeId (String × List NodeId) compare)) : Prop :=
  match (predicates found).mapM store.term with
  | .error e => outcome = .error e
  | .ok terms => ∃ groups, outcome = .ok groups ∧
      groups.Holds (filed way found ((predicates found).zip (terms.map Term.tagName)))

theorem files_append_of_mem {way : Way} {found : List IndexedQuad} (q : IndexedQuad)
    {outcome : Except StoreError (Slots NodeId (String × List NodeId) compare)}
    (h : Files store way found outcome) (hq : q.predicate ∈ found.map (·.predicate)) :
    Files store way (found ++ [q]) (outcome >>= fun groups => enterEnd store way groups q) := by
  have hsame : predicates (found ++ [q]) = predicates found := by
    rw [predicates, List.map_append, List.map_singleton, eraseDups_concat, if_pos hq, predicates]
  unfold Files at h ⊢
  rw [hsame]
  cases hterms : (predicates found).mapM store.term with
  | error e =>
    rw [hterms] at h
    exact congrArg (· >>= fun groups => enterEnd store way groups q) h
  | ok terms =>
    rw [hterms] at h
    obtain ⟨groups, rfl, hholds⟩ := h
    have hmem := List.mem_eraseDups.mpr hq
    rw [← predicates, ← map_fst_named found terms hterms] at hmem
    exact enterEnd_of_mem q hholds hmem

theorem files_append_of_not_mem {way : Way} {found : List IndexedQuad} (q : IndexedQuad)
    {outcome : Except StoreError (Slots NodeId (String × List NodeId) compare)}
    (h : Files store way found outcome) (hq : q.predicate ∉ found.map (·.predicate)) :
    Files store way (found ++ [q]) (outcome >>= fun groups => enterEnd store way groups q) := by
  have hmore : predicates (found ++ [q]) = predicates found ++ [q.predicate] := by
    rw [predicates, List.map_append, List.map_singleton, eraseDups_concat, if_neg hq, predicates]
  have hmapM : (predicates (found ++ [q])).mapM store.term =
      (predicates found).mapM store.term >>= fun terms =>
        store.term q.predicate >>= fun t => pure (terms ++ [t]) := by
    simp [hmore, List.mapM_append]
  unfold Files at h ⊢
  rw [hmapM]
  cases hterms : (predicates found).mapM store.term with
  | error e =>
    rw [hterms] at h
    exact congrArg (· >>= fun groups => enterEnd store way groups q) h
  | ok terms =>
    rw [hterms] at h
    obtain ⟨groups, rfl, hholds⟩ := h
    have hnew : q.predicate ∉
        ((predicates found).zip (terms.map Term.tagName)).map (·.1) := by
      rw [map_fst_named found terms hterms]
      exact fun hmem => hq (List.mem_eraseDups.mp hmem)
    have hnext := @enterEnd_of_not_mem store way groups found _ q hholds hnew hq
    have hzip (t : Term) : (predicates (found ++ [q])).zip ((terms ++ [t]).map Term.tagName) =
        (predicates found).zip (terms.map Term.tagName) ++ [(q.predicate, t.tagName)] := by
      rw [hmore, List.map_append, List.zip_append]
      · rfl
      · rw [List.length_map, ((mapM_eq_ok _ _ _).mp hterms).length_eq]
    cases hterm : store.term q.predicate with
    | error e =>
      rw [hterm] at hnext
      exact hnext
    | ok t =>
      rw [hterm] at hnext
      simp only [← hzip] at hnext
      exact hnext

/-- One after the other, all quads go into the groups. -/
theorem files_foldlM (store : QuadStore) (way : Way) (found : List IndexedQuad) :
    Files store way found (found.foldlM (enterEnd store way) .empty) := by
  induction found using List.reverseRecOn with
  | nil => exact ⟨.empty, rfl, Slots.holds_empty⟩
  | append_singleton found q ih =>
    have hlast : (found ++ [q]).foldlM (enterEnd store way) .empty =
        found.foldlM (enterEnd store way) .empty >>= fun groups => enterEnd store way groups q := by
      simp [List.foldlM_append]
    rw [hlast]
    by_cases hq : q.predicate ∈ found.map (·.predicate)
    · exact files_append_of_mem q ih hq
    · exact files_append_of_not_mem q ih hq

/-- Saving everything makes all combinations of the far ends, if there are any quads. -/
theorem saveAll_eq (way : Way) (b : Binding) :
    saveAll store way b = store.quadsBy way.near b.node >>= fun found =>
      (predicates found).mapM store.term >>= fun terms =>
        pure (if found.isEmpty then [] else
          spread (farEnds way found ((predicates found).zip (terms.map Term.tagName))) [b]) := by
  refine bind_congr fun found => ?_
  have hgroups := files_foldlM store way found
  unfold Files at hgroups
  cases hterms : (predicates found).mapM store.term with
  | error e =>
    rw [hterms] at hgroups
    rw [hgroups]
    rfl
  | ok terms =>
    rw [hterms] at hgroups
    obtain ⟨groups, hok, hholds⟩ := hgroups
    have hitems : groups.items =
        farEnds way found ((predicates found).zip (terms.map Term.tagName)) := by
      rw [hholds.items, filed, List.map_map]
      rfl
    -- Every predicate has a group, so there are groups if there are quads.
    have hempty : groups.items.isEmpty = found.isEmpty := by
      have hlength := congrArg List.length (map_fst_named found terms hterms)
      rw [← isEmpty_predicates, hitems, Bool.eq_iff_iff, List.isEmpty_iff_length_eq_zero,
        List.isEmpty_iff_length_eq_zero, farEnds, List.length_map, ← hlength, List.length_map]
    rw [hok]
    change (if groups.items.isEmpty then _ else _) = _
    rw [hempty, hitems]
    split <;> rfl

end Walking

end QuadGraph
