import Mathlib.Data.List.Chain
import Mathlib.Data.List.SplitBy
import QuadGraph.Proofs.Query.Ahead

/-! How the two ways of putting documents together agree. Adjacent documents are those of the
longest runs of matches with one subject, and documents by subject are those of all matches of a
subject. Merging the ones that share a subject gives the others, and where the matches of every
subject stand in a row the two are the same. -/
namespace QuadGraph

/-- What does not come up again after something else comes up once, if nothing is followed by
itself. -/
theorem nodup_of_isChain_ne {α : Type} (xs : List α) (hchain : xs.IsChain (· ≠ ·))
    (h : ∀ a b, [a, b, a].Sublist xs → a = b) : xs.Nodup := by
  induction xs with
  | nil => exact List.nodup_nil
  | cons a rest ih =>
    have htail := List.isChain_cons.mp hchain
    refine List.nodup_cons.mpr ⟨?_, ih htail.2 fun b c hbc => h b c (hbc.cons a)⟩
    intro ha
    cases rest with
    | nil => cases ha
    | cons b rest =>
      have hne : a ≠ b := htail.1 b rfl
      have hlater : a ∈ rest := (List.mem_cons.mp ha).resolve_left hne
      exact hne (h a b (((List.singleton_sublist.mpr hlater).cons_cons b).cons_cons a))

namespace Document

variable {v : Vocabulary}

/-- A document is made of others by merging the first one with the next one, and so on. -/
def MergeOf (docs : List Document) (doc : Document) : Prop :=
  ∃ first others, docs = first :: others ∧ others.foldl merge first = doc

theorem tells_telling (records : List Record) (t : Term) (hne : records ≠ [])
    (ht : ∀ r ∈ records, r.subject = t) :
    Tells v records (telling t (records.flatMap (Record.entries v))) :=
  ⟨hne, ht, rfl⟩

theorem eq_of_tells (records : List Record) (doc : Document) (h : Tells v records doc) :
    doc = telling doc.subject (records.flatMap (Record.entries v)) := by
  rw [telling, ← h.properties]

theorem about_of_tells (records : List Record) (doc : Document) (h : Tells v records doc) :
    about v records doc.subject = records.flatMap (Record.entries v) := by
  rw [about, List.filter_eq_self.mpr]
  intro r hr
  exact decide_eq_true (h.subject r hr)

theorem about_of_tells_ne (records : List Record) (doc : Document) (h : Tells v records doc)
    (t : Term) (ht : doc.subject ≠ t) : about v records t = [] := by
  apply about_eq_nil
  intro hmem
  obtain ⟨r, hr, rfl⟩ := List.mem_map.mp hmem
  exact ht (h.subject r hr).symm

/-- The documents by subject tell all matches of their subjects. -/
theorem tells_collected (v : Vocabulary) (records : List Record) :
    List.Forall₂ (Tells v)
      ((records.map (·.subject)).eraseDups.map fun t => records.filter (·.subject = t))
      (collected v records) := by
  rw [collected, List.forall₂_map_left_iff, List.forall₂_map_right_iff, List.forall₂_same]
  intro t ht
  obtain ⟨r, hr, hsubject⟩ := List.mem_map.mp (List.mem_eraseDups.mp ht)
  apply tells_telling
  · exact List.ne_nil_of_mem (List.mem_filter.mpr ⟨hr, decide_eq_true hsubject⟩)
  · intro r' hr'
    exact of_decide_eq_true (List.mem_filter.mp hr').2

section Runs

open DocumentWalk

theorem splitBy_run (run : List Record) (t : Term) (hne : run ≠ [])
    (ht : ∀ r ∈ run, r.subject = t) :
    run.splitBy (fun a b => a.subject = b.subject) = [run] := by
  apply List.splitBy_of_isChain hne
  apply List.Pairwise.isChain
  apply List.pairwise_of_forall_mem_list
  intro a ha b hb
  exact decide_eq_true ((ht a ha).trans (ht b hb).symm)

/-- The pending document tells the run so far. A match goes on with the run, or it begins the next
one. -/
theorem tells_joinRuns (run records : List Record) (t : Term) (hne : run ≠ [])
    (ht : ∀ r ∈ run, r.subject = t) :
    List.Forall₂ (Tells v) ((run ++ records).splitBy fun a b => a.subject = b.subject)
      (joinRuns (some (telling t (run.flatMap (Record.entries v)))) (each v records)) := by
  induction records generalizing run t with
  | nil =>
    rw [List.append_nil, splitBy_run run t hne ht]
    exact .cons (tells_telling run t hne ht) .nil
  | cons r rest ih =>
    by_cases hr : r.subject = t
    · have hlonger : ∀ r' ∈ run ++ [r], r'.subject = t := by
        intro r' hr'
        rcases List.mem_append.mp hr' with hr' | hr'
        · exact ht r' hr'
        · rw [List.mem_singleton.mp hr', hr]
      have hmerge : (telling t (run.flatMap (Record.entries v))).merge
          (telling r.subject (r.entries v)) =
            telling t ((run ++ [r]).flatMap (Record.entries v)) := by
        rw [merge_telling, List.flatMap_append, List.flatMap_singleton]
      have hgoes := ih (run ++ [r]) t (by simp) hlonger
      rw [← hmerge, List.append_assoc] at hgoes
      rw [each, List.map_cons, joinRuns, subject_telling, subject_telling, if_pos hr.symm]
      exact hgoes
    · have hlast : ∀ r' ∈ run.getLast?, decide (r'.subject = r.subject) = false := by
        intro r' hr'
        rw [ht r' (List.mem_of_getLast? hr')]
        exact decide_eq_false (Ne.symm hr)
      have hbegins := ih [r] r.subject (by simp) (by simp)
      rw [List.flatMap_singleton] at hbegins
      rw [List.splitBy_append_cons rest hlast, splitBy_run run t hne ht, each, List.map_cons,
        joinRuns, subject_telling, subject_telling, if_neg (Ne.symm hr)]
      exact .cons (tells_telling run t hne ht) hbegins

/-- Adjacent documents tell the longest runs. -/
theorem tells_joinRuns_each (v : Vocabulary) (records : List Record) :
    List.Forall₂ (Tells v) (records.splitBy fun a b => a.subject = b.subject)
      (joinRuns none (each v records)) := by
  cases records with
  | nil => exact .nil
  | cons r rest =>
    have hruns := tells_joinRuns (v := v) [r] rest r.subject (by simp) (by simp)
    rw [List.flatMap_singleton] at hruns
    exact hruns

theorem isChain_joinRuns (p : Document) (docs : List Document) :
    ((joinRuns (some p) docs).map (·.subject)).IsChain (· ≠ ·) ∧
      ((joinRuns (some p) docs).map (·.subject)).head? = some p.subject := by
  induction docs generalizing p with
  | nil => exact ⟨.singleton _, rfl⟩
  | cons doc docs ih =>
    rw [joinRuns]
    split
    · rw [← subject_merge p doc]
      exact ih (p.merge doc)
    · next hother =>
      obtain ⟨hchain, hhead⟩ := ih doc
      refine ⟨List.isChain_cons.mpr ⟨?_, hchain⟩, rfl⟩
      intro t ht
      cases hhead.symm.trans ht
      exact hother

theorem sublist_joinRuns (p : Document) (docs : List Document) :
    ((joinRuns (some p) docs).map (·.subject)).Sublist (p.subject :: docs.map (·.subject)) := by
  induction docs generalizing p with
  | nil => exact List.Sublist.refl _
  | cons doc docs ih =>
    rw [joinRuns]
    split
    · have hrest := ih (p.merge doc)
      rw [subject_merge] at hrest
      exact hrest.trans ((List.sublist_cons_self _ _).cons_cons _)
    · exact (ih doc).cons_cons _

/-- Where the matches of every subject stand in a row, no two runs have the same subject. -/
theorem nodup_joinRuns (docs : List Document)
    (h : ∀ s t, [s, t, s].Sublist (docs.map (·.subject)) → s = t) :
    ((joinRuns none docs).map (·.subject)).Nodup := by
  cases docs with
  | nil => exact List.nodup_nil
  | cons doc docs =>
    rw [joinRuns]
    apply nodup_of_isChain_ne _ (isChain_joinRuns doc docs).1
    intro s t hst
    exact h s t (hst.trans (sublist_joinRuns doc docs))

end Runs

/-- Documents that tell some groups of matches have the subjects of these, and the ones of a subject
tell together what its matches tell. -/
theorem merge_of_tells (groups : List (List Record)) (docs : List Document)
    (h : List.Forall₂ (Tells v) groups docs) :
    (docs.map (·.subject)).eraseDups = (groups.flatten.map (·.subject)).eraseDups ∧
      ∀ t known, (docs.filter (·.subject = t)).foldl merge (telling t known) =
        telling t (known ++ about v groups.flatten t) := by
  induction h with
  | nil =>
    refine ⟨rfl, fun t known => ?_⟩
    rw [List.flatten_nil, show about v [] t = [] from rfl, List.append_nil]
    rfl
  | @cons records doc groups docs hdoc _ ih =>
    obtain ⟨hsubjects, hmerge⟩ := ih
    constructor
    · have hsame : (records.map (·.subject)).eraseDups = [doc.subject].eraseDups := by
        rw [List.map_congr_left hdoc.subject, List.map_eq_flatMap]
        exact eraseDups_flatMap_const records [doc.subject] hdoc.nonempty
      rw [List.map_cons, List.flatten_cons, List.map_append]
      exact eraseDups_append_congr [doc.subject] _ _ _ hsame.symm hsubjects
    · intro t known
      rw [List.flatten_cons, about_append, ← List.append_assoc]
      by_cases ht : doc.subject = t
      · subst ht
        rw [List.filter_cons_of_pos (by simp), List.foldl_cons, eq_of_tells records doc hdoc]
        rw [subject_telling, merge_telling, hmerge, about_of_tells records doc hdoc]
      · rw [List.filter_cons_of_neg (by simpa using ht), hmerge, about_of_tells_ne _ _ hdoc t ht,
          List.append_nil]

theorem mergeOf_of_tells (groups : List (List Record)) (docs : List Document)
    (h : List.Forall₂ (Tells v) groups docs) :
    List.Forall₂ MergeOf
      ((docs.map (·.subject)).eraseDups.map fun t => docs.filter (·.subject = t))
      (collected v groups.flatten) := by
  obtain ⟨hsubjects, hmerge⟩ := merge_of_tells groups docs h
  rw [collected, ← hsubjects, List.forall₂_map_left_iff, List.forall₂_map_right_iff,
    List.forall₂_same]
  intro t ht
  cases hfilter : docs.filter (·.subject = t) with
  | nil =>
    obtain ⟨doc, hdoc, hsubject⟩ := List.mem_map.mp (List.mem_eraseDups.mp ht)
    exact absurd (decide_eq_true hsubject) (List.filter_eq_nil_iff.mp hfilter doc hdoc)
  | cons first others =>
    refine ⟨first, others, rfl, ?_⟩
    have hfirst : first ∈ docs.filter (·.subject = t) := hfilter ▸ List.mem_cons_self
    obtain ⟨hmem, hsubject⟩ := List.mem_filter.mp hfirst
    obtain ⟨records, -, htells⟩ := Outcome.exists_of_forall₂_right h first hmem
    -- Nothing is lost or added where merging begins with a document that tells nothing.
    have hbegin : (telling t []).merge first = first := by
      rw [eq_of_tells records first htells, of_decide_eq_true hsubject]
      exact merge_telling t t [] _
    calc others.foldl merge first
        = (docs.filter (·.subject = t)).foldl merge (telling t []) := by
          rw [hfilter, List.foldl_cons, hbegin]
      _ = telling t (about v groups.flatten t) := hmerge t []

/-- Where no two groups have the same subject, their documents are those by subject. -/
theorem eq_collected_of_nodup (groups : List (List Record)) (docs : List Document)
    (h : List.Forall₂ (Tells v) groups docs) (hdocs : (docs.map (·.subject)).Nodup) :
    docs = collected v groups.flatten := by
  obtain ⟨hsubjects, hmerge⟩ := merge_of_tells groups docs h
  have hself (doc : Document) (hdoc : doc ∈ docs) :
      doc = telling doc.subject (about v groups.flatten doc.subject) := by
    obtain ⟨records, -, htells⟩ := Outcome.exists_of_forall₂_right h doc hdoc
    have hall := hmerge doc.subject []
    rw [filter_eq_singleton (·.subject) docs doc hdoc hdocs] at hall
    calc doc = (telling doc.subject []).merge doc := by
          rw [eq_of_tells records doc htells]
          exact (merge_telling _ _ [] _).symm
      _ = telling doc.subject (about v groups.flatten doc.subject) := hall
  rw [collected, ← hsubjects, eraseDups_of_nodup _ hdocs, List.map_map]
  conv_lhs => rw [← List.map_id docs]
  exact List.map_congr_left hself

end Document

namespace DocumentWalk

/-- Where everything ahead can be read, nothing stops the walk, and its documents are made of what
is read. -/
theorem gather_of_ahead (r : RecordWalk) (records : List Record) (h : r.ahead = .ok records) :
    ((start r .adjacent).gather .live).1 =
        joinRuns none (Document.each r.walk.vocabulary records) ∧
      ((start r .bySubject).gather .live).1 = Document.collected r.walk.vocabulary records ∧
      ∀ grouping, ((start r grouping).gather .live).2.error? = none := by
  obtain ⟨last, hpull, hnone⟩ := r.pullAll_of_ahead records h
  have hopen : last.error?.isSome = false := Option.isSome_eq_false_iff.mpr (by simp [hnone])
  obtain ⟨hadjacent, hadjacent'⟩ := @gather_adjacent .live (start r .adjacent) rfl
  obtain ⟨hbySubject, hbySubject'⟩ := @gather_bySubject .live r
  simp only [start] at hadjacent hadjacent'
  rw [hpull] at hadjacent hadjacent' hbySubject hbySubject'
  simp only [completed, hopen, Bool.false_eq_true, if_false] at hadjacent hbySubject
  refine ⟨hadjacent, ?_, ?_⟩
  · have hfound := Document.found_foldl_each r.walk.vocabulary [] records .empty
      Document.found_empty
    exact hbySubject.trans (Document.items_of_found _ _ hfound)
  · intro grouping
    cases grouping with
    | adjacent => exact (congrArg RecordWalk.error? hadjacent').trans hnone
    | bySubject => exact (congrArg RecordWalk.error? hbySubject').trans hnone

theorem collect_of_ahead (r : RecordWalk) (records : List Record) (h : r.ahead = .ok records)
    (grouping : Grouping) :
    ((Results.documents (start r grouping)).collect .live).1 =
      .ok (((start r grouping).gather .live).1.map Document.toJson) := by
  obtain ⟨-, -, hnone⟩ := gather_of_ahead r records h
  rw [Results.collect_documents, hnone]

/-- Of whatever is read along a walk, adjacent documents tell the longest runs of matches with one
subject, and documents by subject tell all matches of a subject; merging the adjacent documents that
share a subject makes the documents by subject. Where the matches of every subject stand in a row,
nothing needs to be merged, and the results are the same. -/
theorem gather_regrouped (r : RecordWalk) (records : List Record) (h : r.ahead = .ok records) :
    let v := r.walk.vocabulary
    let documents (grouping : Grouping) := ((start r grouping).gather .live).1
    (∀ grouping, ((Results.documents (start r grouping)).collect .live).1 =
      .ok ((documents grouping).map Document.toJson)) ∧
    List.Forall₂ (Document.Tells v) (records.splitBy fun a b => a.subject = b.subject)
      (documents .adjacent) ∧
    List.Forall₂ (Document.Tells v)
      ((records.map (·.subject)).eraseDups.map fun t => records.filter (·.subject = t))
      (documents .bySubject) ∧
    List.Forall₂ Document.MergeOf
      (((documents .adjacent).map (·.subject)).eraseDups.map fun t =>
        (documents .adjacent).filter (·.subject = t))
      (documents .bySubject) ∧
    ((∀ s t, [s, t, s].Sublist (records.map (·.subject)) → s = t) →
      documents .adjacent = documents .bySubject) := by
  intro v documents
  obtain ⟨hadjacent, hbySubject, -⟩ := gather_of_ahead r records h
  have hruns := Document.tells_joinRuns_each v records
  refine ⟨collect_of_ahead r records h, ?_, ?_, ?_, ?_⟩
  · simp only [documents, hadjacent]
    exact hruns
  · simp only [documents, hbySubject]
    exact Document.tells_collected v records
  · have hmerge := Document.mergeOf_of_tells _ _ hruns
    rw [List.flatten_splitBy] at hmerge
    simp only [documents, hadjacent, hbySubject]
    exact hmerge
  · intro hrow
    have hsubjects : (Document.each v records).map (·.subject) = records.map (·.subject) := by
      rw [Document.each, List.map_map]
      rfl
    have hnodup := Document.nodup_joinRuns (Document.each v records) (hsubjects ▸ hrow)
    have hsame := Document.eq_collected_of_nodup _ _ hruns hnodup
    rw [List.flatten_splitBy] at hsame
    simp only [documents, hadjacent, hbySubject]
    exact hsame

/-- Whom somebody likes, where the walk comes back to the first one: three runs of two subjects.
Where it does not come back, the two ways of putting documents together are the same. -/
theorem gather_regrouped_coming_back :
    let g := Graph.ofQuads [.ofIris "alice" "likes" "bob" "", .ofIris "alice" "likes" "carol" "",
      .ofIris "bob" "likes" "carol" ""]
    let walk (nodes : List NodeId) : RecordWalk :=
      ⟨.start g.toStore .standard (.save (.fixed nodes) .forward .all "likes"), []⟩
    let documents (nodes : List NodeId) (grouping : Grouping) :=
      ((start (walk nodes) grouping).gather .live).1
    (documents [⟨0⟩, ⟨2⟩, ⟨0⟩] .adjacent).length = 3 ∧
      (documents [⟨0⟩, ⟨2⟩, ⟨0⟩] .bySubject).length = 2 ∧
      documents [⟨0⟩, ⟨2⟩] .adjacent = documents [⟨0⟩, ⟨2⟩] .bySubject := by
  intro g walk documents
  let likes (s o : String) : Record := ⟨.iri s, [("likes", .iri o)]⟩
  let once := [likes "alice" "bob", likes "alice" "carol", likes "bob" "carol"]
  let again := [likes "alice" "bob", likes "alice" "carol"]
  have honce : (walk [⟨0⟩, ⟨2⟩]).ahead = .ok once := by with_unfolding_all rfl
  have hagain : (walk [⟨0⟩, ⟨2⟩, ⟨0⟩]).ahead = .ok (once ++ again) := by with_unfolding_all rfl
  obtain ⟨-, hruns, hsubjects, -⟩ := gather_regrouped _ _ hagain
  obtain ⟨-, -, -, -, hsame⟩ := gather_regrouped _ _ honce
  refine ⟨hruns.length_eq.symm.trans (by decide +kernel),
    hsubjects.length_eq.symm.trans (by decide +kernel), hsame ?_⟩
  intro s t hrow
  -- There are only three matches, and the last one has another subject than the first one.
  have hall : [s, t, s] = once.map (·.subject) := hrow.eq_of_length rfl
  obtain ⟨hfirst, -, hlast⟩ : s = .iri "alice" ∧ t = .iri "alice" ∧ s = .iri "bob" := by
    simpa [once, likes] using hall
  exact absurd (hfirst.symm.trans hlast) (by decide)

end DocumentWalk

end QuadGraph
