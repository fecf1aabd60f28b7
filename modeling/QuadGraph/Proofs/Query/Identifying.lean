import QuadGraph.Proofs.Json.Members
import QuadGraph.Proofs.Query.Ahead
import QuadGraph.Proofs.Query.Keeping
import QuadGraph.Proofs.Query.Session

/-! What documents say about whom. Every document, however the walk along it is driven, tells what
is read at some matches of the path with one subject. It names the subject under a key of its own,
unless one of the tags has taken this key. -/
namespace QuadGraph

open Outcome

/-- A match of a path that begins by itself. -/
def Path.Finds (store : QuadStore) (path : Path) (b : Binding) : Prop :=
  ∃ found, store.execute path = .ok found ∧ b ∈ found

/-- What is read at some match of a path. -/
def Path.Tells (store : QuadStore) (path : Path) (selected : List String) (r : Record) : Prop :=
  ∃ b, path.Finds store b ∧ b.told selected store = .ok r

namespace Document

variable {v : Vocabulary} {known : Record → Prop}

/-- A document that tells some matches, all of them known. -/
def MadeOf (v : Vocabulary) (known : Record → Prop) (doc : Document) : Prop :=
  ∃ records, doc.Tells v records ∧ ∀ r ∈ records, known r

theorem madeOf_telling (r : Record) (h : known r) :
    (telling r.subject (r.entries v)).MadeOf v known := by
  refine ⟨[r], ⟨List.cons_ne_nil r [], ?_, ?_⟩, by simpa using h⟩
  · intro r' hr'
    rw [List.mem_singleton.mp hr', subject_telling]
  · rw [List.flatMap_singleton, telling]

theorem madeOf_merge (d other : Document) (hd : d.MadeOf v known) (hother : other.MadeOf v known)
    (h : d.subject = other.subject) : (d.merge other).MadeOf v known := by
  obtain ⟨xs, hxs, hknown⟩ := hd
  obtain ⟨ys, hys, hknown'⟩ := hother
  have hmerge : d.merge other =
      telling d.subject ((xs ++ ys).flatMap (Record.entries v)) := by
    rw [List.flatMap_append, ← merge_telling d.subject other.subject, telling, telling,
      ← hxs.properties, ← hys.properties]
  refine ⟨xs ++ ys, ⟨by simp [hxs.nonempty], ?_, ?_⟩, ?_⟩
  · intro r hr
    rw [subject_merge]
    rcases List.mem_append.mp hr with hr | hr
    · exact hxs.subject r hr
    · rw [h]
      exact hys.subject r hr
  · rw [hmerge, telling]
  · intro r hr
    rcases List.mem_append.mp hr with hr | hr
    · exact hknown r hr
    · exact hknown' r hr

theorem madeOf_insert (doc : Document) (docs : List Document) (hdoc : doc.MadeOf v known)
    (hdocs : ∀ d ∈ docs, d.MadeOf v known) : ∀ d ∈ doc.insert docs, d.MadeOf v known := by
  intro d hd
  unfold insert at hd
  split at hd
  · obtain ⟨d', hd', rfl⟩ := List.mem_map.mp hd
    split
    · next hsame => exact madeOf_merge d' doc (hdocs d' hd') hdoc hsame
    · exact hdocs d' hd'
  · rcases List.mem_append.mp hd with hd | hd
    · exact hdocs d hd
    · rwa [List.mem_singleton.mp hd]

/-- A key of a document gives the values of the tag of this name, if there is one, and the key of
the subject gives the subject otherwise. -/
theorem get?_toJson (records : List Record) (doc : Document) (h : doc.Tells v records)
    (key : String) :
    let entries := records.flatMap (Record.entries v)
    doc.toJson.get? key =
      if key ∈ entries.map (·.1) then
        some (.array ((valuesOf key entries).eraseDups.map JsonLd.toJson))
      else if key = "@id" then some (.string doc.subject.lexical) else none := by
  intro entries
  let values (name : String) : Json :=
    .array ((valuesOf name entries).eraseDups.map JsonLd.toJson)
  have htable : doc.properties.map (fun property =>
      (property.1, Json.array (property.2.map JsonLd.toJson))) =
        (entries.map (·.1)).eraseDups.map fun name => (name, values name) := by
    rw [h.properties, tabulate, List.map_map]
    rfl
  have hnames : key ∈ (entries.map (·.1)).eraseDups.reverse ↔ key ∈ entries.map (·.1) := by
    rw [List.mem_reverse, List.mem_eraseDups]
  have hlast : Json.member? key [("@id", Json.string doc.subject.lexical)] =
      if key = "@id" then some (.string doc.subject.lexical) else none :=
    Json.member?_cons key _ []
  -- The identifier was put in first, so it counts only where no tag has its name.
  rw [toJson, Json.get?_ofMembers, List.reverse_cons, Json.member?, List.lookup_append, htable,
    ← List.map_reverse, ← Json.member?, ← Json.member?, Json.member?_table, hlast]
  simp only [hnames]
  by_cases hkey : key ∈ entries.map (·.1)
  · rw [if_pos hkey, if_pos hkey, Option.some_or]
  · rw [if_neg hkey, if_neg hkey, Option.none_or]

/-- A JSON value that is the document of some matches of one subject: under the name of every tag
the forms of its distinct terms, in the order in which they come up first, under the key of the
subject its lexical form, unless a tag has taken this key, and nothing else. -/
def WrittenAs (v : Vocabulary) (records : List Record) (json : Json) : Prop :=
  ∃ subject, records ≠ [] ∧ (∀ r ∈ records, r.subject = subject) ∧
    let entries := records.flatMap (Record.entries v)
    json.IsObject fun key =>
      if key ∈ entries.map (·.1) then
        some (.array ((valuesOf key entries).eraseDups.map JsonLd.toJson))
      else if key = "@id" then some (.string subject.lexical) else none

theorem writtenAs_of_tells (records : List Record) (doc : Document) (h : doc.Tells v records) :
    WrittenAs v records doc.toJson := by
  exact ⟨doc.subject, h.nonempty, h.subject,
    Json.isObject_ofMembers _ _ (doc.get?_toJson records h)⟩

end Document

namespace Walk

variable {store : QuadStore} {v : Vocabulary} {path : Path}

/-- A walk along the matches of a path over a store, under a vocabulary. -/
structure Along (store : QuadStore) (v : Vocabulary) (path : Path) (w : Walk) : Prop where
  store_eq : w.store = store
  vocabulary_eq : w.vocabulary = v
  path_eq : w.path = path
  state (current : Binding) (rest : List Binding) :
    w.state = .standing current rest → ∀ b ∈ current :: rest, path.Finds store b

theorem along_fail (w : Walk) (e : QueryError) (h : w.Along store v path) :
    (w.fail e).Along store v path :=
  ⟨h.store_eq, h.vocabulary_eq, h.path_eq, nofun⟩

theorem along_goTo (w : Walk) (found : List Binding) (h : w.Along store v path)
    (hf : ∀ b ∈ found, path.Finds store b) : (w.goTo found).2.Along store v path := by
  cases found with
  | nil => exact ⟨h.store_eq, h.vocabulary_eq, h.path_eq, nofun⟩
  | cons b rest =>
    refine ⟨h.store_eq, h.vocabulary_eq, h.path_eq, ?_⟩
    rintro _ _ ⟨⟩
    exact hf

theorem keeps_along (token : Token) : Keeps token (Along store v path) := by
  constructor
  · intro w h
    unfold advance
    split
    · exact h
    · split
      · exact w.along_fail _ h
      · rw [h.store_eq, h.path_eq]
        split
        · next found hexec => exact w.along_goTo found h fun b hb => ⟨found, hexec, hb⟩
        · exact w.along_fail _ h
    · next b rest hstanding =>
      split
      · exact w.along_fail _ h
      · exact w.along_goTo rest h fun b' hb' =>
          h.state b rest hstanding b' (List.mem_cons_of_mem b hb')
  · intro w b n h _ _
    unfold resolve
    split
    · exact h
    · exact w.along_fail _ h
    · exact w.along_fail _ h

theorem finds_of_along (w : Walk) (b : Binding) (h : w.Along store v path)
    (hb : w.binding? = some b) : path.Finds store b := by
  unfold binding? at hb
  split at hb
  · next current rest hstanding =>
    cases hb
    exact h.state b rest hstanding b List.mem_cons_self
  · cases hb

end Walk

variable {token : Token} {store : QuadStore} {v : Vocabulary} {path : Path}
  {selected : List String}

/-- A walk along what is read at the matches of a path. -/
structure RecordWalk.Along (store : QuadStore) (v : Vocabulary) (path : Path)
    (selected : List String) (r : RecordWalk) : Prop where
  walk : r.walk.Along store v path
  selected_eq : r.selected = selected

/-- A document that is pulled tells a match of the path. -/
theorem RecordWalk.along_pull (token : Token) (r : RecordWalk)
    (h : r.Along store v path selected) :
    (r.pull token).2.Along store v path selected ∧
      ∀ doc ∈ (r.pull token).1, doc.MadeOf v (path.Tells store selected) := by
  have hnext := (Walk.keeps_along token).advance r.walk h.walk
  cases hadvance : r.walk.advance token with
  | mk found w =>
    rw [hadvance] at hnext
    cases found with
    | false =>
      have hpull : r.pull token = (none, { r with walk := w }) := by
        rw [pull, advance, hadvance]
      rw [hpull]
      exact ⟨⟨hnext, h.selected_eq⟩, by simp⟩
    | true =>
      obtain ⟨b, hb⟩ := r.walk.standing_of_advance (by rw [hadvance])
      rw [hadvance] at hb
      rw [r.pull_of_advance token w b hadvance hb]
      cases htold : b.told r.selected w.store with
      | error e => exact ⟨⟨w.along_fail e hnext, h.selected_eq⟩, by simp⟩
      | ok record =>
        refine ⟨⟨hnext, h.selected_eq⟩, ?_⟩
        rintro _ ⟨⟩
        rw [hnext.store_eq, h.selected_eq] at htold
        rw [hnext.vocabulary_eq]
        exact Document.madeOf_telling record ⟨b, w.finds_of_along b hnext hb, htold⟩

namespace DocumentWalk

/-- A walk along documents, all of which tell matches of a path. -/
structure Along (store : QuadStore) (v : Vocabulary) (path : Path) (selected : List String)
    (d : DocumentWalk) : Prop where
  records : d.records.Along store v path selected
  pending : ∀ doc ∈ d.pending, doc.MadeOf v (path.Tells store selected)
  ready : ∀ doc ∈ d.ready, doc.MadeOf v (path.Tells store selected)
  current : ∀ doc ∈ d.current, doc.MadeOf v (path.Tells store selected)

theorem along_nextAdjacent (token : Token) (records : RecordWalk) (pending : Option Document)
    (hr : records.Along store v path selected)
    (hp : ∀ doc ∈ pending, doc.MadeOf v (path.Tells store selected)) :
    let pulled := nextAdjacent token records pending
    pulled.2.2.Along store v path selected ∧
      (∀ doc ∈ pulled.1, doc.MadeOf v (path.Tells store selected)) ∧
      ∀ doc ∈ pulled.2.1, doc.MadeOf v (path.Tells store selected) := by
  fun_induction nextAdjacent token records pending with
  | case1 records doc records' hpull ih =>
    obtain ⟨hnext, hdoc⟩ := hpull ▸ records.along_pull token hr
    exact ih hnext hdoc
  | case2 records doc records' hpull p hsame ih =>
    obtain ⟨hnext, hdoc⟩ := hpull ▸ records.along_pull token hr
    apply ih hnext
    rintro _ ⟨⟩
    exact Document.madeOf_merge p doc (hp p rfl) (hdoc doc rfl) hsame
  | case3 records doc records' hpull p hother =>
    obtain ⟨hnext, hdoc⟩ := hpull ▸ records.along_pull token hr
    exact ⟨hnext, hp, hdoc⟩
  | case4 records pending records' hpull =>
    obtain ⟨hnext, -⟩ := hpull ▸ records.along_pull token hr
    refine ⟨hnext, ?_, by simp⟩
    simp only
    split
    · simp
    · exact hp

theorem along_drain (token : Token) (records : RecordWalk)
    (slots : Slots Term Document Term.compareKey) (docs : List Document)
    (hr : records.Along store v path selected) (hslots : Document.Found slots docs)
    (hdocs : ∀ doc ∈ docs, doc.MadeOf v (path.Tells store selected)) :
    (drain token records slots).2.Along store v path selected ∧
      ∀ doc ∈ (drain token records slots).1.items,
        doc.MadeOf v (path.Tells store selected) := by
  fun_induction drain token records slots generalizing docs with
  | case1 records slots doc records' hpull ih =>
    obtain ⟨hnext, hdoc⟩ := hpull ▸ records.along_pull token hr
    exact ih (doc.insert docs) hnext (Document.found_insertInto slots docs doc hslots)
      (Document.madeOf_insert doc docs (hdoc doc rfl) hdocs)
  | case2 records slots records' hpull =>
    obtain ⟨hnext, -⟩ := hpull ▸ records.along_pull token hr
    rw [Document.items_of_found slots docs hslots]
    exact ⟨hnext, hdocs⟩

theorem along_fill (token : Token) (d : DocumentWalk) (h : d.Along store v path selected) :
    (d.fill token).Along store v path selected := by
  unfold fill
  split
  · exact h
  · obtain ⟨hnext, hdocs⟩ :=
      along_drain token d.records .empty [] h.records Document.found_empty nofun
    refine ⟨hnext, h.pending, ?_, h.current⟩
    simp only
    split
    · exact h.ready
    · exact hdocs

theorem along_advance (token : Token) (d : DocumentWalk) (h : d.Along store v path selected) :
    (d.advance token).2.Along store v path selected := by
  cases hg : d.grouping with
  | adjacent =>
    obtain ⟨hnext, hfound, hpending⟩ := along_nextAdjacent token d.records d.pending h.records
      h.pending
    rw [d.advance_adjacent token hg]
    exact ⟨hnext, hpending, h.ready, hfound⟩
  | bySubject =>
    have hfill := d.along_fill token h
    rw [d.advance_bySubject token hg]
    refine ⟨hfill.records, hfill.pending, ?_, ?_⟩
    · exact fun doc hdoc => hfill.ready doc (List.mem_of_mem_tail hdoc)
    · exact fun doc hdoc => hfill.ready doc (List.mem_of_mem_head? hdoc)

end DocumentWalk

namespace Session

/-- Documents that are being walked, all of which tell matches of a path. -/
def Along (store : QuadStore) (v : Vocabulary) (path : Path) (selected : List String)
    (s : Session) : Prop :=
  ∃ d : DocumentWalk, s.results = .documents d ∧ d.Along store v path selected

theorem along_serve (s : Session) (h : s.Along store v path selected) (request : Request) :
    (∀ json, (s.serve request).1 = .result (some json) →
      ∃ doc : Document, json = doc.toJson ∧ doc.MadeOf v (path.Tells store selected)) ∧
      (s.serve request).2.Along store v path selected := by
  obtain ⟨d, hd, halong⟩ := h
  cases request with
  | next =>
    refine ⟨by rintro _ ⟨⟩, (d.advance s.token).2, ?_, d.along_advance s.token halong⟩
    rw [serve, hd]
    rfl
  | result =>
    constructor
    · intro json hjson
      rw [serve, hd] at hjson
      obtain ⟨doc, hdoc, rfl⟩ := Option.map_eq_some_iff.mp (Answer.result.inj hjson)
      exact ⟨doc, rfl, halong.current doc hdoc⟩
    · refine ⟨d, ?_, halong⟩
      rw [serve, hd]
      rfl
  | error => exact ⟨by rintro _ ⟨⟩, d, hd, halong⟩
  | cancel => exact ⟨by rintro _ ⟨⟩, d, hd, halong⟩

/-- Every document that is given out, whenever and after whatever requests, tells what is read at
some matches of the path with one subject. Under the key of the identifier it has the lexical form
of this subject, exactly if no tag of these matches has the name of that key; otherwise it has the
values of the tag. -/
theorem run_identifies (store : QuadStore) (v : Vocabulary) (path : Path) (selected : List String)
    (grouping : Grouping) (token : Token) (requests : List Request) (json : Json) :
    let r : Results := .documents (.start ⟨.start store v path, selected⟩ grouping)
    .result (some json) ∈ (run ⟨r, token⟩ requests).1 →
      ∃ (doc : Document) (records : List Record), json = doc.toJson ∧ doc.Tells v records ∧
        (∀ record ∈ records, path.Tells store selected record) ∧
        let entries := records.flatMap (Record.entries v)
        json.get? "@id" =
          if "@id" ∈ entries.map (·.1) then
            some (.array ((Document.valuesOf "@id" entries).eraseDups.map JsonLd.toJson))
          else some (.string doc.subject.lexical) := by
  intro r hjson
  have hstart : Along store v path selected ⟨r, token⟩ :=
    ⟨_, rfl, ⟨⟨rfl, rfl, rfl, nofun⟩, rfl⟩, nofun, nofun, nofun⟩
  have hanswers := (run_meets (Along store v path selected)
    (fun a => ∀ json, a = .result (some json) →
      ∃ doc : Document, json = doc.toJson ∧ doc.MadeOf v (path.Tells store selected))
    requests (fun s hs request _ => s.along_serve hs request) _ hstart).1
  obtain ⟨doc, rfl, records, htells, hknown⟩ := hanswers _ hjson json rfl
  have hid := doc.get?_toJson records htells "@id"
  rw [if_pos (rfl : "@id" = "@id")] at hid
  exact ⟨doc, records, rfl, htells, hknown, hid⟩

/-- The document of somebody who has been named: it tells the name and who it is about. -/
theorem run_identifies_friend :
    let store := (Graph.ofQuads [.ofIris "alice" "likes" "bob" ""]).toStore
    let path : Path := .tag (.fixed [⟨0⟩]) "friend"
    let r : Results := .documents (.start ⟨.start store .standard path, []⟩ .bySubject)
    ∃ (json : Json) (doc : Document) (records : List Record),
      (run ⟨r, .live⟩ [.next, .result]).1 = [.next true, .result (some json)] ∧
      json = doc.toJson ∧ doc.Tells .standard records ∧
      (∀ record ∈ records, path.Tells store [] record) ∧
      json.get? "@id" = some (.string "alice") := by
  intro store path r
  let json := Document.toJson ⟨.iri "alice", [("friend", [.reference "alice"])]⟩
  have hanswers : (run ⟨r, .live⟩ [.next, .result]).1 = [.next true, .result (some json)] := by
    with_unfolding_all rfl
  obtain ⟨doc, records, hdoc, htells, hknown, -⟩ :=
    run_identifies store .standard path [] .bySubject .live [.next, .result] json
      (hanswers ▸ List.mem_cons_of_mem _ List.mem_cons_self)
  exact ⟨json, doc, records, hanswers, hdoc, htells, hknown, by with_unfolding_all rfl⟩

/-- Somebody named by the key of the identifier: however documents are put together, this key gives
the values of the tag and not the subject. -/
theorem run_loses_subject :
    let store := (Graph.ofQuads [.ofIris "alice" "likes" "bob" ""]).toStore
    let path : Path := .tag (.fixed [⟨0⟩]) "@id"
    let answers (grouping : Grouping) : List Answer :=
      (run ⟨.documents (.start ⟨.start store .standard path, []⟩ grouping), .live⟩
        [.next, .result]).1
    let json := Document.toJson ⟨.iri "alice", [("@id", [.reference "alice"])]⟩
    answers .adjacent = [.next true, .result (some json)] ∧
      answers .bySubject = [.next true, .result (some json)] ∧
      json.get? "@id" = some (.array [.object [("@id", .string "alice")]]) ∧
      json.get? "@id" ≠ some (.string (Term.iri "alice").lexical) := by
  intro store path answers json
  have hvalues : json.get? "@id" = some (.array [.object [("@id", .string "alice")]]) := by
    with_unfolding_all rfl
  refine ⟨by with_unfolding_all rfl, by with_unfolding_all rfl, hvalues, ?_⟩
  rw [hvalues]
  exact nofun

end Session

end QuadGraph
