import Mathlib.Data.List.Count
import QuadGraph.Proofs.FirstSeen
import QuadGraph.Proofs.Slots
import QuadGraph.Query.Document

/-! What documents tell. A document is a table of the entries that were added to it: every name
once, with its distinct values, all in the order in which they came up first. Adding an entry,
merging documents and putting a document among others lead from such tables to such tables. -/
namespace QuadGraph

/-- What is read at a match: the term of its node and the terms of its tags. -/
structure Record where
  subject : Term
  tags : List (String × Term)

/-- What a match adds to a document. -/
def Record.entries (v : Vocabulary) (r : Record) : List (String × JsonLd) :=
  r.tags.map fun tag => (tag.1, JsonLd.encode v tag.2)

namespace Document

/-- The values of a name among some entries. -/
def valuesOf (name : String) (entries : List (String × JsonLd)) : List JsonLd :=
  (entries.filter (·.1 = name)).map (·.2)

/-- Every name of some entries once, with its distinct values, in the order in which they come up
first. -/
def tabulate (entries : List (String × JsonLd)) : List (String × List JsonLd) :=
  (entries.map (·.1)).eraseDups.map fun name => (name, (valuesOf name entries).eraseDups)

/-- A document of some matches of one subject, which tells all that their tags say. -/
structure Tells (v : Vocabulary) (records : List Record) (doc : Document) : Prop where
  nonempty : records ≠ []
  subject (r : Record) : r ∈ records → r.subject = doc.subject
  properties : doc.properties = tabulate (records.flatMap (Record.entries v))

/-- The document of a subject and some entries. -/
def telling (subject : Term) (entries : List (String × JsonLd)) : Document :=
  ⟨subject, tabulate entries⟩

@[simp] theorem subject_telling (subject : Term) (entries : List (String × JsonLd)) :
    (telling subject entries).subject = subject :=
  rfl

theorem valuesOf_append (name : String) (xs ys : List (String × JsonLd)) :
    valuesOf name (xs ++ ys) = valuesOf name xs ++ valuesOf name ys := by
  simp [valuesOf]

theorem valuesOf_flatMap {α : Type} (name : String) (f : α → List (String × JsonLd))
    (xs : List α) : valuesOf name (xs.flatMap f) = xs.flatMap fun x => valuesOf name (f x) := by
  simp only [valuesOf, List.filter_flatMap, List.map_flatMap]

theorem valuesOf_eq_nil (name : String) (entries : List (String × JsonLd))
    (h : name ∉ entries.map (·.1)) : valuesOf name entries = [] := by
  rw [valuesOf, List.map_eq_nil_iff, List.filter_eq_nil_iff]
  intro entry hentry hname
  apply h
  rw [← of_decide_eq_true hname]
  exact List.mem_map_of_mem hentry

theorem valuesOf_ne_nil (name : String) (entries : List (String × JsonLd))
    (h : name ∈ entries.map (·.1)) : valuesOf name entries ≠ [] := by
  obtain ⟨entry, hentry, hname⟩ := List.mem_map.mp h
  rw [valuesOf, ne_eq, List.map_eq_nil_iff, List.filter_eq_nil_iff]
  intro hnone
  exact hnone entry hentry (decide_eq_true hname)

/-- A table depends only on what comes up first. -/
theorem tabulate_congr (xs ys : List (String × JsonLd))
    (hnames : (xs.map (·.1)).eraseDups = (ys.map (·.1)).eraseDups)
    (hvalues : ∀ name, (valuesOf name xs).eraseDups = (valuesOf name ys).eraseDups) :
    tabulate xs = tabulate ys := by
  simp only [tabulate, hnames, hvalues]

theorem addTo_eq_upsert (name : String) (value : JsonLd) (table : List (String × List JsonLd)) :
    addTo name value table = upsert name [value]
      (fun values => if values.contains value then values else values ++ [value]) table := by
  induction table with
  | nil => rfl
  | cons entry rest ih => rw [addTo, upsert, ih]

theorem addTo_tabulate (name : String) (value : JsonLd) (entries : List (String × JsonLd)) :
    addTo name value (tabulate entries) = tabulate (entries ++ [(name, value)]) := by
  have hself : valuesOf name [(name, value)] = [value] := by simp [valuesOf]
  rw [addTo_eq_upsert, tabulate, tabulate, List.map_append, List.map_singleton]
  apply upsert_map_eraseDups
  · intro hnew
    rw [valuesOf_append, valuesOf_eq_nil name entries hnew, hself]
    rfl
  · intro _
    rw [valuesOf_append, hself, eraseDups_concat]
    simp only [List.contains_iff_mem, List.mem_eraseDups]
  · intro other hother
    have hnone : valuesOf other [(name, value)] = [] := by
      apply valuesOf_eq_nil
      simpa using hother
    rw [valuesOf_append, hnone, List.append_nil]

theorem foldl_add_telling (subject : Term) (xs ys : List (String × JsonLd)) :
    ys.foldl (fun d entry => d.add entry.1 entry.2) (telling subject xs) =
      telling subject (xs ++ ys) := by
  induction ys generalizing xs with
  | nil => rw [List.append_nil]; rfl
  | cons entry rest ih =>
    have hadd : (telling subject xs).add entry.1 entry.2 = telling subject (xs ++ [entry]) :=
      congrArg (Document.mk subject) (addTo_tabulate entry.1 entry.2 xs)
    rw [List.foldl_cons, hadd, ih, List.append_assoc]
    rfl

/-- The document of one match. -/
theorem ofMatch_eq_telling (w : Walk) (r : Record) :
    ofMatch w r.subject r.tags = telling r.subject (r.entries w.vocabulary) := by
  have hadds := foldl_add_telling r.subject [] (r.entries w.vocabulary)
  rw [Record.entries, List.foldl_map] at hadds
  exact hadds

/-- What a table says, one value after the other. -/
def flatten (table : List (String × List JsonLd)) : List (String × JsonLd) :=
  table.flatMap fun property => property.2.map fun value => (property.1, value)

theorem names_flatten_tabulate (entries : List (String × JsonLd)) :
    ((flatten (tabulate entries)).map (·.1)).eraseDups = (entries.map (·.1)).eraseDups := by
  let names := (entries.map (·.1)).eraseDups
  let values (name : String) := (valuesOf name entries).eraseDups
  have hflat : (flatten (tabulate entries)).map (·.1) =
      names.flatMap fun name => (values name).map fun _ => name := by
    simp [flatten, tabulate, List.flatMap_map, List.map_flatMap, Function.comp_def, names, values]
  -- A name has a value, so however many it has, the name comes up.
  have honce (name : String) (hname : name ∈ names) :
      ((values name).map fun _ => name).eraseDups = [name].eraseDups := by
    rw [List.map_eq_flatMap]
    apply eraseDups_flatMap_const
    intro hnone
    apply valuesOf_ne_nil name entries (List.mem_eraseDups.mp hname)
    rw [List.eq_nil_iff_forall_not_mem] at hnone ⊢
    intro value hvalue
    exact hnone value (List.mem_eraseDups.mpr hvalue)
  calc ((flatten (tabulate entries)).map (·.1)).eraseDups
      = (names.flatMap fun name => [name]).eraseDups := by
        rw [hflat]
        exact eraseDups_flatMap_congr _ _ names honce
    _ = names := by
        rw [List.flatMap_singleton', eraseDups_of_nodup names (nodup_eraseDups _)]

theorem valuesOf_flatten (name : String) (names : List String) (values : String → List JsonLd) :
    valuesOf name (flatten (names.map fun name => (name, values name))) =
      (names.filter (· = name)).flatMap values := by
  rw [valuesOf, flatten, List.flatMap_map, List.filter_flatMap, List.map_flatMap]
  induction names with
  | nil => rfl
  | cons other names ih =>
    rw [List.flatMap_cons, ih]
    by_cases h : other = name <;> simp [h, List.filter_map, Function.comp_def]

theorem valuesOf_flatten_tabulate (name : String) (entries : List (String × JsonLd)) :
    valuesOf name (flatten (tabulate entries)) = (valuesOf name entries).eraseDups := by
  rw [tabulate, valuesOf_flatten, List.filter_eq, (nodup_eraseDups _).count]
  split
  · rw [List.replicate_one, List.flatMap_singleton]
  · next hname =>
    rw [List.mem_eraseDups] at hname
    rw [valuesOf_eq_nil name entries hname]
    rfl

theorem merge_eq_foldl (d other : Document) :
    d.merge other = (flatten other.properties).foldl (fun d entry => d.add entry.1 entry.2) d := by
  rw [merge, flatten, List.foldl_flatMap]
  simp only [List.foldl_map]

@[simp] theorem subject_merge (d other : Document) : (d.merge other).subject = d.subject := by
  rw [merge_eq_foldl]
  induction flatten other.properties generalizing d with
  | nil => rfl
  | cons entry rest ih => exact ih (d.add entry.1 entry.2)

/-- Merging documents tells what the one says and then what the other one says. -/
theorem merge_telling (subject other : Term) (xs ys : List (String × JsonLd)) :
    (telling subject xs).merge (telling other ys) = telling subject (xs ++ ys) := by
  have hmerge : (telling subject xs).merge (telling other ys) =
      telling subject (xs ++ flatten (tabulate ys)) := by
    rw [← foldl_add_telling, merge_eq_foldl]
    rfl
  rw [hmerge]
  apply congrArg (Document.mk subject)
  apply tabulate_congr
  · rw [List.map_append, List.map_append]
    exact eraseDups_append_congr _ _ _ _ rfl (names_flatten_tabulate ys)
  · intro name
    rw [valuesOf_append, valuesOf_append]
    apply eraseDups_append_congr _ _ _ _ rfl
    rw [valuesOf_flatten_tabulate, eraseDups_of_nodup _ (nodup_eraseDups _)]

/-- The document of each of some matches. -/
def each (v : Vocabulary) (records : List Record) : List Document :=
  records.map fun r => telling r.subject (r.entries v)

/-- What the matches of a subject add to its document. -/
def about (v : Vocabulary) (records : List Record) (t : Term) : List (String × JsonLd) :=
  (records.filter (·.subject = t)).flatMap (Record.entries v)

/-- For every subject of some matches the document of all its matches, in the order in which the
subjects come up first. -/
def collected (v : Vocabulary) (records : List Record) : List Document :=
  (records.map (·.subject)).eraseDups.map fun t => telling t (about v records t)

theorem about_append (v : Vocabulary) (xs ys : List Record) (t : Term) :
    about v (xs ++ ys) t = about v xs t ++ about v ys t := by
  simp [about]

theorem about_eq_nil (v : Vocabulary) (records : List Record) (t : Term)
    (h : t ∉ records.map (·.subject)) : about v records t = [] := by
  rw [about, List.flatMap_eq_nil_iff]
  intro r hr
  obtain ⟨hmem, hsubject⟩ := List.mem_filter.mp hr
  exact absurd (List.mem_map.mpr ⟨r, hmem, of_decide_eq_true hsubject⟩) h

/-- Documents with one more among them: merged into the one with its subject, or else behind the
others. -/
def insert (doc : Document) (docs : List Document) : List Document :=
  if doc.subject ∈ docs.map (·.subject) then
    docs.map fun d => if d.subject = doc.subject then d.merge doc else d
  else docs ++ [doc]

/-- Documents that are found by their subjects, and no two have the same one. -/
def Found (slots : Slots Term Document Term.compareKey) (docs : List Document) : Prop :=
  slots.Holds (docs.map fun d => (d.subject, d))

theorem found_empty : Found .empty [] :=
  Slots.holds_empty

theorem items_of_found (slots : Slots Term Document Term.compareKey) (docs : List Document)
    (h : Found slots docs) : slots.items = docs := by
  rw [h.items, List.map_map]
  exact List.map_id docs

theorem found_insertInto (slots : Slots Term Document Term.compareKey) (docs : List Document)
    (doc : Document) (h : Found slots docs) : Found (insertInto slots doc) (doc.insert docs) := by
  have hkeys : (docs.map fun d => (d.subject, d)).map Prod.fst = docs.map (·.subject) := by
    rw [List.map_map]
    rfl
  have hplace := h.place_eq_none_iff doc.subject
  rw [hkeys] at hplace
  unfold Found insertInto insert
  split
  · next i hi =>
    rw [if_pos (by_contra fun hnew => by cases hi.symm.trans (hplace.mpr hnew)), List.map_map]
    have hchange := h.change doc.subject i (·.merge doc) hi
    rw [List.map_map] at hchange
    convert hchange using 2
    funext d
    by_cases hd : d.subject = doc.subject <;> simp [hd]
  · next hi =>
    rw [if_neg (hplace.mp hi), List.map_append]
    exact h.push doc.subject doc (hkeys ▸ hplace.mp hi)

theorem insert_collected (v : Vocabulary) (records : List Record) (r : Record) :
    (telling r.subject (r.entries v)).insert (collected v records) =
      collected v (records ++ [r]) := by
  have hsame : about v [r] r.subject = r.entries v := by simp [about]
  have hother (t : Term) (ht : t ≠ r.subject) : about v (records ++ [r]) t = about v records t := by
    rw [about_append, about_eq_nil v [r] t (by simpa using ht), List.append_nil]
  have hsubjects : (collected v records).map (·.subject) =
      (records.map (·.subject)).eraseDups := by
    rw [collected, List.map_map]
    exact List.map_id _
  rw [insert, hsubjects, subject_telling, collected, collected, List.map_append,
    List.map_singleton, eraseDups_concat]
  simp only [List.mem_eraseDups]
  split
  · rw [List.map_map]
    refine List.map_congr_left fun t _ => ?_
    by_cases ht : t = r.subject
    · subst ht
      rw [Function.comp_apply, subject_telling, if_pos rfl, merge_telling, about_append, hsame]
    · rw [Function.comp_apply, subject_telling, if_neg ht, hother t ht]
  · next hnew =>
    rw [List.map_append, List.map_singleton, about_append, about_eq_nil v records _ hnew, hsame,
      List.nil_append]
    congr 1
    refine List.map_congr_left fun t ht => ?_
    rw [hother t fun heq => hnew (heq ▸ List.mem_eraseDups.mp ht)]

/-- Putting the documents of single matches among each other, one after the other, collects them by
their subjects. -/
theorem found_foldl_each (v : Vocabulary) (before records : List Record)
    (slots : Slots Term Document Term.compareKey) (h : Found slots (collected v before)) :
    Found ((each v records).foldl insertInto slots) (collected v (before ++ records)) := by
  induction records generalizing before slots with
  | nil =>
    rw [List.append_nil]
    exact h
  | cons r rest ih =>
    have hfirst := found_insertInto slots _ (telling r.subject (r.entries v)) h
    rw [insert_collected] at hfirst
    have hrest := ih (before ++ [r]) _ hfirst
    rw [List.append_assoc] at hrest
    exact hrest

end Document

end QuadGraph
