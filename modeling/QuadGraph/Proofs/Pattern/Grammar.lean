import QuadGraph.Proofs.Json.Members
import QuadGraph.Proofs.Pattern.Matching
import QuadGraph.Proofs.Step.Safety
import QuadGraph.Regex.Basic

/-! Which JSON objects are graph patterns. A pattern names things and classes under two keys and
gives values to properties: literals, references, and patterns for the nodes that a property leads
to. A step that asks for an object accepts it exactly if it is a pattern, however deep its objects
are nested, and reports every other object as malformed. -/
namespace QuadGraph

namespace Json

/-- A text, or a list of texts with one text at least. -/
def NamesThings : Json → Prop
  | .string _ => True
  | .array items => items ≠ [] ∧ ∀ item ∈ items, ∃ text, item = .string text
  | _ => False

/-- The value of a key is a text. -/
def HasText (key : String) (members : List (String × Json)) : Prop :=
  ∃ text, member? key members = some (.string text)

/-- Scalars and objects that stand for a term. An identifier comes before a value, and a language
before a datatype; a value with neither stands for itself. -/
inductive IsTerm : Json → Prop
  | bool (value) : IsTerm (.bool value)
  | number (value) : IsTerm (.number value)
  | string (text) : IsTerm (.string text)
  | reference (members) (hid : HasText "@id" members) : IsTerm (.object members)
  | lang (members) (hid : member? "@id" members = none) (hlang : HasText "@language" members)
    (hvalue : HasText "@value" members) : IsTerm (.object members)
  | typed (members value) (hid : member? "@id" members = none)
    (hlang : ¬ HasText "@language" members) (htype : HasText "@type" members)
    (hvalue : member? "@value" members = some value) : IsTerm (.object members)
  | bare (members value) (hid : member? "@id" members = none)
    (hlang : ¬ HasText "@language" members) (htype : ¬ HasText "@type" members)
    (hvalue : member? "@value" members = some value) (h : IsTerm value) : IsTerm (.object members)

/-- An object with a value, or one with an identifier and nothing else. -/
def StandsForValue (members : List (String × Json)) : Prop :=
  (∃ value, ("@value", value) ∈ members) ∨ ∃ id, members = [("@id", id)]

mutual

/-- What may stand under a key of a pattern. -/
inductive IsMember : String → Json → Prop
  | things (key value) (hkey : key = "@id" ∨ key = "@type") (h : value.NamesThings) :
    IsMember key value
  | property (key value) (hkey : key.toList.head? ≠ some '@') (h : IsPropertyValue value) :
    IsMember key value

/-- What may stand under a property: what stands for a term, a pattern, or a list of such, which is
not empty. -/
inductive IsPropertyValue : Json → Prop
  | bool (value) : IsPropertyValue (.bool value)
  | number (value) : IsPropertyValue (.number value)
  | string (text) : IsPropertyValue (.string text)
  | array (items) (hne : items ≠ []) (h : ∀ item ∈ items, IsPropertyValue item) :
    IsPropertyValue (.array items)
  | value (members) (hv : StandsForValue members) (h : IsTerm (.object members)) :
    IsPropertyValue (.object members)
  | pattern (members) (hv : ¬ StandsForValue members)
    (h : ∀ member ∈ members, IsMember member.1 member.2) : IsPropertyValue (.object members)

end

/-- The members of an object that is a pattern. -/
def IsPattern (members : List (String × Json)) : Prop :=
  ∀ member ∈ members, IsMember member.1 member.2

theorem isTerm_object_iff (members : List (String × Json)) :
    IsTerm (.object members) ↔ HasText "@id" members ∨
      member? "@id" members = none ∧ ∃ value, member? "@value" members = some value ∧
        (HasText "@language" members ∧ (∃ text, value = .string text) ∨
          ¬ HasText "@language" members ∧ (HasText "@type" members ∨
            ¬ HasText "@type" members ∧ value.IsTerm)) := by
  constructor
  · intro h
    cases h with
    | reference _ hid => exact Or.inl hid
    | lang _ hid hlang hvalue =>
      obtain ⟨text, htext⟩ := hvalue
      exact Or.inr ⟨hid, _, htext, Or.inl ⟨hlang, text, rfl⟩⟩
    | typed _ value hid hlang htype hvalue =>
      exact Or.inr ⟨hid, value, hvalue, Or.inr ⟨hlang, Or.inl htype⟩⟩
    | bare _ value hid hlang htype hvalue h =>
      exact Or.inr ⟨hid, value, hvalue, Or.inr ⟨hlang, Or.inr ⟨htype, h⟩⟩⟩
  · rintro (hid | ⟨hid, value, hvalue, ⟨hlang, text, rfl⟩ | ⟨hlang, htype | ⟨htype, h⟩⟩⟩)
    · exact .reference members hid
    · exact .lang members hid hlang ⟨text, hvalue⟩
    · exact .typed members value hid hlang htype hvalue
    · exact .bare members value hid hlang htype hvalue h

theorem text?_eq_some_iff (json : Json) (text : String) :
    json.text? = some text ↔ json = .string text := by
  cases json <;> simp [text?]

theorem hasText_iff (key : String) (members : List (String × Json)) :
    HasText key members ↔ ∃ text, (member? key members).bind text? = some text := by
  simp [HasText, Option.bind_eq_some_iff, text?_eq_some_iff]

theorem isMember_iff (key : String) (value : Json) :
    IsMember key value ↔ (key = "@id" ∨ key = "@type") ∧ value.NamesThings ∨
      key.toList.head? ≠ some '@' ∧ IsPropertyValue value := by
  constructor
  · intro h
    cases h with
    | things _ _ hkey h => exact Or.inl ⟨hkey, h⟩
    | property _ _ hkey h => exact Or.inr ⟨hkey, h⟩
  · rintro (⟨hkey, h⟩ | ⟨hkey, h⟩)
    · exact .things key value hkey h
    · exact .property key value hkey h

theorem isPropertyValue_object_iff (members : List (String × Json)) :
    IsPropertyValue (.object members) ↔
      StandsForValue members ∧ IsTerm (.object members) ∨
        ¬ StandsForValue members ∧ IsPattern members := by
  constructor
  · intro h
    cases h with
    | value _ hv h => exact Or.inl ⟨hv, h⟩
    | pattern _ hv h => exact Or.inr ⟨hv, h⟩
  · rintro (⟨hv, h⟩ | ⟨hv, h⟩)
    · exact .value members hv h
    · exact .pattern members hv h

theorem isPropertyValue_array_iff (items : List Json) :
    IsPropertyValue (.array items) ↔ items ≠ [] ∧ ∀ item ∈ items, IsPropertyValue item := by
  constructor
  · intro h
    cases h with
    | array _ hne h => exact ⟨hne, h⟩
  · rintro ⟨hne, h⟩
    exact .array items hne h

end Json

namespace JsonLd

variable {v : Vocabulary}

open Json

mutual

/-- Under every vocabulary the values that stand for a term are those that are decoded. -/
theorem exists_decode_iff (json : Json) : (∃ t, decode v json = .ok t) ↔ json.IsTerm := by
  cases json with
  | null => exact ⟨nofun, nofun⟩
  | bool value => exact ⟨fun _ => .bool value, fun _ => ⟨_, rfl⟩⟩
  | number value => exact ⟨fun _ => .number value, fun _ => ⟨_, rfl⟩⟩
  | string text => exact ⟨fun _ => .string text, fun _ => ⟨_, rfl⟩⟩
  | array items => exact ⟨nofun, nofun⟩
  | object members =>
    have hvalue := exists_decodeValue_iff members
    rw [isTerm_object_iff, hasText_iff "@language", hasText_iff "@type", decode]
    cases hid : member? "@id" members with
    | some id => cases id <;> simp [HasText, hid]
    | none =>
      cases hraw : member? "@value" members with
      | none => simp [HasText, hid]
      | some raw =>
        simp only [hraw, Option.some.injEq, exists_eq_left'] at hvalue
        cases (member? "@language" members).bind text? with
        | some language =>
          cases htext : raw.text? <;> simp [HasText, hid, ← text?_eq_some_iff, htext]
        | none =>
          cases (member? "@type" members).bind text? with
          | some type => simp [HasText, hid]
          | none => simp [HasText, hid, hvalue]

theorem exists_decodeValue_iff (members : List (String × Json)) :
    (∃ t, decodeValue v members = .ok t) ↔
      ∃ value, member? "@value" members = some value ∧ value.IsTerm := by
  cases members with
  | nil => exact ⟨nofun, nofun⟩
  | cons member rest =>
    obtain ⟨key, value⟩ := member
    have hvalue := exists_decode_iff value
    have hrest := exists_decodeValue_iff rest
    rw [decodeValue, member?_cons]
    by_cases hkey : key = "@value"
    · simp [hkey, hvalue]
    · simp [hkey, Ne.symm hkey, hrest]

end

end JsonLd

namespace GraphPattern

open Json Outcome Compilation

variable {v : Vocabulary}

theorem exists_references_iff (key : String) (value : Json) :
    (∃ things, references key value = .ok things) ↔ value.NamesThings := by
  cases value with
  | string text => exact ⟨fun _ => trivial, fun _ => ⟨_, rfl⟩⟩
  | array items =>
    cases items with
    | nil => simp [references, NamesThings]
    | cons item items =>
      rw [references, exists_mapM_eq_ok_iff]
      refine ⟨fun h => ⟨List.cons_ne_nil item items, fun json hjson => ?_⟩, fun h json hjson => ?_⟩
      · obtain ⟨t, ht⟩ := h json hjson
        cases json with
        | string text => exact ⟨text, rfl⟩
        | _ => cases ht
      · obtain ⟨text, rfl⟩ := h.2 json hjson
        exact ⟨_, rfl⟩
  | _ => exact ⟨nofun, False.elim⟩

theorem isValue_iff (members : List (String × Json)) :
    isValue members ↔ StandsForValue members := by
  have hvalue : (member? "@value" members).isSome ↔ ∃ value, ("@value", value) ∈ members := by
    rw [member?, List.lookup_isSome_iff]
    simp
  have hid : members.length = 1 ∧ (member? "@id" members).isSome ↔
      ∃ id, members = [("@id", id)] := by
    constructor
    · rintro ⟨hlength, hsome⟩
      obtain ⟨⟨key, value⟩, rfl⟩ := List.length_eq_one_iff.mp hlength
      rw [member?_cons] at hsome
      split at hsome
      · next hkey => exact ⟨value, by rw [hkey]⟩
      · cases hsome
    · rintro ⟨id, rfl⟩
      exact ⟨rfl, rfl⟩
  rw [isValue, Bool.or_eq_true, Bool.and_eq_true, beq_iff_eq, hvalue, hid, StandsForValue]

theorem wellFormed_hasValue_iff (property : String) (json : Json) (others : GraphPattern) :
    (hasValue v property json others).WellFormed ↔ json.IsTerm ∧ others.WellFormed := by
  rw [← JsonLd.exists_decode_iff (v := v), hasValue]
  cases JsonLd.decode v json with
  | ok t => simp [WellFormed]
  | error fault => simp [WellFormed]

mutual

/-- The conditions made from an object are well formed exactly if the object is a pattern. -/
theorem wellFormed_ofMembers_iff (members : List (String × Json)) :
    (ofMembers v members).WellFormed ↔ IsPattern members := by
  cases members with
  | nil => simp [ofMembers, WellFormed, IsPattern]
  | cons member rest =>
    obtain ⟨key, value⟩ := member
    have hrest := wellFormed_ofMembers_iff rest
    have hproperty := wellFormed_ofProperty_iff key value (ofMembers v rest)
    have hpattern : IsPattern ((key, value) :: rest) ↔ IsMember key value ∧ IsPattern rest :=
      List.forall_mem_cons
    have hthings := exists_references_iff key value
    have hnames (things) (hr : references key value = .ok things) : value.NamesThings :=
      hthings.mp ⟨things, hr⟩
    have hnone (fault) (hr : references key value = .error fault) : ¬ value.NamesThings := by
      rw [← hthings, hr]
      nofun
    rw [hpattern, ← hrest, isMember_iff, ofMembers]
    split_ifs with hid htype hkeyword
    -- Under the two keys things and classes are named, and a property has neither key.
    · have hkey : key.toList.head? = some '@' := by rw [hid]; rfl
      cases hr : references key value with
      | ok things => simp [WellFormed, hid, hnames things hr]
      | error fault => simp [WellFormed, hkey, hnone fault hr]
    · have hkey : key.toList.head? = some '@' := by rw [htype]; rfl
      cases hr : references key value with
      | ok classes => simp [wellFormed_foldr_has, htype, hnames classes hr]
      | error fault => simp [WellFormed, hkey, hnone fault hr]
    · simp [WellFormed, hid, htype, hkeyword]
    · simp [hproperty, hid, htype, hkeyword]

theorem wellFormed_ofProperty_iff (property : String) (json : Json) (others : GraphPattern) :
    (ofProperty v property json others).WellFormed ↔
      IsPropertyValue json ∧ others.WellFormed := by
  cases json with
  | null => exact ⟨nofun, nofun⟩
  | bool value =>
    simp only [ofProperty, wellFormed_hasValue_iff]
    exact and_congr_left' ⟨fun _ => .bool value, fun _ => .bool value⟩
  | number value =>
    simp only [ofProperty, wellFormed_hasValue_iff]
    exact and_congr_left' ⟨fun _ => .number value, fun _ => .number value⟩
  | string text =>
    simp only [ofProperty, wellFormed_hasValue_iff]
    exact and_congr_left' ⟨fun _ => .string text, fun _ => .string text⟩
  | array items =>
    cases items with
    | nil => simp [ofProperty, WellFormed, isPropertyValue_array_iff]
    | cons item items =>
      rw [isPropertyValue_array_iff]
      have hitems := wellFormed_ofItems_iff property (item :: items) others
      simpa [ofProperty] using hitems
  | object members =>
    have hpattern := wellFormed_ofMembers_iff members
    rw [ofProperty, isPropertyValue_object_iff, ← isValue_iff]
    split_ifs with hvalue
    · simp [wellFormed_hasValue_iff, hvalue]
    · simp [WellFormed, hpattern, hvalue]

theorem wellFormed_ofItems_iff (property : String) (items : List Json) (others : GraphPattern) :
    (ofItems v property items others).WellFormed ↔
      (∀ item ∈ items, IsPropertyValue item) ∧ others.WellFormed := by
  cases items with
  | nil => simp [ofItems]
  | cons item items =>
    have hfirst := wellFormed_ofProperty_iff property item (ofItems v property items others)
    have hrest := wellFormed_ofItems_iff property items others
    rw [ofItems, hfirst, hrest, List.forall_mem_cons, and_assoc]

end

theorem fault?_of_wellFormed (pattern : GraphPattern) (h : pattern.WellFormed) :
    pattern.fault? = none := by
  induction pattern with
  | nothing => rfl
  | malformed fault => exact h.elim
  | isOneOf things others ih => exact ih h
  | has property value others ih => exact ih h
  | leadsTo property pattern others _ ih => exact ih h.2

/-- A store that finds terms or knows none of them does not keep a well formed pattern from having
its clauses. -/
theorem exists_clauses (store : QuadStore) (hs : ∀ t, ∃ found, store.nodeOf t = .ok found)
    (pattern : GraphPattern) (h : pattern.WellFormed) :
    ∃ cs, pattern.clauses store v = .ok cs := by
  have hresolve (terms : List Term) : ∃ nodes, resolve store v terms = .ok nodes := by
    obtain ⟨found, hfound⟩ := exists_mapM_eq_ok store.nodeOf (terms.map v.expand) fun t _ => hs t
    exact ⟨found.filterMap id, by rw [resolve, QuadStore.known, hfound]; rfl⟩
  have hproperty (name : String) : ∃ via, property store v name = .ok via := by
    obtain ⟨nodes, hnodes⟩ := hresolve [.iri name]
    exact ⟨.fixed nodes, by rw [property, hnodes]; rfl⟩
  induction pattern with
  | nothing => exact ⟨[], rfl⟩
  | malformed fault => exact h.elim
  | isOneOf things others ih =>
    obtain ⟨nodes, hnodes⟩ := hresolve things
    obtain ⟨rest, hrest⟩ := ih h
    exact ⟨_, (clauses_isOneOf store things others _).mpr ⟨nodes, hnodes, rest, hrest, rfl⟩⟩
  | has name value others ih =>
    obtain ⟨via, hvia⟩ := hproperty name
    obtain ⟨nodes, hnodes⟩ := hresolve [value]
    obtain ⟨rest, hrest⟩ := ih h
    exact ⟨_, (clauses_has store name value others _).mpr
      ⟨via, hvia, nodes, hnodes, rest, hrest, rfl⟩⟩
  | leadsTo name pattern others ihp iho =>
    obtain ⟨via, hvia⟩ := hproperty name
    obtain ⟨inner, hinner⟩ := ihp h.1
    obtain ⟨rest, hrest⟩ := iho h.2
    refine ⟨.whereAll (.follow .here (.one .forward) via) inner :: rest, ?_⟩
    simp only [clauses, hvia, fault?_of_wellFormed pattern h.1, hinner, hrest]
    rfl

theorem exists_compile_iff (store : QuadStore) (hs : ∀ t, ∃ found, store.nodeOf t = .ok found)
    (pattern : GraphPattern) :
    (∃ cs, pattern.compile store v = .ok cs) ↔ pattern.WellFormed := by
  constructor
  · rintro ⟨cs, hcs⟩
    unfold compile at hcs
    split at hcs
    · cases hcs
    · exact pattern.wellFormed_of_clauses store cs hcs
  · intro h
    obtain ⟨cs, hcs⟩ := pattern.exists_clauses (v := v) store hs h
    exact ⟨cs, by rw [compile, pattern.fault?_of_wellFormed h]; exact hcs⟩

end GraphPattern

/-- A step that asks for an object has a path exactly if the object is a pattern, and any other
object is reported as malformed. -/
theorem Step.compile_matching_iff [RegexEngine] (store : QuadStore)
    (hs : ∀ t, ∃ found, store.nodeOf t = .ok found) (v : Vocabulary) (ambient : Option Path)
    (members : List (String × Json)) :
    ((∃ path, (Step.matching none members).compile store v ambient = .ok path) ↔
      Json.IsPattern members) ∧
    (¬ Json.IsPattern members → ∃ fault,
      (Step.matching none members).compile store v ambient = .error (.configuration fault)) := by
  let pattern := GraphPattern.ofMembers v members
  have hcompile : (Step.matching none members).compile store v ambient =
      (do return .whereAll .all (← pattern.compile store v)) := rfl
  have hiff : (∃ path, (Step.matching none members).compile store v ambient = .ok path) ↔
      Json.IsPattern members := by
    rw [← GraphPattern.wellFormed_ofMembers_iff (v := v),
      ← GraphPattern.exists_compile_iff (v := v) store hs, hcompile]
    cases pattern.compile store v with
    | ok cs => exact ⟨fun _ => ⟨cs, rfl⟩, fun _ => ⟨_, rfl⟩⟩
    | error e => exact ⟨nofun, nofun⟩
  refine ⟨hiff, fun hnot => ?_⟩
  -- The store finds every term, so only a malformed pattern can be the reason.
  have hlooks : store.LooksUp (fun _ => True) fun _ => False := by
    intro t
    obtain ⟨found, hfound⟩ := hs t
    rw [hfound]
    exact fun _ _ => trivial
  have hmeets : Outcome.Meets (QueryError.OfCompiling fun _ => False) (fun _ => True)
      ((Step.matching none members).compile store v ambient) := by
    rw [hcompile]
    exact Outcome.meets_bind _ _ _ (pattern.compile_meets hlooks v) fun _ _ => trivial
  cases h : (Step.matching none members).compile store v ambient with
  | ok path => exact absurd (hiff.mp ⟨path, h⟩) hnot
  | error e =>
    rw [h] at hmeets
    cases e with
    | configuration fault => exact ⟨fault, rfl⟩
    | store e => exact hmeets.elim
    | resolution n => exact hmeets.elim
    | canceled => exact hmeets.elim

/-- A pattern for persons who know somebody of a name and another one by reference, and a pattern
that goes wrong with a list of names that is empty, two objects further down. -/
theorem Step.compile_matching_nested :
    let store := (Graph.ofQuads [.ofIris "alice" "knows" "bob" ""]).toStore
    let accepted : List (String × Json) := [("@type", .string "schema:Person"),
      ("knows", .array [.object [("name", .string "Bob")], .object [("@id", .string "carol")]])]
    let refused : List (String × Json) :=
      [("knows", .object [("knows", .object [("name", .array [])])])]
    (∀ t, ∃ found, store.nodeOf t = .ok found) ∧
      (∃ path, (Step.matching none accepted).compile store .standard none = .ok path) ∧
      ∃ fault, (Step.matching none refused).compile store .standard none =
        .error (.configuration fault) := by
  intro store accepted refused
  have hs : ∀ t, ∃ found, store.nodeOf t = .ok found := fun t => ⟨_, rfl⟩
  have hbob : Json.IsPropertyValue (.object [("name", .string "Bob")]) := by
    refine .pattern _ (by simp [Json.StandsForValue]) (List.forall_mem_singleton.mpr ?_)
    exact .property _ _ (by decide) (.string "Bob")
  have hcarol : Json.IsPropertyValue (.object [("@id", .string "carol")]) :=
    .value _ (Or.inr ⟨_, rfl⟩) (.reference _ ⟨"carol", rfl⟩)
  have haccepted : Json.IsPattern accepted := by
    refine List.forall_mem_cons.mpr ⟨.things _ _ (Or.inr rfl) trivial, ?_⟩
    refine List.forall_mem_singleton.mpr (.property _ _ (by decide) (.array _ nofun ?_))
    exact List.forall_mem_cons.mpr ⟨hbob, List.forall_mem_singleton.mpr hcarol⟩
  have hrefused : ¬ Json.IsPattern refused := by
    simp [refused, Json.IsPattern, Json.isMember_iff, Json.isPropertyValue_array_iff,
      Json.isPropertyValue_object_iff, Json.StandsForValue]
  exact ⟨hs, (compile_matching_iff store hs .standard none accepted).1.mpr haccepted,
    (compile_matching_iff store hs .standard none refused).2 hrefused⟩

end QuadGraph
