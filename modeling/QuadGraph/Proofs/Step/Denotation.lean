import QuadGraph.Proofs.Path.Reach
import QuadGraph.Proofs.Step.Induction
import QuadGraph.Proofs.Step.Names
import QuadGraph.Regex.Basic

/-! The meaning of steps as relations between the terms of quads. It knows neither nodes nor paths
nor an order, only which terms are linked. The path of such a step leads to the nodes of the terms
that the step denotes. -/
namespace QuadGraph

open Outcome Walking

namespace Step

/-- The steps whose meaning is a set of terms: they begin at terms, follow properties, keep terms
and combine sets, and whatever they give names to is not looked at again. -/
inductive Relational : Step → Prop
  | vertex (terms) : Relational (.vertex terms)
  | entities (names) : Relational (.entities names)
  | visit (source route predicates) (hs : ∀ s ∈ source, Relational s)
    (hp : ∀ s ∈ predicates, Relational s) : Relational (.visit source route predicates)
  | has (source way predicates values) (hs : ∀ s ∈ source, Relational s)
    (hp : ∀ s ∈ predicates, Relational s) : Relational (.has source way predicates values)
  | isOneOf (source values) (hs : ∀ s ∈ source, Relational s) : Relational (.isOneOf source values)
  | named (source name) (hs : ∀ s ∈ source, Relational s) : Relational (.named source name)
  | union (source steps) (hs : ∀ s ∈ source, Relational s) (ho : ∀ s ∈ steps, Relational s) :
    Relational (.combine source .union steps)
  | intersect (source steps) (hs : Relational source) (ho : ∀ s ∈ steps, Relational s) :
    Relational (.combine (some source) .intersect steps)
  | difference (source steps) (hs : ∀ s ∈ source, Relational s) (ho : ∀ s ∈ steps, Relational s) :
    Relational (.combine source .difference steps)
  | unique (source) (hs : ∀ s ∈ source, Relational s) : Relational (.unique source)
  | order (source) (hs : ∀ s ∈ source, Relational s) : Relational (.order source)
  | propertyNames (source way) (hs : ∀ s ∈ source, Relational s) :
    Relational (.propertyNames source way)
  | context (source rules) (hs : ∀ s ∈ source, Relational s) : Relational (.context source rules)

mutual

/-- What a step denotes among some quads under a vocabulary. -/
def Denotes (quads : List Quad) : Step → Vocabulary → Term → Prop
  | .vertex terms, v, t => Occurs quads t ∧ (terms = [] ∨ t ∈ terms.map v.expand)
  | .entities names, v, t => Occurs quads t ∧ t ∈ names.map fun name => v.expand (.iri name)
  | .visit source route predicates, v, o =>
    ∃ s, DenotesSource quads source v s ∧
      ∃ p, (predicates = [] ∨ DenotesAny quads predicates v p) ∧ Leads quads route s p o
  | .has source way predicates values, v, s =>
    DenotesSource quads source v s ∧
      ∃ p o, (predicates = [] ∨ DenotesAny quads predicates v p) ∧ Links quads way s p o ∧
        (values = [] ∨ o ∈ values.map v.expand)
  | .isOneOf source values, v, t =>
    DenotesSource quads source v t ∧ t ∈ values.map v.expand
  | .named source _, v, t => DenotesSource quads source v t
  | .combine source operation steps, v, t =>
    match operation with
    | .union => DenotesSource quads source v t ∨ DenotesAny quads steps v t
    | .intersect => DenotesSource quads source v t ∧ DenotesAll quads steps v t
    | .difference => DenotesSource quads source v t ∧ ¬ DenotesAny quads steps v t
  | .unique source, v, t => DenotesSource quads source v t
  | .order source, v, t => DenotesSource quads source v t
  | .propertyNames source way, v, p =>
    ∃ s, DenotesSource quads source v s ∧ ∃ o, Links quads way s p o
  | .context source rules, v, t => DenotesSource quads source (v.withRules rules) t
  | _, _, _ => False

/-- What the source of a step denotes: all terms, if there is none. -/
def DenotesSource (quads : List Quad) : Option Step → Vocabulary → Term → Prop
  | none, _, t => Occurs quads t
  | some source, v, t => Denotes quads source v t

/-- What one of some steps denotes. -/
def DenotesAny (quads : List Quad) : List Step → Vocabulary → Term → Prop
  | [], _, _ => False
  | step :: rest, v, t => Denotes quads step v t ∨ DenotesAny quads rest v t

/-- What all of some steps denote. -/
def DenotesAll (quads : List Quad) : List Step → Vocabulary → Term → Prop
  | [], _, _ => True
  | step :: rest, v, t => Denotes quads step v t ∧ DenotesAll quads rest v t

end

end Step

open Compilation

variable {g : Graph} {quads : List Quad}

namespace Step

/-- A step that compiles to a path which leads to what the step denotes. -/
def Adequate [RegexEngine] (g : Graph) (quads : List Quad) (step : Step) : Prop :=
  ∀ v, ∃ path, step.compile g.toStore v none = .ok path ∧ path.Reaches g (step.Denotes quads v)

theorem compileSource_adequate [RegexEngine] (hg : g.Holds quads) (source : Option Step)
    (h : ∀ s ∈ source, Adequate g quads s) (v : Vocabulary) :
    ∃ path, compileSource g.toStore source v none = .ok path ∧
      path.Reaches g (DenotesSource quads source v) := by
  cases source with
  | none => exact ⟨.all, rfl, Path.reaches_all hg⟩
  | some s => exact h s rfl v

theorem compileAll_adequate [RegexEngine] (steps : List Step) (h : ∀ s ∈ steps, Adequate g quads s)
    (v : Vocabulary) :
    ∃ paths, compileAll g.toStore steps v none = .ok paths ∧
      List.Forall₂ (fun s p => Path.Reaches g p (s.Denotes quads v)) steps paths := by
  induction steps with
  | nil => exact ⟨[], rfl, .nil⟩
  | cons s rest ih =>
    rw [List.forall_mem_cons] at h
    obtain ⟨path, hpath, hreach⟩ := h.1 v
    obtain ⟨paths, hpaths, hall⟩ := ih h.2
    refine ⟨path :: paths, ?_, .cons hreach hall⟩
    rw [compileAll, hpath, hpaths]
    rfl

/-- A set operation, applied to paths one after the other, treats what they lead to as sets. -/
theorem combine_reaches (hg : g.Holds quads) (operation : SetOperation) (steps : List Step)
    (paths : List Path) (v : Vocabulary) (source : Path) (D : Term → Prop) (hs : source.Reaches g D)
    (h : List.Forall₂ (fun s p => Path.Reaches g p (s.Denotes quads v)) steps paths) :
    (Compilation.combine operation source paths).Reaches g fun t =>
      match operation with
      | .union => D t ∨ DenotesAny quads steps v t
      | .intersect => D t ∧ DenotesAll quads steps v t
      | .difference => D t ∧ ¬ DenotesAny quads steps v t := by
  have hc := hg.consistent
  induction h generalizing source D with
  | nil =>
    refine source.reaches_congr _ _ hs fun t => ?_
    cases operation <;> simp [DenotesAny, DenotesAll]
  | cons hfirst _ ih =>
    -- The first of the paths is joined to the source, and the rest to the outcome.
    cases operation with
    | union =>
      exact Path.reaches_congr _ _ _ (ih _ _ (Path.reaches_union _ _ _ _ hs hfirst))
        fun t => by simp only [DenotesAny, or_assoc]
    | intersect =>
      exact Path.reaches_congr _ _ _ (ih _ _ (Path.reaches_intersect hc _ _ _ _ hs hfirst))
        fun t => by simp only [DenotesAll, and_assoc]
    | difference =>
      exact Path.reaches_congr _ _ _ (ih _ _ (Path.reaches_except hc _ _ _ _ hs hfirst))
        fun t => by simp only [DenotesAny, not_or, and_assoc]

/-- The path to predicates leads to what one of the steps denotes, or to every term if there are
no steps. -/
theorem alternatives_reaches (hg : g.Holds quads) (steps : List Step) (paths : List Path)
    (v : Vocabulary)
    (h : List.Forall₂ (fun s p => Path.Reaches g p (s.Denotes quads v)) steps paths) :
    (alternatives paths).Reaches g
      fun p => Occurs quads p ∧ (steps = [] ∨ DenotesAny quads steps v p) := by
  cases h with
  | nil => exact Path.reaches_congr _ _ _ (Path.reaches_all hg) fun t => by simp
  | cons hfirst hrest =>
    have hunion := combine_reaches hg .union _ _ v _ _ hfirst hrest
    refine Path.reaches_congr _ _ _ hunion fun t => ?_
    have hoccurs := Path.occurs_of_reaches hg _ _ hunion t
    simp only [DenotesAny, reduceCtorEq, false_or]
    exact ⟨fun ht => ⟨hoccurs ht, ht⟩, fun ht => ht.2⟩

/-- The path of a step that says where to look among the predicates may be followed from a source
just as the step says. -/
theorem visit_reaches (hi : g.Indexed) (hg : g.Holds quads) (source : Path) (route : Route)
    (predicates : List Step) (vias : List Path) (v : Vocabulary) (S : Term → Prop)
    (hs : source.Reaches g S)
    (hv : List.Forall₂ (fun s p => Path.Reaches g p (s.Denotes quads v)) predicates vias) :
    (Path.follow source route (alternatives vias)).Reaches g fun o => ∃ s, S s ∧
      ∃ p, (predicates = [] ∨ DenotesAny quads predicates v p) ∧ Leads quads route s p o := by
  have hfollow := Path.reaches_follow hi hg source _ route S _ hs
    (alternatives_reaches hg predicates vias v hv)
  refine Path.reaches_congr _ _ _ hfollow fun o => ?_
  constructor
  · rintro ⟨s, hS, p, ⟨-, hp⟩, hlead⟩
    exact ⟨s, hS, p, hp, hlead⟩
  · rintro ⟨s, hS, p, hp, way, hway, hlink⟩
    -- A predicate of a quad occurs, so that nothing is lost by asking for it.
    exact ⟨s, hS, p, ⟨(occurs_of_links quads way s p o hlink).2.1, hp⟩, way, hway, hlink⟩

theorem has_reaches (hi : g.Indexed) (hg : g.Holds quads) (source : Path) (way : Way)
    (predicates : List Step) (vias : List Path) (v : Vocabulary)
    (targets : Option (List NodeId)) (S T : Term → Prop) (hs : source.Reaches g S)
    (hv : List.Forall₂ (fun s p => Path.Reaches g p (s.Denotes quads v)) predicates vias)
    (hT : ∀ n t, g.table.termOf? n = some t → (admits targets n ↔ T t)) :
    (Path.has source way (alternatives vias) targets).Reaches g fun s => S s ∧
      ∃ p o, (predicates = [] ∨ DenotesAny quads predicates v p) ∧ Links quads way s p o ∧ T o := by
  have hhas := Path.reaches_has hi hg source _ way targets S _ T hs
    (alternatives_reaches hg predicates vias v hv) hT
  refine Path.reaches_congr _ _ _ hhas fun s => ?_
  constructor
  · rintro ⟨hS, p, o, ⟨-, hp⟩, hlink, ho⟩
    exact ⟨hS, p, o, hp, hlink, ho⟩
  · rintro ⟨hS, p, o, hp, hlink, ho⟩
    exact ⟨hS, p, o, ⟨(occurs_of_links quads way s p o hlink).2.1, hp⟩, hlink, ho⟩

theorem adequate_of_relational [RegexEngine] (hi : g.Indexed) (hg : g.Holds quads) (step : Step)
    (h : step.Relational) : Adequate g quads step := by
  induction h with
  | vertex terms =>
    intro v
    cases terms with
    | nil =>
      exact ⟨.all, rfl, Path.reaches_congr _ _ _ (Path.reaches_all hg) fun t => by simp [Denotes]⟩
    | cons term rest =>
      refine ⟨_, ?_, Path.reaches_congr _ _ _
        (Path.reaches_fixed hg ((term :: rest).map v.expand)) fun t => by simp [Denotes]⟩
      rw [compile, resolve_toStore]
      rfl
  | entities names =>
    intro v
    refine ⟨_, ?_, Path.reaches_congr _ _ _
      (Path.reaches_fixed hg ((names.map Term.iri).map v.expand)) fun t => by simp [Denotes]⟩
    rw [compile, resolve_toStore]
    rfl
  | visit source route predicates _ _ ihs ihp =>
    intro v
    obtain ⟨path, hpath, hreach⟩ := compileSource_adequate hg source ihs v
    obtain ⟨vias, hvias, hall⟩ := compileAll_adequate predicates ihp v
    refine ⟨.follow path route (alternatives vias), ?_,
      visit_reaches hi hg path route predicates vias v _ hreach hall⟩
    rw [compile, hpath, hvias]
    rfl
  | has source way predicates values _ _ ihs ihp =>
    intro v
    obtain ⟨path, hpath, hreach⟩ := compileSource_adequate hg source ihs v
    obtain ⟨vias, hvias, hall⟩ := compileAll_adequate predicates ihp v
    obtain ⟨nodes, hnodes, htargets⟩ := targets_toStore g hg.consistent v values
    refine ⟨.has path way (alternatives vias) nodes, ?_,
      has_reaches hi hg path way predicates vias v nodes _ _ hreach hall htargets⟩
    rw [compile, hpath, hvias, hnodes]
    rfl
  | isOneOf source values _ ih =>
    intro v
    obtain ⟨path, hpath, hreach⟩ := compileSource_adequate hg source ih v
    refine ⟨.isOneOf path (nodesOf g v values), ?_,
      Path.reaches_isOneOf path _ _ _ hreach (mem_nodesOf_iff g hg.consistent v values)⟩
    rw [compile, hpath, resolve_toStore]
    rfl
  | named source name _ ih =>
    intro v
    obtain ⟨path, hpath, hreach⟩ := compileSource_adequate hg source ih v
    refine ⟨.tag path name, ?_, Path.reaches_tag path name _ hreach⟩
    rw [compile, hpath]
    rfl
  | union source steps _ _ ihs iho =>
    intro v
    obtain ⟨path, hpath, hreach⟩ := compileSource_adequate hg source ihs v
    obtain ⟨others, hothers, hall⟩ := compileAll_adequate steps iho v
    refine ⟨_, ?_, combine_reaches hg .union steps others v path _ hreach hall⟩
    simp only [compile, hpath, hothers]
    rfl
  | intersect source steps _ _ ihs iho =>
    intro v
    obtain ⟨path, hpath, hreach⟩ := ihs v
    obtain ⟨others, hothers, hall⟩ := compileAll_adequate steps iho v
    refine ⟨_, ?_, combine_reaches hg .intersect steps others v path _ hreach hall⟩
    simp only [compile, compileSource, hpath, hothers]
    rfl
  | difference source steps _ _ ihs iho =>
    intro v
    obtain ⟨path, hpath, hreach⟩ := compileSource_adequate hg source ihs v
    obtain ⟨others, hothers, hall⟩ := compileAll_adequate steps iho v
    refine ⟨_, ?_, combine_reaches hg .difference steps others v path _ hreach hall⟩
    simp only [compile, hpath, hothers]
    rfl
  | unique source _ ih =>
    intro v
    obtain ⟨path, hpath, hreach⟩ := compileSource_adequate hg source ih v
    refine ⟨.unique path, ?_, Path.reaches_unique path _ hreach⟩
    rw [compile, hpath]
    rfl
  | order source _ ih =>
    intro v
    obtain ⟨path, hpath, hreach⟩ := compileSource_adequate hg source ih v
    refine ⟨.order path, ?_, Path.reaches_order path _ hreach⟩
    rw [compile, hpath]
    rfl
  | propertyNames source way _ ih =>
    intro v
    obtain ⟨path, hpath, hreach⟩ := compileSource_adequate hg source ih v
    refine ⟨.predicates path way, ?_, Path.reaches_predicates hi hg path way _ hreach⟩
    rw [compile, hpath]
    rfl
  | context source rules _ ih =>
    intro v
    exact compileSource_adequate hg source ih (v.withRules rules)

/-- A step about sets of terms can be compiled and walked over any graph, and its matches stand at
the nodes of the terms that it denotes: at no others, and at all of these. -/
theorem execute_denotes [RegexEngine] (quads : List Quad) (v : Vocabulary) (step : Step)
    (h : step.Relational) :
    ∃ path found, step.compile (Graph.ofQuads quads).toStore v none = .ok path ∧
      (Graph.ofQuads quads).toStore.execute path = .ok found ∧
      (∀ b ∈ found, ∃ t, step.Denotes quads v t ∧
        (Graph.ofQuads quads).table.termOf? b.node = some t) ∧
      (∀ t, step.Denotes quads v t →
        ∃ b ∈ found, (Graph.ofQuads quads).table.termOf? b.node = some t) := by
  obtain ⟨hi, hg⟩ := Graph.holds_ofQuads quads
  obtain ⟨path, hpath, found, hfound, hcover⟩ := adequate_of_relational hi hg step h v
  exact ⟨path, found, hpath, hfound, hcover.sound, hcover.complete⟩

/-- Whom Alice likes among those who like Dan: it is Bob alone, as the one match shows. -/
theorem execute_denotes_liked_among_likers :
    let quads := [Quad.ofIris "alice" "likes" "bob" "", Quad.ofIris "bob" "likes" "dan" "",
      Quad.ofIris "alice" "likes" "carol" ""]
    let step : Step := .combine
      (some (.visit (some (.vertex [.iri "alice"])) (.one .forward) [.entities ["likes"]]))
      .intersect [.has none .forward [] [.iri "dan"]]
    step.Relational ∧ ∀ t, step.Denotes quads .empty t ↔ t = .iri "bob" := by
  intro quads step
  have hrelational : step.Relational := by
    refine .intersect _ _ (.visit _ _ _ ?_ ?_) ?_
    · rintro _ ⟨⟩
      exact .vertex _
    · intro s hs
      cases List.mem_singleton.mp hs
      exact .entities _
    · intro s hs
      cases List.mem_singleton.mp hs
      exact .has _ _ _ _ nofun nofun
  refine ⟨hrelational, fun t => ?_⟩
  obtain ⟨path, found, hpath, hfound, hsound, hcomplete⟩ :=
    execute_denotes quads .empty step hrelational
  have hwalk : (do
      let path ← (step.compile (Graph.ofQuads quads).toStore .empty none).toOption
      ((Graph.ofQuads quads).toStore.execute path).toOption) =
        some [⟨⟨2⟩, ⟨0⟩, ∅⟩] := by decide +kernel
  have hbob : (Graph.ofQuads quads).table.termOf? ⟨2⟩ = some (.iri "bob") := by decide +kernel
  rw [hpath] at hwalk
  simp only [Except.toOption, Option.bind_eq_bind, Option.bind_some, hfound,
    Option.some.injEq] at hwalk
  subst hwalk
  constructor
  · intro ht
    obtain ⟨b, hb, hterm⟩ := hcomplete t ht
    cases List.mem_singleton.mp hb
    exact Option.some.inj (hterm.symm.trans hbob)
  · rintro rfl
    obtain ⟨t, ht, hterm⟩ := hsound _ List.mem_cons_self
    cases hterm.symm.trans hbob
    exact ht

end Step

end QuadGraph
