import QuadGraph.Proofs.Path.Safety
import QuadGraph.Proofs.Step.Induction

/-! When compiling a step fails. A step is malformed, or the store fails to look a term up; any path
that comes out is sound. -/
namespace QuadGraph

open Outcome

/-- Why compiling may fail: the query is malformed, or the store fails as `E` allows. -/
def QueryError.OfCompiling (E : StoreError → Prop) : QueryError → Prop
  | .configuration _ => True
  | .store e => E e
  | .resolution _ => False
  | .canceled => False

/-- A store that looks up terms, failing only as `E` allows, and finds known nodes. -/
def QuadStore.LooksUp (store : QuadStore) (known : NodeId → Prop) (E : StoreError → Prop) : Prop :=
  ∀ t, Meets E (fun found => ∀ n ∈ found, known n) (store.nodeOf t)

variable {store : QuadStore} {known : NodeId → Prop} {E : StoreError → Prop}

namespace Compilation

theorem resolve_meets (hs : store.LooksUp known E) (v : Vocabulary) (terms : List Term) :
    Meets (QueryError.OfCompiling E) (fun nodes => ∀ n ∈ nodes, known n)
      (resolve store v terms) := by
  refine meets_mapError _ _ _ (P := fun nodes => ∀ n ∈ nodes, known n) ?_ fun _ he => he
  refine meets_bind _ _ _ (meets_mapM _ _ _ fun t _ => hs t) fun found hfound => ?_
  rw [meets_pure]
  intro n hn
  obtain ⟨some?, hmem, rfl⟩ := List.mem_filterMap.mp hn
  exact hfound _ hmem n rfl

theorem property_meets (hs : store.LooksUp known E) (v : Vocabulary) (name : String)
    (seeded : Bool) :
    Meets (QueryError.OfCompiling E) (Path.Sound known seeded) (property store v name) :=
  meets_bind _ _ _ (resolve_meets hs v [.iri name]) fun _ hnodes => .fixed hnodes

theorem alternatives_sound (paths : List Path) (seeded : Bool)
    (h : ∀ p ∈ paths, p.Sound known seeded) : (alternatives paths).Sound known seeded := by
  cases paths with
  | nil => exact .all
  | cons first others =>
    rw [List.forall_mem_cons] at h
    obtain ⟨hfirst, hothers⟩ := h
    rw [alternatives]
    induction others generalizing first with
    | nil => exact hfirst
    | cons next rest ih =>
      rw [List.forall_mem_cons] at hothers
      exact ih (.union first next) (.union hfirst hothers.1) hothers.2

theorem combine_sound (operation : SetOperation) (source : Path) (others : List Path)
    (seeded : Bool) (hs : source.Sound known seeded) (ho : ∀ p ∈ others, p.Sound known seeded) :
    (combine operation source others).Sound known seeded := by
  unfold combine
  induction others generalizing source with
  | nil => exact hs
  | cons next rest ih =>
    rw [List.forall_mem_cons] at ho
    refine ih _ ?_ ho.2
    cases operation with
    | union => exact .union hs ho.1
    | intersect => exact .intersect hs ho.1
    | difference => exact .except hs ho.1

theorem save_meets (hs : store.LooksUp known E) (v : Vocabulary) (way : Way)
    (names : List String) (source : Path) (seeded : Bool) (h : source.Sound known seeded) :
    Meets (QueryError.OfCompiling E) (Path.Sound known seeded)
      (save store v way names source) := by
  induction names generalizing source with
  | nil => exact h
  | cons name rest ih =>
    exact meets_bind _ _ _ (property_meets hs v name false) fun via hvia => ih _ (.save h hvia)

theorem require_meets (step : String) (source : Option Step) :
    Meets (QueryError.OfCompiling E) (fun _ => source.isSome) (require step source) := by
  unfold require
  split
  · assumption
  · exact trivial

end Compilation

open Compilation

theorem GraphPattern.clauses_meets (hs : store.LooksUp known E) (v : Vocabulary)
    (pattern : GraphPattern) :
    Meets (QueryError.OfCompiling E) (fun clauses => ∀ p ∈ clauses, p.Sound known true)
      (pattern.clauses store v) := by
  induction pattern with
  | nothing => simp [clauses]
  | malformed fault => exact trivial
  | isOneOf things others ih =>
    refine meets_bind _ _ _ (resolve_meets hs v things) fun nodes _ => ?_
    refine meets_bind _ _ _ ih fun rest hrest => ?_
    exact List.forall_mem_cons.mpr ⟨.isOneOf .here, hrest⟩
  | has name value others ih =>
    refine meets_bind _ _ _ (property_meets hs v name false) fun via hvia => ?_
    refine meets_bind _ _ _ (resolve_meets hs v [value]) fun nodes _ => ?_
    refine meets_bind _ _ _ ih fun rest hrest => ?_
    exact List.forall_mem_cons.mpr ⟨.has .here hvia, hrest⟩
  | leadsTo name pattern others ihp iho =>
    refine meets_bind _ _ _ (property_meets hs v name false) fun via hvia => ?_
    simp only
    split
    · exact trivial
    · refine meets_bind _ _ _ ihp fun inner hinner => ?_
      refine meets_bind _ _ _ iho fun rest hrest => ?_
      exact List.forall_mem_cons.mpr ⟨.whereAll (.follow .here hvia) hinner, hrest⟩

theorem GraphPattern.compile_meets (hs : store.LooksUp known E) (v : Vocabulary)
    (pattern : GraphPattern) :
    Meets (QueryError.OfCompiling E) (fun clauses => ∀ p ∈ clauses, p.Sound known true)
      (pattern.compile store v) := by
  unfold compile
  split
  · exact trivial
  · exact pattern.clauses_meets hs v

namespace Step

theorem filter_meets (condition : Except String Filter) (fault : String → QueryFault)
    (path : Except QueryError Path) (seeded : Bool)
    (hpath : Meets (QueryError.OfCompiling E) (Path.Sound known seeded) path) :
    Meets (QueryError.OfCompiling E) (Path.Sound known seeded) (do
      let condition ← condition.mapError (QueryError.configuration <| fault ·)
      return .filter (← path) condition) := by
  have hcondition : Meets (QueryError.OfCompiling E) (fun _ => True)
      (condition.mapError (QueryError.configuration <| fault ·)) := by
    cases condition <;> exact trivial
  exact meets_bind _ _ _ hcondition fun _ _ => meets_bind _ _ _ hpath fun _ hp => .filter hp

variable [RegexEngine]

/-- A step that compiles to a sound path under every vocabulary and every sound ambient path, unless
it is malformed or the store fails. -/
def CompilesSoundly (store : QuadStore) (known : NodeId → Prop) (E : StoreError → Prop)
    (step : Step) : Prop :=
  ∀ (v : Vocabulary) (ambient : Option Path) (seeded : Bool),
    (∀ p ∈ ambient, p.Sound known seeded) →
      Meets (QueryError.OfCompiling E) (Path.Sound known seeded) (step.compile store v ambient)

theorem compileSource_meets (source : Option Step)
    (h : ∀ s ∈ source, CompilesSoundly store known E s) (v : Vocabulary)
    (ambient : Option Path) (seeded : Bool) (ha : ∀ p ∈ ambient, p.Sound known seeded) :
    Meets (QueryError.OfCompiling E) (Path.Sound known seeded)
      (compileSource store source v ambient) := by
  cases source with
  | none => exact .all
  | some s => exact h s rfl v ambient seeded ha

theorem compileAll_meets (steps : List Step) (h : ∀ s ∈ steps, CompilesSoundly store known E s)
    (v : Vocabulary) (ambient : Option Path) (seeded : Bool)
    (ha : ∀ p ∈ ambient, p.Sound known seeded) :
    Meets (QueryError.OfCompiling E) (fun paths => ∀ p ∈ paths, p.Sound known seeded)
      (compileAll store steps v ambient) := by
  rw [compileAll_eq_mapM]
  exact meets_mapM _ _ _ fun s hmem => h s hmem v ambient seeded ha

/-- A compiled step is a sound path: the paths to predicates and the sides of set operations begin
by themselves where there is no ambient path, and extensions and clauses are given a match. -/
theorem compilesSoundly (hs : store.LooksUp known E) (step : Step) :
    CompilesSoundly store known E step := by
  have hhere : ∀ p ∈ some Path.here, p.Sound known true := by
    rintro _ ⟨⟩
    exact .here
  induction step using structural with
  | vertex terms =>
    intro v ambient seeded ha
    rw [compile]
    split
    · exact .all
    · exact meets_map _ _ _ (resolve_meets hs v terms) fun nodes hnodes => .fixed hnodes
  | entities names =>
    intro v ambient seeded ha
    exact meets_map _ _ _ (resolve_meets hs v _) fun nodes hnodes => .fixed hnodes
  | placeholder =>
    intro v ambient seeded ha
    cases ambient with
    | none => exact trivial
    | some path => exact ha path rfl
  | visit source route properties ihs ihp =>
    intro v ambient seeded ha
    refine meets_bind _ _ _ (compileSource_meets source ihs v ambient seeded ha)
      fun path hpath => ?_
    refine meets_bind _ _ _ (compileAll_meets properties ihp v none false nofun)
      fun vias hvias => ?_
    exact .follow hpath (alternatives_sound vias false hvias)
  | has source way properties values ihs ihp =>
    intro v ambient seeded ha
    refine meets_bind _ _ _ (compileSource_meets source ihs v ambient seeded ha)
      fun path hpath => ?_
    refine meets_bind _ _ _ (compileAll_meets properties ihp v none false nofun)
      fun vias hvias => ?_
    refine meets_bind _ _ _ (P := fun _ => True) ?_ fun nodes _ =>
      .has hpath (alternatives_sound vias false hvias)
    unfold targets
    split
    · exact trivial
    · exact meets_map _ _ _ (resolve_meets hs v values) fun _ _ => trivial
  | isOneOf source values ih =>
    intro v ambient seeded ha
    refine meets_bind _ _ _ (compileSource_meets source ih v ambient seeded ha) fun path hpath => ?_
    exact meets_bind _ _ _ (resolve_meets hs v values) fun nodes _ => .isOneOf hpath
  | named source name ih =>
    intro v ambient seeded ha
    exact meets_bind _ _ _ (compileSource_meets source ih v ambient seeded ha)
      fun path hpath => .tag hpath
  | back source name ih =>
    intro v ambient seeded ha
    refine meets_bind _ _ _ (require_meets _ source) fun _ _ => ?_
    exact meets_bind _ _ _ (compileSource_meets source ih v ambient seeded ha)
      fun path hpath => .back hpath
  | combine source operation steps ihs iho =>
    intro v ambient seeded ha
    have hrest : Meets (QueryError.OfCompiling E) (Path.Sound known seeded)
        (do
          let source ← compileSource store source v ambient
          return Compilation.combine operation source (← compileAll store steps v ambient)) := by
      refine meets_bind _ _ _ (compileSource_meets source ihs v ambient seeded ha)
        fun path hpath => ?_
      exact meets_bind _ _ _ (compileAll_meets steps iho v ambient seeded ha)
        fun others hothers => combine_sound operation path others seeded hpath hothers
    cases operation with
    | union => exact hrest
    | intersect => exact meets_bind _ _ _ (require_meets _ source) fun _ _ => hrest
    | difference => exact hrest
  | limit source count ih =>
    intro v ambient seeded ha
    exact meets_bind _ _ _ (compileSource_meets source ih v ambient seeded ha)
      fun path hpath => .limit hpath
  | skip source count ih =>
    intro v ambient seeded ha
    exact meets_bind _ _ _ (compileSource_meets source ih v ambient seeded ha)
      fun path hpath => .skip hpath
  | unique source ih =>
    intro v ambient seeded ha
    exact meets_bind _ _ _ (compileSource_meets source ih v ambient seeded ha)
      fun path hpath => .unique hpath
  | order source ih =>
    intro v ambient seeded ha
    exact meets_bind _ _ _ (compileSource_meets source ih v ambient seeded ha)
      fun path hpath => .order hpath
  | regExp source pattern ih =>
    intro v ambient seeded ha
    exact filter_meets _ _ _ seeded (compileSource_meets source ih v ambient seeded ha)
  | like source pattern ih =>
    intro v ambient seeded ha
    exact filter_meets _ _ _ seeded (compileSource_meets source ih v ambient seeded ha)
  | compare source comparison bound ih =>
    intro v ambient seeded ha
    exact meets_bind _ _ _ (compileSource_meets source ih v ambient seeded ha)
      fun path hpath => .filter hpath
  | propertyNames source way ih =>
    intro v ambient seeded ha
    exact meets_bind _ _ _ (compileSource_meets source ih v ambient seeded ha)
      fun path hpath => .predicates hpath
  | propertyNamesAs source way tag ih =>
    intro v ambient seeded ha
    exact meets_bind _ _ _ (compileSource_meets source ih v ambient seeded ha)
      fun path hpath => .savePredicates hpath
  | properties source way names ih =>
    intro v ambient seeded ha
    refine meets_bind _ _ _ (compileSource_meets source ih v ambient seeded ha) fun path hpath => ?_
    split
    · exact .saveAll hpath
    · exact save_meets hs v way names path seeded hpath
  | optional source step ihs ihe =>
    intro v ambient seeded ha
    refine meets_bind _ _ _ (require_meets _ source) fun _ _ => ?_
    refine meets_bind _ _ _ (compileSource_meets source ihs v ambient seeded ha)
      fun path hpath => ?_
    -- The step inside is walked from a match, even where the ambient path begins by itself.
    exact meets_bind _ _ _ (ihe v (some .here) true hhere) fun extension hext =>
      .optional hpath hext
  | whereAll source steps ihs ihc =>
    intro v ambient seeded ha
    refine meets_bind _ _ _ (compileSource_meets source ihs v ambient seeded ha)
      fun path hpath => ?_
    exact meets_bind _ _ _ (compileAll_meets steps ihc v (some .here) true hhere)
      fun clauses hclauses => .whereAll hpath hclauses
  | context source rules ih =>
    intro v ambient seeded ha
    exact compileSource_meets source ih _ ambient seeded ha
  | matching source pattern ih =>
    intro v ambient seeded ha
    refine meets_bind _ _ _ (compileSource_meets source ih v ambient seeded ha) fun path hpath => ?_
    exact meets_bind _ _ _ (GraphPattern.compile_meets hs v _) fun clauses hclauses =>
      .whereAll hpath hclauses
  | shaped source shape => exact fun _ _ _ _ => trivial

end Step

end QuadGraph
