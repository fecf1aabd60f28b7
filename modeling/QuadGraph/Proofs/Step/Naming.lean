import QuadGraph.Proofs.Path.Saving
import QuadGraph.Proofs.Step.Induction

/-! The names that steps give. A step names nodes by itself, and it takes over what some of the
steps in it have named. Any other name stands after the step for what it stood for before, or for
nothing. -/
namespace QuadGraph

open Outcome

namespace Step

/-- The names that a step gives by itself. Those for all properties are taken from the names under
which a store saves them. -/
def ownNames (saved : List String) : Step → List String
  | .named _ name => [name]
  | .propertyNamesAs _ _ tag => [tag]
  | .properties _ _ names => if names.isEmpty then saved else names
  | _ => []

/-- The steps in a step whose tags it takes over. -/
def joined : Step → List Step
  | .combine _ .difference _ => []
  | .combine _ _ steps => steps
  | .optional _ step => [step]
  | .whereAll _ steps => steps
  | _ => []

theorem sizeOf_lt_of_joined {s part : Step} (h : part ∈ s.joined) : sizeOf part < sizeOf s := by
  cases s with
  | combine source operation steps =>
    cases operation with
    | difference => cases h
    | union | intersect =>
      have hlt : sizeOf part < sizeOf steps := List.sizeOf_lt_of_mem h
      simp only [combine.sizeOf_spec]
      omega
  | optional source step =>
    cases List.mem_singleton.mp h
    simp only [optional.sizeOf_spec]
    omega
  | whereAll source steps =>
    have hlt : sizeOf part < sizeOf steps := List.sizeOf_lt_of_mem h
    simp only [whereAll.sizeOf_spec]
    omega
  | _ => cases h

/-- The names that a step may give, those of its source included. -/
def given (saved : List String) (s : Step) : List String :=
  s.ownNames saved ++ (s.joined.attach.flatMap fun part => given saved part.1) ++
    match _h : s.source? with
    | none => []
    | some source => given saved source
termination_by sizeOf s
decreasing_by
  · exact sizeOf_lt_of_joined part.2
  · exact sizeOf_lt_of_source _h

/-- The names that a step may give on its way on from its source. -/
def givenHere (saved : List String) (s : Step) : List String :=
  s.ownNames saved ++ s.joined.flatMap (given saved)

/-- Whether a step only sets rules for the names in the steps before it. -/
def isContext : Step → Bool
  | .context .. => true
  | _ => false

/-- The vocabulary under which the source of a step is read. -/
def sourceVocabulary (v : Vocabulary) : Step → Vocabulary
  | .context _ rules => v.withRules rules
  | _ => v

theorem sourceVocabulary_of_not_isContext (s : Step) (v : Vocabulary) (h : ¬ s.isContext) :
    s.sourceVocabulary v = v := by
  cases s with
  | context => exact absurd rfl h
  | _ => rfl

/-- A step that may give the given names only, wherever it is walked from. -/
def Confining [RegexEngine] (store : QuadStore) (names : List String) (s : Step) : Prop :=
  ∀ v ambient p, (∀ a ∈ ambient, a.Confined store []) → s.compile store v ambient = .ok p →
    p.Confined store names

variable {store : QuadStore} {saved names : List String}

theorem given_eq (s : Step) :
    s.given saved = s.givenHere saved ++ match s.source? with
      | none => []
      | some source => source.given saved := by
  have hjoined : (s.joined.attach.flatMap fun part => part.1.given saved) =
      s.joined.flatMap (given saved) := by
    rw [List.flatMap_subtype (fun _ _ => rfl), List.unattach_attach]
  rw [given, hjoined, givenHere]
  split <;> simp_all

theorem givenHere_subset_given (s : Step) : s.givenHere saved ⊆ s.given saved := by
  rw [given_eq]
  exact List.subset_append_left _ _

theorem given_subset_of_joined (s part : Step) (h : part ∈ s.joined) :
    part.given saved ⊆ s.givenHere saved := by
  intro name hname
  exact List.mem_append_right _ (List.mem_flatMap.mpr ⟨part, h, hname⟩)

theorem given_subset_of_source (s source : Step) (h : s.source? = some source) :
    source.given saved ⊆ s.given saved := by
  rw [given_eq s, h]
  exact List.subset_append_right _ _

end Step

namespace Compilation

open QuadGraph.Path

variable {store : QuadStore} {names : List String}

theorem inherits_of_save (v : Vocabulary) (way : Way) (properties : List String) (source p : Path)
    (hnames : properties ⊆ names) (h : save store v way properties source = .ok p) :
    p.Inherits store names source := by
  induction properties generalizing source with
  | nil =>
    cases h
    exact inherits_refl _
  | cons name rest ih =>
    obtain ⟨hname, hrest⟩ := List.cons_subset.mp hnames
    obtain ⟨via, -, h⟩ := (bind_eq_ok _ _ p).mp h
    exact inherits_trans _ _ _ (ih _ hrest h) (inherits_save _ _ _ _ hname)

/-- Only a difference takes nothing over from the paths that it is made with. -/
theorem inherits_combine (operation : SetOperation) (source : Path) (others : List Path)
    (h : operation ≠ .difference → ∀ other ∈ others, other.Confined store names) :
    (combine operation source others).Inherits store names source := by
  unfold combine
  induction others generalizing source with
  | nil => exact inherits_refl source
  | cons other rest ih =>
    refine inherits_trans _ _ _ (ih _ fun hne p hp => h hne p (List.mem_cons_of_mem other hp)) ?_
    cases operation with
    | union => exact inherits_union _ _ (h nofun other List.mem_cons_self)
    | intersect => exact inherits_intersect _ _ (h nofun other List.mem_cons_self)
    | difference => exact inherits_except _ _

end Compilation

namespace GraphPattern

open QuadGraph.Path

variable {store : QuadStore} {names : List String}

/-- Clauses of patterns name nothing. -/
theorem confined_of_clauses (v : Vocabulary) (pattern : GraphPattern) (paths : List Path)
    (h : pattern.clauses store v = .ok paths) : ∀ p ∈ paths, p.Confined store names := by
  induction pattern generalizing paths with
  | nothing =>
    cases h
    exact nofun
  | malformed fault => cases h
  | isOneOf things others ih =>
    obtain ⟨nodes, -, h⟩ := (bind_eq_ok _ _ paths).mp h
    obtain ⟨rest, hrest, ⟨⟩⟩ := (bind_eq_ok _ _ paths).mp h
    have hfirst : (Path.isOneOf .here nodes).Confined store names :=
      confined_of_inherits _ _ (inherits_isOneOf _ _) confined_here
    exact List.forall_mem_cons.mpr ⟨hfirst, ih rest hrest⟩
  | has name value others ih =>
    obtain ⟨via, -, h⟩ := (bind_eq_ok _ _ paths).mp h
    obtain ⟨nodes, -, h⟩ := (bind_eq_ok _ _ paths).mp h
    obtain ⟨rest, hrest, ⟨⟩⟩ := (bind_eq_ok _ _ paths).mp h
    have hfirst : (Path.has .here .forward via (some nodes)).Confined store names :=
      confined_of_inherits _ _ (inherits_has _ _ _ _) confined_here
    exact List.forall_mem_cons.mpr ⟨hfirst, ih rest hrest⟩
  | leadsTo name pattern others ihp iho =>
    obtain ⟨via, -, h⟩ := (bind_eq_ok _ _ paths).mp h
    simp only at h
    split at h
    · cases h
    · obtain ⟨inner, hinner, h⟩ := (bind_eq_ok _ _ paths).mp h
      obtain ⟨rest, hrest, ⟨⟩⟩ := (bind_eq_ok _ _ paths).mp h
      have hvia : (Path.follow .here (.one .forward) via).Confined store names :=
        confined_of_inherits _ _ (inherits_follow _ _ _) confined_here
      have hfirst := confined_of_inherits _ _ (inherits_whereAll _ inner (ihp inner hinner)) hvia
      exact List.forall_mem_cons.mpr ⟨hfirst, iho rest hrest⟩

theorem confined_of_compile (v : Vocabulary) (pattern : GraphPattern) (paths : List Path)
    (h : pattern.compile store v = .ok paths) : ∀ p ∈ paths, p.Confined store names := by
  unfold compile at h
  split at h
  · cases h
  · exact confined_of_clauses v pattern paths h

end GraphPattern

namespace Step

open QuadGraph.Path Compilation

variable {store : QuadStore} {saved names : List String}

theorem confined_of_compileAll [RegexEngine] (steps : List Step) (v : Vocabulary)
    (ambient : Option Path) (paths : List Path) (hsteps : ∀ s ∈ steps, s.Confining store names)
    (ha : ∀ a ∈ ambient, a.Confined store [])
    (h : compileAll store steps v ambient = .ok paths) : ∀ p ∈ paths, p.Confined store names := by
  rw [compileAll_eq_mapM, mapM_eq_ok] at h
  intro p hp
  obtain ⟨s, hs, hcompile⟩ := exists_of_forall₂_right h p hp
  exact hsteps s hs v ambient p ha hcompile

theorem exists_source_of_pure [RegexEngine] (source : Option Step) (v : Vocabulary)
    (ambient : Option Path) (next : Path → Path) (p : Path)
    (hnext : ∀ path, (next path).Inherits store names path)
    (h : (do return next (← compileSource store source v ambient)) = .ok p) :
    ∃ path, compileSource store source v ambient = .ok path ∧ p.Inherits store names path := by
  obtain ⟨path, hpath, ⟨⟩⟩ := (bind_eq_ok _ _ p).mp h
  exact ⟨path, hpath, hnext path⟩

theorem exists_require_iff (step : String) (source : Option Step) :
    (∃ done, Compilation.require step source = .ok done) ↔ source.isSome := by
  cases source with
  | none => exact ⟨nofun, nofun⟩
  | some s => exact ⟨fun _ => rfl, fun _ => ⟨(), rfl⟩⟩

/-- Intersections are the only set operations that ask for a source. -/
theorem compile_combine_iff [RegexEngine] (source : Option Step) (operation : SetOperation)
    (steps : List Step) (v : Vocabulary) (ambient : Option Path) (p : Path) :
    (Step.combine source operation steps).compile store v ambient = .ok p ↔
      (operation = .intersect → source.isSome) ∧
      ∃ path others, compileSource store source v ambient = .ok path ∧
        compileAll store steps v ambient = .ok others ∧
        p = Compilation.combine operation path others := by
  have hparts : (do
      let path ← compileSource store source v ambient
      return Compilation.combine operation path (← compileAll store steps v ambient)) = .ok p ↔
        ∃ path others, compileSource store source v ambient = .ok path ∧
          compileAll store steps v ambient = .ok others ∧
          p = Compilation.combine operation path others := by
    simp only [bind_eq_ok, pure_eq_ok, exists_and_left, eq_comm (a := p)]
  cases operation with
  | intersect =>
    refine (bind_eq_ok _ _ p).trans (exists_and_right.trans (and_congr ?_ hparts))
    exact (exists_require_iff _ source).trans ⟨fun h _ => h, fun h => h rfl⟩
  | union | difference => exact hparts.trans (and_iff_right nofun).symm

/-- A step goes on from its source, and what it does not name itself and does not take over from the
steps in it, it inherits. -/
theorem inherits_of_compile [RegexEngine] (hsaved : store.Saves saved) (s : Step) (v : Vocabulary)
    (ambient : Option Path) (p : Path) (hown : s.ownNames saved ⊆ names)
    (hjoined : ∀ part ∈ s.joined, part.Confining store names)
    (ha : ∀ a ∈ ambient, a.Confined store []) (h : s.compile store v ambient = .ok p) :
    ∃ source, compileSource store s.source? (s.sourceVocabulary v) ambient = .ok source ∧
      p.Inherits store names source := by
  have hhere : ∀ a ∈ some Path.here, a.Confined store [] := by
    rintro _ ⟨⟩
    exact confined_here
  cases s with
  -- The first three have no source and begin anew, so there is nothing to inherit.
  | vertex terms =>
    refine ⟨.all, rfl, inherits_of_confined _ _ ?_⟩
    rw [compile] at h
    split at h
    · cases h
      exact confined_all
    · rw [map_eq_pure_bind] at h
      obtain ⟨nodes, -, ⟨⟩⟩ := (bind_eq_ok _ _ p).mp h
      exact confined_fixed nodes
  | entities names =>
    refine ⟨.all, rfl, inherits_of_confined _ _ ?_⟩
    rw [compile, map_eq_pure_bind] at h
    obtain ⟨nodes, -, ⟨⟩⟩ := (bind_eq_ok _ _ p).mp h
    exact confined_fixed nodes
  | placeholder =>
    refine ⟨.all, rfl, inherits_of_confined _ _ ?_⟩
    cases ambient with
    | none => cases h
    | some path =>
      cases h
      exact confined_mono p (ha p rfl) (List.nil_subset names)
  | visit source route properties =>
    obtain ⟨path, hpath, h⟩ := (bind_eq_ok _ _ p).mp h
    obtain ⟨vias, -, ⟨⟩⟩ := (bind_eq_ok _ _ p).mp h
    exact ⟨path, hpath, inherits_follow _ _ _⟩
  | has source way properties values =>
    obtain ⟨path, hpath, h⟩ := (bind_eq_ok _ _ p).mp h
    obtain ⟨vias, -, h⟩ := (bind_eq_ok _ _ p).mp h
    obtain ⟨nodes, -, ⟨⟩⟩ := (bind_eq_ok _ _ p).mp h
    exact ⟨path, hpath, inherits_has _ _ _ _⟩
  | isOneOf source values =>
    obtain ⟨path, hpath, h⟩ := (bind_eq_ok _ _ p).mp h
    obtain ⟨nodes, -, ⟨⟩⟩ := (bind_eq_ok _ _ p).mp h
    exact ⟨path, hpath, inherits_isOneOf _ _⟩
  | named source name =>
    have hname : name ∈ names := hown List.mem_cons_self
    exact exists_source_of_pure source v ambient _ p (fun _ => inherits_tag _ _ hname) h
  | back source name =>
    obtain ⟨-, -, h⟩ := (bind_eq_ok _ _ p).mp h
    obtain ⟨path, hpath, ⟨⟩⟩ := (bind_eq_ok _ _ p).mp h
    exact ⟨path, hpath, inherits_back _ _⟩
  | combine source operation steps =>
    obtain ⟨-, path, others, hpath, hothers, rfl⟩ :=
      (compile_combine_iff source operation steps v ambient p).mp h
    refine ⟨path, hpath, inherits_combine operation path others fun hne => ?_⟩
    have hsteps : ∀ step ∈ steps, step.Confining store names := by
      cases operation with
      | difference => exact absurd rfl hne
      | union | intersect => exact hjoined
    exact confined_of_compileAll steps v ambient others hsteps ha hothers
  | limit source count =>
    exact exists_source_of_pure source v ambient _ p (fun _ => inherits_limit _ _) h
  | skip source count =>
    exact exists_source_of_pure source v ambient _ p (fun _ => inherits_skip _ _) h
  | unique source =>
    exact exists_source_of_pure source v ambient _ p (fun _ => inherits_unique _) h
  | order source =>
    exact exists_source_of_pure source v ambient _ p (fun _ => inherits_order _) h
  | regExp source pattern =>
    obtain ⟨condition, -, h⟩ := (bind_eq_ok _ _ p).mp h
    exact exists_source_of_pure source v ambient _ p (fun _ => inherits_filter _ _) h
  | like source pattern =>
    obtain ⟨condition, -, h⟩ := (bind_eq_ok _ _ p).mp h
    exact exists_source_of_pure source v ambient _ p (fun _ => inherits_filter _ _) h
  | compare source comparison bound =>
    exact exists_source_of_pure source v ambient _ p (fun _ => inherits_filter _ _) h
  | propertyNames source way =>
    exact exists_source_of_pure source v ambient _ p (fun _ => inherits_predicates _ _) h
  | propertyNamesAs source way tag =>
    have htag : tag ∈ names := hown List.mem_cons_self
    exact exists_source_of_pure source v ambient _ p (fun _ => inherits_savePredicates _ _ _ htag) h
  | properties source way properties =>
    obtain ⟨path, hpath, h⟩ := (bind_eq_ok _ _ p).mp h
    refine ⟨path, hpath, ?_⟩
    rw [ownNames] at hown
    split at h
    · next hempty =>
      cases h
      rw [if_pos hempty] at hown
      have hsaves : store.Saves names := fun position n found hfound q hq t ht =>
        hown (hsaved position n found hfound q hq t ht)
      exact inherits_saveAll path way hsaves
    · next hempty =>
      rw [if_neg hempty] at hown
      exact inherits_of_save v way properties path p hown h
  | optional source step =>
    obtain ⟨-, -, h⟩ := (bind_eq_ok _ _ p).mp h
    obtain ⟨path, hpath, h⟩ := (bind_eq_ok _ _ p).mp h
    obtain ⟨extension, hextension, ⟨⟩⟩ := (bind_eq_ok _ _ p).mp h
    have hconfined := hjoined step List.mem_cons_self v _ extension hhere hextension
    exact ⟨path, hpath, inherits_optional _ _ hconfined⟩
  | whereAll source steps =>
    obtain ⟨path, hpath, h⟩ := (bind_eq_ok _ _ p).mp h
    obtain ⟨clauses, hclauses, ⟨⟩⟩ := (bind_eq_ok _ _ p).mp h
    have hconfined := confined_of_compileAll steps v _ clauses hjoined hhere hclauses
    exact ⟨path, hpath, inherits_whereAll _ _ hconfined⟩
  | context source rules => exact ⟨p, h, inherits_refl p⟩
  | matching source pattern =>
    obtain ⟨path, hpath, h⟩ := (bind_eq_ok _ _ p).mp h
    obtain ⟨clauses, hclauses, ⟨⟩⟩ := (bind_eq_ok _ _ p).mp h
    have hconfined : ∀ clause ∈ clauses, clause.Confined store names :=
      GraphPattern.confined_of_compile v _ clauses hclauses
    exact ⟨path, hpath, inherits_whereAll _ _ hconfined⟩
  | shaped source shape => cases h

/-- A step names nothing but by the names that it gives. -/
theorem confining [RegexEngine] (hsaved : store.Saves saved) (s : Step) :
    s.Confining store (s.given saved) := by
  intro v ambient p ha h
  have hown : s.ownNames saved ⊆ s.given saved :=
    List.Subset.trans (List.subset_append_left _ _) (givenHere_subset_given s)
  have hjoined : ∀ part ∈ s.joined, part.Confining store (s.given saved) := by
    intro part hpart v ambient p ha h
    exact confined_mono p (confining hsaved part v ambient p ha h)
      (List.Subset.trans (given_subset_of_joined s part hpart) (givenHere_subset_given s))
  obtain ⟨path, hpath, hinherits⟩ := inherits_of_compile hsaved s v ambient p hown hjoined ha h
  refine confined_of_inherits p path hinherits ?_
  cases hsource : s.source? with
  | none =>
    rw [hsource] at hpath
    cases hpath
    exact confined_all
  | some source =>
    rw [hsource] at hpath
    exact confined_mono path (confining hsaved source _ ambient path ha hpath)
      (given_subset_of_source s source hsource)
termination_by sizeOf s
decreasing_by
  · exact sizeOf_lt_of_joined hpart
  · exact sizeOf_lt_of_source hsource

/-- After a step every name that it does not give stands for what it stood for before. -/
theorem inherits_source [RegexEngine] (hsaved : store.Saves saved) (s : Step) (v : Vocabulary)
    (ambient : Option Path) (p : Path) (ha : ∀ a ∈ ambient, a.Confined store [])
    (h : s.compile store v ambient = .ok p) :
    ∃ source, compileSource store s.source? (s.sourceVocabulary v) ambient = .ok source ∧
      p.Inherits store (s.givenHere saved) source := by
  refine inherits_of_compile hsaved s v ambient p (List.subset_append_left _ _) ?_ ha h
  intro part hpart v ambient p ha h
  exact confined_mono p (confining hsaved part v ambient p ha h)
    (given_subset_of_joined s part hpart)

end Step

end QuadGraph
