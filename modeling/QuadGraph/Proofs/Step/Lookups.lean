import QuadGraph.Proofs.Step.Induction
import QuadGraph.Query.Results
import QuadGraph.Regex.Basic
import QuadGraph.Store.Faults
import QuadGraph.Store.Graph

/-! What a query has read before it is walked. Compiling asks a store for the nodes of terms and for
nothing else, so stores that agree on these have the same paths and the same reasons for having
none, whatever else they hold and whatever fails in them. -/
namespace QuadGraph

/-- A walk that stands where it stood, over another store. -/
def Walk.onto (store : QuadStore) (w : Walk) : Walk :=
  { w with store }

def RecordWalk.onto (store : QuadStore) (r : RecordWalk) : RecordWalk :=
  { r with walk := r.walk.onto store }

/-- Results as they are, to be had from another store. -/
def Results.onto (store : QuadStore) : Results → Results
  | .values w => .values (w.onto store)
  | .records r => .records (r.onto store)
  | .count c => .count { c with walk := c.walk.onto store }
  | .documents d => .documents { d with records := d.records.onto store }

variable {store other : QuadStore}

namespace Compilation

theorem resolve_congr (h : ∀ t, store.nodeOf t = other.nodeOf t) :
    resolve store = resolve other := by
  funext v terms
  rw [resolve, resolve, QuadStore.known, QuadStore.known, funext h]

theorem property_congr (h : ∀ t, store.nodeOf t = other.nodeOf t) :
    property store = property other := by
  funext v name
  rw [property, property, resolve_congr h]

theorem targets_congr (h : ∀ t, store.nodeOf t = other.nodeOf t) :
    targets store = targets other := by
  funext v terms
  rw [targets, targets, resolve_congr h]

theorem save_congr (h : ∀ t, store.nodeOf t = other.nodeOf t) (v : Vocabulary) (way : Way)
    (names : List String) (source : Path) :
    save store v way names source = save other v way names source := by
  induction names generalizing source with
  | nil => rfl
  | cons name rest ih => simp only [save, property_congr h, ih]

end Compilation

open Compilation

namespace GraphPattern

theorem clauses_congr (h : ∀ t, store.nodeOf t = other.nodeOf t) (v : Vocabulary)
    (pattern : GraphPattern) : pattern.clauses store v = pattern.clauses other v := by
  induction pattern with
  | nothing => rfl
  | malformed fault => rfl
  | isOneOf things others ih => simp only [clauses, resolve_congr h, ih]
  | has name value others ih => simp only [clauses, property_congr h, resolve_congr h, ih]
  | leadsTo name pattern others ihp iho => simp only [clauses, property_congr h, ihp, iho]

theorem compile_congr (h : ∀ t, store.nodeOf t = other.nodeOf t) (v : Vocabulary)
    (pattern : GraphPattern) : pattern.compile store v = pattern.compile other v := by
  rw [compile, compile, pattern.clauses_congr h]

end GraphPattern

namespace Step

/-- A step that has the same path, or the same reason for having none, over both stores. -/
def CompilesAlike [RegexEngine] (store other : QuadStore) (step : Step) : Prop :=
  ∀ v ambient, step.compile store v ambient = step.compile other v ambient

theorem compileSource_congr [RegexEngine] (source : Option Step)
    (h : ∀ s ∈ source, CompilesAlike store other s) (v : Vocabulary) (ambient : Option Path) :
    compileSource store source v ambient = compileSource other source v ambient := by
  cases source with
  | none => rfl
  | some s => exact h s rfl v ambient

theorem compileAll_congr [RegexEngine] (steps : List Step)
    (h : ∀ s ∈ steps, CompilesAlike store other s) (v : Vocabulary) (ambient : Option Path) :
    compileAll store steps v ambient = compileAll other steps v ambient := by
  induction steps with
  | nil => rfl
  | cons step rest ih =>
    rw [List.forall_mem_cons] at h
    rw [compileAll, compileAll, h.1 v ambient, ih h.2]

theorem compilesAlike [RegexEngine] (h : ∀ t, store.nodeOf t = other.nodeOf t) (step : Step) :
    CompilesAlike store other step := by
  induction step using structural with
  | vertex terms =>
    intro v ambient
    simp only [compile, resolve_congr h]
  | entities names =>
    intro v ambient
    simp only [compile, resolve_congr h]
  | placeholder =>
    intro v ambient
    rfl
  | visit source route properties ihs ihp =>
    intro v ambient
    simp only [compile, compileSource_congr source ihs, compileAll_congr properties ihp]
  | has source way properties values ihs ihp =>
    intro v ambient
    simp only [compile, compileSource_congr source ihs, compileAll_congr properties ihp,
      targets_congr h]
  | isOneOf source values ih =>
    intro v ambient
    simp only [compile, compileSource_congr source ih, resolve_congr h]
  | named source name ih =>
    intro v ambient
    simp only [compile, compileSource_congr source ih]
  | back source name ih =>
    intro v ambient
    simp only [compile, compileSource_congr source ih]
  | combine source operation steps ihs iho =>
    intro v ambient
    simp only [compile, compileSource_congr source ihs, compileAll_congr steps iho]
  | limit source count ih =>
    intro v ambient
    simp only [compile, compileSource_congr source ih]
  | skip source count ih =>
    intro v ambient
    simp only [compile, compileSource_congr source ih]
  | unique source ih =>
    intro v ambient
    simp only [compile, compileSource_congr source ih]
  | order source ih =>
    intro v ambient
    simp only [compile, compileSource_congr source ih]
  | regExp source pattern ih =>
    intro v ambient
    simp only [compile, compileSource_congr source ih]
  | like source pattern ih =>
    intro v ambient
    simp only [compile, compileSource_congr source ih]
  | compare source comparison bound ih =>
    intro v ambient
    simp only [compile, compileSource_congr source ih]
  | propertyNames source way ih =>
    intro v ambient
    simp only [compile, compileSource_congr source ih]
  | propertyNamesAs source way tag ih =>
    intro v ambient
    simp only [compile, compileSource_congr source ih]
  | properties source way names ih =>
    intro v ambient
    simp only [compile, compileSource_congr source ih, save_congr h]
  | optional source step ihs ihe =>
    intro v ambient
    simp only [compile, compileSource_congr source ihs, ihe v (some .here)]
  | whereAll source steps ihs ihc =>
    intro v ambient
    simp only [compile, compileSource_congr source ihs, compileAll_congr steps ihc]
  | context source rules ih =>
    intro v ambient
    simp only [compile, compileSource_congr source ih]
  | matching source pattern ih =>
    intro v ambient
    simp only [compile, compileSource_congr source ih, GraphPattern.compile_congr h]
  | shaped source shape =>
    intro v ambient
    rfl

/-- The results over the other store begin like those over the one: the same path is still to be
walked, or there are none for the same reason. -/
theorem results_congr [RegexEngine] (h : ∀ t, store.nodeOf t = other.nodeOf t) (step : Step)
    (v : Vocabulary) : step.results other v = (step.results store v).map (Results.onto other) := by
  have hbind (x : Except QueryError Path) (f g : Path → Results)
      (hfg : ∀ path, g path = (f path).onto other) :
      (do return g (← x)) = Except.map (Results.onto other) (do return f (← x)) := by
    cases x with
    | ok path => exact congrArg Except.ok (hfg path)
    | error e => rfl
  cases step with
  | shaped source shape =>
    have hsource : compileSource store source v none = compileSource other source v none :=
      compileSource_congr source (fun s _ => s.compilesAlike h) v none
    rw [results, results, hsource]
    refine hbind _ _ _ fun path => ?_
    cases shape <;> rfl
  | _ =>
    simp only [results, compilesAlike h _ v none]
    exact hbind _ _ _ fun path => rfl

/-- Stores that look up terms alike cannot be told apart by compiling. A step has the same path over
both or the same reason for having none, and so it is with its results, whatever else differs or
fails in the stores. -/
theorem compile_of_lookups [RegexEngine] (h : ∀ t, store.nodeOf t = other.nodeOf t) (step : Step)
    (v : Vocabulary) (ambient : Option Path) :
    step.compile store v ambient = step.compile other v ambient ∧
    (∀ r, step.results store v = .ok r → step.results other v = .ok (r.onto other)) ∧
    ((∃ r, step.results store v = .ok r) ↔ ∃ r, step.results other v = .ok r) ∧
    ∀ e, step.results store v = .error e ↔ step.results other v = .error e := by
  have hresults : step.results other v = (step.results store v).map (Results.onto other) :=
    step.results_congr h v
  refine ⟨step.compilesAlike h v ambient, ?_⟩
  rw [hresults]
  cases step.results store v with
  | ok r => simp [Except.map]
  | error e => simp [Except.map]

/-- Whom somebody likes, asked of a store in which all but looking up terms fails: the query is
compiled like over the intact store, and only carrying it out tells the difference. -/
theorem compile_of_lookups_failing :
    let store := (Graph.ofQuads [.ofIris "alice" "likes" "bob" ""]).toStore
    let other := (Faults.mk false true true true [] []).apply store
    let liked : Step := .visit (some (.vertex [.iri "alice"])) (.one .forward) [property "likes"]
    let query : Step := .shaped (some liked) (.documents .adjacent)
    (∀ t, store.nodeOf t = other.nodeOf t) ∧
      liked.compile store .standard none = liked.compile other .standard none ∧
      (∃ r, query.results store .standard = .ok r ∧
        query.results other .standard = .ok (r.onto other)) ∧
      (query.execute store .standard .live).isOk = true ∧
      (query.execute other .standard .live).isOk = false := by
  intro store other liked query
  have h : ∀ t, store.nodeOf t = other.nodeOf t := fun _ => rfl
  obtain ⟨hpath, -⟩ := compile_of_lookups h liked .standard none
  obtain ⟨-, hresults, -⟩ := compile_of_lookups h query .standard none
  have hok : (query.results store .standard).isOk = true := by decide +kernel
  refine ⟨h, hpath, ?_, by decide +kernel, by decide +kernel⟩
  cases hr : query.results store .standard with
  | ok r => exact ⟨r, rfl, hresults r hr⟩
  | error e => rw [hr] at hok; cases hok

end Step

end QuadGraph
