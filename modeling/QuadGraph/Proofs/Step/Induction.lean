import QuadGraph.Proofs.Outcome
import QuadGraph.Step.Compilation

/-! Induction on steps, through their sources and the lists of steps in them. -/
namespace QuadGraph.Step

/-- What holds of a step as soon as it holds of its source and of the steps in it holds of all
steps. -/
@[elab_as_elim]
theorem structural {P : Step → Prop}
    (vertex : ∀ terms, P (.vertex terms))
    (entities : ∀ names, P (.entities names))
    (placeholder : P .placeholder)
    (visit : ∀ source route properties, (∀ s ∈ source, P s) → (∀ s ∈ properties, P s) →
      P (.visit source route properties))
    (has : ∀ source way properties values, (∀ s ∈ source, P s) → (∀ s ∈ properties, P s) →
      P (.has source way properties values))
    (isOneOf : ∀ source values, (∀ s ∈ source, P s) → P (.isOneOf source values))
    (named : ∀ source name, (∀ s ∈ source, P s) → P (.named source name))
    (back : ∀ source name, (∀ s ∈ source, P s) → P (.back source name))
    (combine : ∀ source operation steps, (∀ s ∈ source, P s) → (∀ s ∈ steps, P s) →
      P (.combine source operation steps))
    (limit : ∀ source count, (∀ s ∈ source, P s) → P (.limit source count))
    (skip : ∀ source count, (∀ s ∈ source, P s) → P (.skip source count))
    (unique : ∀ source, (∀ s ∈ source, P s) → P (.unique source))
    (order : ∀ source, (∀ s ∈ source, P s) → P (.order source))
    (regExp : ∀ source pattern, (∀ s ∈ source, P s) → P (.regExp source pattern))
    (like : ∀ source pattern, (∀ s ∈ source, P s) → P (.like source pattern))
    (compare : ∀ source comparison bound, (∀ s ∈ source, P s) →
      P (.compare source comparison bound))
    (propertyNames : ∀ source way, (∀ s ∈ source, P s) → P (.propertyNames source way))
    (propertyNamesAs : ∀ source way tag, (∀ s ∈ source, P s) →
      P (.propertyNamesAs source way tag))
    (properties : ∀ source way names, (∀ s ∈ source, P s) → P (.properties source way names))
    (optional : ∀ source step, (∀ s ∈ source, P s) → P step → P (.optional source step))
    (whereAll : ∀ source steps, (∀ s ∈ source, P s) → (∀ s ∈ steps, P s) →
      P (.whereAll source steps))
    (context : ∀ source rules, (∀ s ∈ source, P s) → P (.context source rules))
    (matching : ∀ source pattern, (∀ s ∈ source, P s) → P (.matching source pattern))
    (shaped : ∀ source shape, (∀ s ∈ source, P s) → P (.shaped source shape))
    (step : Step) : P step := by
  refine @Step.rec P (fun source => ∀ s ∈ source, P s) (fun steps => ∀ s ∈ steps, P s)
    vertex entities placeholder visit has isOneOf named back combine limit skip unique order
    regExp like compare propertyNames propertyNamesAs properties optional whereAll context
    matching shaped ?none ?some ?nil ?cons step
  case none => exact nofun
  case some =>
    rintro s hs _ ⟨⟩
    exact hs
  case nil => exact nofun
  case cons =>
    intro s rest hs hrest t ht
    rcases List.mem_cons.mp ht with rfl | ht
    · exact hs
    · exact hrest t ht

theorem compileAll_eq_mapM [RegexEngine] (store : QuadStore) (steps : List Step) (v : Vocabulary)
    (ambient : Option Path) :
    compileAll store steps v ambient = steps.mapM fun s => s.compile store v ambient := by
  induction steps with
  | nil => rfl
  | cons step rest ih => simp only [compileAll, ih, List.mapM_cons]

end QuadGraph.Step
