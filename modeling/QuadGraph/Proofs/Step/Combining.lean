import QuadGraph.Proofs.Step.Naming
import QuadGraph.Regex.Basic

/-! Set operations on the matches of any number of steps. The operations are applied to one step
after the other, and each keeps of a step only its first match at every node. What comes of all of
them together is said of each match of the source on its own. -/
namespace QuadGraph

open Outcome

namespace SetOperation

/-- What an operation makes of the matches of two paths. -/
def apply : SetOperation → List Binding → List Binding → List Binding
  | .union, found, other => found ++ other
  | .intersect, found, other =>
    found.filterMap fun b => (other.find? (·.node = b.node)).map b.absorb
  | .difference, found, other => found.filter fun b => !other.any (·.node = b.node)

/-- A match gathers tags from other matches at its node. A tag that it does not have itself is that
of the first list in which the first match at the node has it. -/
def Gathers (others : List (List Binding)) (b c : Binding) : Prop :=
  c.node = b.node ∧ c.origin = b.origin ∧ ∀ name : String, c.tags[name]? = b.tags[name]?.or
    (others.findSome? fun other => (other.find? (·.node = b.node)).bind fun c => c.tags[name]?)

/-- What comes of an operation on some matches and those of any number of steps. -/
def Makes (found : List Binding) (others : List (List Binding)) (out : List Binding) :
    SetOperation → Prop
  | .union => out = found ++ others.flatten
  | .intersect => List.Forall₂ (Gathers others)
      (found.filter fun b => ∀ other ∈ others, ∃ c ∈ other, c.node = b.node) out
  | .difference => out = found.filter fun b => ∀ other ∈ others, ∀ c ∈ other, c.node ≠ b.node

/-- A match that is to be in all lists, with their tags. -/
def gather (others : List (List Binding)) (b : Binding) : Option Binding :=
  others.foldlM (fun b other => (other.find? (·.node = b.node)).map b.absorb) b

theorem gather_cons (other : List Binding) (others : List (List Binding)) (b : Binding) :
    gather (other :: others) b =
      ((other.find? (·.node = b.node)).map b.absorb).bind (gather others) :=
  List.foldlM_cons

theorem isSome_gather (others : List (List Binding)) (b : Binding) :
    (gather others b).isSome ↔ ∀ other ∈ others, ∃ c ∈ other, c.node = b.node := by
  induction others generalizing b with
  | nil => simp [gather]
  | cons other others ih =>
    rw [gather_cons, List.forall_mem_cons]
    cases hfirst : other.find? (·.node = b.node) with
    | none =>
      rw [List.find?_eq_none] at hfirst
      simp_all
    | some first =>
      have hnode : first.node = b.node := by simpa using List.find?_some hfirst
      have hmem : ∃ c ∈ other, c.node = b.node := ⟨first, List.mem_of_find?_eq_some hfirst, hnode⟩
      rw [Option.map_some, Option.bind_some, ih, Binding.absorb]
      exact (and_iff_right hmem).symm

theorem gathers_of_gather (others : List (List Binding)) (b c : Binding)
    (h : gather others b = some c) : Gathers others b c := by
  induction others generalizing b with
  | nil =>
    obtain rfl : b = c := Option.some.inj h
    exact ⟨rfl, rfl, fun name => by simp⟩
  | cons other others ih =>
    rw [gather_cons, Option.bind_eq_some_iff] at h
    obtain ⟨b', hb', hc⟩ := h
    obtain ⟨first, hfirst, rfl⟩ := Option.map_eq_some_iff.mp hb'
    obtain ⟨hnode, horigin, htags⟩ := ih _ hc
    refine ⟨hnode, horigin, fun name => ?_⟩
    -- The tags of the match itself come first, then those of this list, then those of the others.
    rw [htags, List.findSome?_cons, hfirst, Option.bind_some, Binding.absorb,
      Std.ExtTreeMap.getElem?_union, Option.or_assoc]
    cases first.tags[name]? <;> rfl

theorem foldl_union (found : List Binding) (others : List (List Binding)) :
    others.foldl union.apply found = found ++ others.flatten := by
  induction others generalizing found with
  | nil => simp
  | cons other others ih => rw [List.foldl_cons, ih, apply, List.flatten_cons, List.append_assoc]

theorem foldl_intersect (found : List Binding) (others : List (List Binding)) :
    others.foldl intersect.apply found = found.filterMap (gather others) := by
  induction others generalizing found with
  | nil => exact List.filterMap_some.symm
  | cons other others ih =>
    rw [List.foldl_cons, ih, apply, List.filterMap_filterMap]
    exact List.filterMap_congr fun b _ => (gather_cons other others b).symm

theorem foldl_difference (found : List Binding) (others : List (List Binding)) :
    others.foldl difference.apply found =
      found.filter fun b => ∀ other ∈ others, ∀ c ∈ other, c.node ≠ b.node := by
  induction others generalizing found with
  | nil => simp
  | cons other others ih =>
    rw [List.foldl_cons, ih, apply, List.filter_filter]
    refine List.filter_congr fun b _ => ?_
    rw [Bool.eq_iff_iff]
    simp [and_comm]

theorem forall₂_filterMap {α β : Type} {R : α → β → Prop} {p : α → Prop} [DecidablePred p]
    (f : α → Option β) (hp : ∀ a, (f a).isSome ↔ p a) (hR : ∀ a b, f a = some b → R a b)
    (xs : List α) : List.Forall₂ R (xs.filter p) (xs.filterMap f) := by
  induction xs with
  | nil => exact .nil
  | cons a xs ih =>
    cases h : f a with
    | none =>
      have ha : ¬ p a := by simp [← hp, h]
      rwa [List.filterMap_cons_none h, List.filter_cons_of_neg (by simpa using ha)]
    | some b =>
      have ha : p a := by simp [← hp, h]
      rw [List.filterMap_cons_some h, List.filter_cons_of_pos (by simpa using ha)]
      exact .cons (hR a b h) ih

/-- Applying an operation to one list after the other makes what it is to make of all. -/
theorem makes_foldl (operation : SetOperation) (found : List Binding)
    (others : List (List Binding)) :
    operation.Makes found others (others.foldl operation.apply found) := by
  cases operation with
  | union => exact foldl_union found others
  | intersect =>
    rw [foldl_intersect]
    exact forall₂_filterMap _ (isSome_gather others) (gathers_of_gather others) found
  | difference => exact foldl_difference found others

theorem gathers_unique (others : List (List Binding)) : Relator.RightUnique (Gathers others) := by
  intro b c c' h h'
  obtain ⟨hnode, horigin, htags⟩ := h
  obtain ⟨hnode', horigin', htags'⟩ := h'
  have hsame : c.tags = c'.tags :=
    Std.ExtTreeMap.ext_getElem? fun {name} => (htags name).trans (htags' name).symm
  cases c
  cases c'
  simp_all

/-- Only one thing is made of some lists. -/
theorem makes_iff (operation : SetOperation) (found : List Binding) (others : List (List Binding))
    (out : List Binding) :
    operation.Makes found others out ↔ others.foldl operation.apply found = out := by
  have hfold := makes_foldl operation found others
  refine ⟨fun h => ?_, fun h => h ▸ hfold⟩
  cases operation with
  | union | difference => exact hfold.trans h.symm
  | intersect => exact List.right_unique_forall₂' (gathers_unique others) hfold h

end SetOperation

namespace Path

variable {store : QuadStore} {seed : Option Binding}

theorem evaluate_combine_one (operation : SetOperation) (path p : Path) (out : List Binding) :
    (Compilation.combine operation path [p]).evaluate store seed = .ok out ↔
      ∃ found other, path.evaluate store seed = .ok found ∧ p.evaluate store seed = .ok other ∧
        operation.apply found other = out := by
  cases operation with
  | union =>
    simp only [Compilation.combine, List.foldl_cons, List.foldl_nil, evaluate, bind_eq_ok,
      pure_eq_ok, SetOperation.apply, exists_and_left]
  | intersect | difference =>
    -- Here the other path is walked first.
    simp only [Compilation.combine, List.foldl_cons, List.foldl_nil, evaluate, bind_eq_ok,
      pure_eq_ok, SetOperation.apply]
    constructor
    · rintro ⟨other, hother, found, hfound, hout⟩
      exact ⟨found, other, hfound, hother, hout⟩
    · rintro ⟨found, other, hfound, hother, hout⟩
      exact ⟨other, hother, found, hfound, hout⟩

/-- Walking a combination of paths is walking all of them. -/
theorem evaluate_combine (operation : SetOperation) (path : Path) (paths : List Path)
    (out : List Binding) :
    (Compilation.combine operation path paths).evaluate store seed = .ok out ↔
      ∃ found others, path.evaluate store seed = .ok found ∧
        List.Forall₂ (fun p other => p.evaluate store seed = .ok other) paths others ∧
        others.foldl operation.apply found = out := by
  induction paths generalizing path with
  | nil => simp [Compilation.combine]
  | cons p paths ih =>
    -- The first of the other paths is taken into the path that the rest is combined with.
    have hcons : Compilation.combine operation path (p :: paths) =
        Compilation.combine operation (Compilation.combine operation path [p]) paths := rfl
    rw [hcons, ih]
    simp only [evaluate_combine_one, List.forall₂_cons_left_iff]
    constructor
    · rintro ⟨_, others, ⟨found, other, hfound, hother, rfl⟩, hothers, hout⟩
      exact ⟨found, other :: others, hfound, ⟨other, others, hother, hothers, rfl⟩, hout⟩
    · rintro ⟨found, _, hfound, ⟨other, others, hother, hothers, rfl⟩, hout⟩
      exact ⟨_, others, ⟨found, other, hfound, hother, rfl⟩, hothers, hout⟩

end Path

namespace Step

/-- What a step finds, or the path to all nodes if there is no step. -/
def Gives [RegexEngine] (store : QuadStore) (v : Vocabulary) (ambient : Option Path)
    (seed : Option Binding) (s : Option Step) (found : List Binding) : Prop :=
  ∃ path, compileSource store s v ambient = .ok path ∧ path.evaluate store seed = .ok found

variable {store : QuadStore} {v : Vocabulary} {ambient : Option Path} {seed : Option Binding}

theorem gives_iff_toOption [RegexEngine] (s : Option Step) (found : List Binding) :
    Gives store v ambient seed s found ↔
      ((compileSource store s v ambient).toOption.bind fun path =>
        (path.evaluate store seed).toOption) = some found := by
  have hresult {ε α : Type} (x : Except ε α) (a : α) : x.toOption = some a ↔ x = .ok a := by
    cases x <;> simp [Except.toOption]
  simp only [Option.bind_eq_some_iff, hresult]
  rfl

instance (s : Option Step) (found : List Binding) :
    Decidable (Gives store v ambient seed s found) :=
  decidable_of_iff _ (gives_iff_toOption s found).symm

theorem gives_unique [RegexEngine] : Relator.RightUnique (Gives store v ambient seed) := by
  rintro s found found' ⟨path, hpath, hfound⟩ ⟨path', hpath', hfound'⟩
  obtain rfl : path = path' := Except.ok.inj (hpath.symm.trans hpath')
  exact Except.ok.inj (hfound.symm.trans hfound')

theorem forall₂_gives_iff [RegexEngine] (steps : List Step) (others : List (List Binding)) :
    List.Forall₂ (fun s other => Gives store v ambient seed (some s) other) steps others ↔
      ∃ paths, compileAll store steps v ambient = .ok paths ∧
        List.Forall₂ (fun p other => p.evaluate store seed = .ok other) paths others := by
  rw [compileAll_eq_mapM]
  induction steps generalizing others with
  | nil => simp [pure_eq_ok]
  | cons s steps ih =>
    rw [List.mapM_cons]
    simp only [List.forall₂_cons_left_iff, ih, bind_eq_ok, pure_eq_ok]
    constructor
    · rintro ⟨other, others, ⟨p, hp, hother⟩, ⟨paths, hpaths, hothers⟩, rfl⟩
      exact ⟨_, ⟨p, hp, paths, hpaths, rfl⟩, .cons hother hothers⟩
    · rintro ⟨_, ⟨p, hp, paths, hpaths, rfl⟩, hall⟩
      obtain ⟨other, others, hother, hothers, rfl⟩ := List.forall₂_cons_left_iff.mp hall
      exact ⟨other, others, ⟨p, hp, hother⟩, ⟨paths, hpaths, hothers⟩, rfl⟩

/-- A set operation finds something exactly if its source and all of its steps do. -/
theorem gives_combine_iff [RegexEngine] (source : Option Step) (operation : SetOperation)
    (steps : List Step) (out : List Binding) :
    Gives store v ambient seed (some (.combine source operation steps)) out ↔
      (operation = .intersect → source.isSome) ∧ ∃ found others,
        Gives store v ambient seed source found ∧
        List.Forall₂ (fun s other => Gives store v ambient seed (some s) other) steps others ∧
        operation.Makes found others out := by
  rw [Gives]
  simp only [compileSource, compile_combine_iff, forall₂_gives_iff, SetOperation.makes_iff]
  constructor
  · rintro ⟨_, ⟨hsource, path, paths, hpath, hpaths, rfl⟩, hout⟩
    obtain ⟨found, others, hfound, hothers, hout⟩ :=
      (Path.evaluate_combine operation path paths out).mp hout
    exact ⟨hsource, found, others, ⟨path, hpath, hfound⟩, ⟨paths, hpaths, hothers⟩, hout⟩
  · rintro ⟨hsource, found, others, ⟨path, hpath, hfound⟩, ⟨paths, hpaths, hothers⟩, hout⟩
    exact ⟨_, ⟨hsource, path, paths, hpath, hpaths, rfl⟩,
      (Path.evaluate_combine operation path paths out).mpr ⟨found, others, hfound, hothers, hout⟩⟩

/-- With one step a match is kept or dropped by its node alone. -/
theorem filter_of_makes (found other kept dropped : List Binding)
    (hkept : SetOperation.intersect.Makes found [other] kept)
    (hdropped : SetOperation.difference.Makes found [other] dropped) :
    ∃ keep : NodeId → Bool, List.Forall₂ (fun b c => c.node = b.node ∧ c.origin = b.origin)
        (found.filter fun b => keep b.node) kept ∧
      dropped = found.filter fun b => !keep b.node := by
  have hdrop : dropped = found.filter fun b => ∀ list : List Binding, list ∈ [other] →
      ∀ c ∈ list, c.node ≠ b.node := hdropped
  have hkeep : (found.filter fun b => other.any (·.node = b.node)) =
      found.filter fun b => ∀ list : List Binding, list ∈ [other] →
        ∃ c ∈ list, c.node = b.node := by
    refine List.filter_congr fun b _ => ?_
    rw [Bool.eq_iff_iff]
    simp
  refine ⟨fun n => other.any (·.node = n), ?_, ?_⟩
  · rw [hkeep]
    exact hkept.imp fun b c h => ⟨h.1, h.2.1⟩
  · rw [hdrop]
    refine List.filter_congr fun b _ => ?_
    rw [Bool.eq_iff_iff]
    simp

/-- Set operations find what they are to make of the matches of their source and of all of their
steps. With one step, an intersection and a difference share out the matches of the source. -/
theorem gives_combine_iff_makes [RegexEngine] (store : QuadStore) (v : Vocabulary)
    (ambient : Option Path) (seed : Option Binding) (source : Option Step) :
    (∀ operation steps out,
      Gives store v ambient seed (some (.combine source operation steps)) out ↔
        (operation = .intersect → source.isSome) ∧ ∃ found others,
          Gives store v ambient seed source found ∧
          List.Forall₂ (fun s other => Gives store v ambient seed (some s) other) steps others ∧
          operation.Makes found others out) ∧
    ∀ s kept dropped, Gives store v ambient seed (some (.combine source .intersect [s])) kept →
      Gives store v ambient seed (some (.combine source .difference [s])) dropped →
      ∃ found, ∃ keep : NodeId → Bool, Gives store v ambient seed source found ∧
        List.Forall₂ (fun b c => c.node = b.node ∧ c.origin = b.origin)
          (found.filter fun b => keep b.node) kept ∧
        dropped = found.filter fun b => !keep b.node := by
  refine ⟨fun operation steps out => gives_combine_iff source operation steps out,
    fun s kept dropped hkept hdropped => ?_⟩
  obtain ⟨-, found, others, hfound, hothers, hmade⟩ := (gives_combine_iff _ _ _ _).mp hkept
  obtain ⟨-, found', others', hfound', hothers', hmade'⟩ := (gives_combine_iff _ _ _ _).mp hdropped
  -- Both operations walk the same paths, and a path has one list of matches.
  obtain rfl := gives_unique hfound hfound'
  obtain rfl := List.right_unique_forall₂' (fun s => @gives_unique _ _ _ _ _ (some s)) hothers
    hothers'
  obtain ⟨other, _, -, hnil, rfl⟩ := List.forall₂_cons_left_iff.mp hothers
  obtain rfl := List.forall₂_nil_left_iff.mp hnil
  obtain ⟨keep, hsame, hdrop⟩ := filter_of_makes found other kept dropped hmade hmade'
  exact ⟨found, keep, hfound, hsame, hdrop⟩

/-- Some people, and those of them who like bob. -/
theorem gives_combine_iff_makes_fans :
    let store := (Graph.ofQuads [.ofIris "alice" "likes" "bob" "",
      .ofIris "carol" "knows" "bob" ""]).toStore
    let people : Step := .named (some (.entities ["alice", "carol", "bob"])) "person"
    let liked : Step := .named (some (.entities ["bob"])) "liked"
    let fans : Step := .visit (some liked) (.one .backward) [.property "likes"]
    let kept := [((Binding.start ⟨0⟩).tagged "person" ⟨0⟩).tagged "liked" ⟨2⟩]
    let dropped :=
      [(Binding.start ⟨3⟩).tagged "person" ⟨3⟩, (Binding.start ⟨2⟩).tagged "person" ⟨2⟩]
    Gives store .empty none none (some (.combine (some people) .intersect [fans])) kept ∧
      Gives store .empty none none (some (.combine (some people) .difference [fans])) dropped ∧
      ∃ found, ∃ keep : NodeId → Bool, Gives store .empty none none (some people) found ∧
        List.Forall₂ (fun b c => c.node = b.node ∧ c.origin = b.origin)
          (found.filter fun b => keep b.node) kept ∧
        dropped = found.filter fun b => !keep b.node := by
  intro store people liked fans kept dropped
  have hkept : Gives store .empty none none
      (some (.combine (some people) .intersect [fans])) kept := by decide +kernel
  have hdropped : Gives store .empty none none
      (some (.combine (some people) .difference [fans])) dropped := by decide +kernel
  exact ⟨hkept, hdropped,
    (gives_combine_iff_makes store .empty none none (some people)).2 fans _ _ hkept hdropped⟩

end Step

end QuadGraph
