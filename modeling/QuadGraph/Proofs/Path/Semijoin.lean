import QuadGraph.Proofs.Path.Relative

/-! Keeping matches by what can be reached from them. Whether a quad can be followed is asked in the
way in which it would be followed, so a match is kept exactly if following quads from it leads
anywhere. -/
namespace QuadGraph.Path

open Outcome Walking

/-- Follows quads from a given match, and goes on only at the targets if there are any. -/
def probe (way : Way) (via : Path) : Option (List NodeId) → Path
  | none => .follow .here (.one way) via
  | some nodes => .isOneOf (.follow .here (.one way) via) nodes

theorem not_isEmpty_filter {α : Type} (p : α → Bool) (xs : List α) :
    (!(xs.filter p).isEmpty) = xs.any p := by
  cases h : xs.any p <;> simp_all

variable {store : QuadStore} {via : Path} {nodes : Option (List NodeId)}

/-- From a match the quads are followed that lead to a target. -/
theorem evaluate_probe (way : Way) (targets : Option (List NodeId)) (b : Binding)
    (hvia : admitted via (via.evaluate store none) = .ok nodes) :
    (probe way via targets).evaluate store (some b) = do
      let found ← quads store way nodes b.node
      return (found.filter fun q => admits targets (way.far q)).map fun q =>
        b.moved (way.far q) := by
  have hfollow : (follow .here (.one way) via).evaluate store (some b) = do
      return (← quads store way nodes b.node).map fun q => b.moved (way.far q) := by
    rw [evaluate_of_here _ _ b rfl, stage, hvia]
    change (do return (← hops store (.one way) nodes b.node).map b.moved) = _
    simp only [hops, bind_assoc, pure_bind, List.map_map, Function.comp_def]
  cases targets with
  | none =>
    rw [probe, hfollow]
    simp [admits]
  | some targets =>
    rw [probe, evaluate, hfollow]
    simp only [bind_assoc, pure_bind, List.filter_map, Function.comp_def, admits, Option.all_some]
    rfl

theorem evaluate_isOneOf (source : Path) (nodes : List NodeId) (seed : Option Binding) :
    (isOneOf source nodes).evaluate store seed = source.evaluate store seed >>= fun found =>
      pure (found.filter fun b => nodes.contains b.node) := by
  rw [evaluate]

/-- Keeping matches is walking from each of them, after the predicates have been found, and looking
whether that leads anywhere. This holds too if something fails. -/
theorem evaluate_has (source : Path) (way : Way) (targets : Option (List NodeId))
    (seed : Option Binding) :
    (has source way via targets).evaluate store seed = (do
      let _ ← admitted via (via.evaluate store none)
      let found ← source.evaluate store seed
      found.flatMapM fun b => do
        let hits ← (probe way via targets).evaluate store (some b)
        return if !hits.isEmpty then [b] else []) := by
  rw [evaluate]
  cases hvia : admitted via (via.evaluate store none) with
  | error e => rfl
  | ok nodes =>
    simp only [evaluate_probe way targets _ hvia, bind_assoc, pure_bind, List.isEmpty_map,
      not_isEmpty_filter]
    rfl

theorem exists_admitted_iff (x : Except StoreError (List Binding)) :
    (∃ nodes, admitted via x = .ok nodes) ↔ via.isAll ∨ ∃ predicates, x = .ok predicates := by
  rw [admitted]
  cases via.isAll with
  | true => exact iff_of_true ⟨none, rfl⟩ (.inl rfl)
  | false =>
    cases x with
    | ok predicates => exact iff_of_true ⟨_, rfl⟩ (.inr ⟨predicates, rfl⟩)
    | error e => exact iff_of_false nofun nofun

/-- Walking to some targets or some others leads to one of them all. -/
theorem exists_evaluate_probe_append (way : Way) (vs ws : List NodeId) (b : Binding)
    (hits hits' : List Binding)
    (h : (probe way via (some vs)).evaluate store (some b) = .ok hits)
    (h' : (probe way via (some ws)).evaluate store (some b) = .ok hits') :
    ∃ all, (probe way via (some (vs ++ ws))).evaluate store (some b) = .ok all ∧
      (!all.isEmpty) = (!hits.isEmpty || !hits'.isEmpty) := by
  have hprobe (nodes : List NodeId) (hits : List Binding) :
      (probe way via (some nodes)).evaluate store (some b) = .ok hits ↔
        ∃ ends, (probe way via none).evaluate store (some b) = .ok ends ∧
          (ends.filter fun c => nodes.contains c.node) = hits := by
    have hsome : probe way via (some nodes) = isOneOf (probe way via none) nodes := rfl
    rw [hsome, evaluate_isOneOf, bind_eq_ok]
    simp only [pure_eq_ok]
  obtain ⟨ends, hends, rfl⟩ := (hprobe vs hits).mp h
  obtain ⟨ends', hends', rfl⟩ := (hprobe ws hits').mp h'
  obtain rfl : ends = ends' := Except.ok.inj (hends.symm.trans hends')
  refine ⟨_, (hprobe _ _).mpr ⟨ends, hends, rfl⟩, ?_⟩
  simp only [not_isEmpty_filter, List.contains_append]
  rw [Bool.eq_iff_iff]
  simp only [Bool.or_eq_true, List.any_eq_true, and_or_left, exists_or]

/-- Matches are kept where the probe has hits. The probe tells nothing of the predicates if there is
no match to walk from, so these are to be found too. -/
theorem evaluate_has_eq_ok (seed : Option Binding) (source : Path) (way : Way)
    (targets : Option (List NodeId)) (out : List Binding) :
    (has source way via targets).evaluate store seed = .ok out ↔
      (via.isAll ∨ ∃ predicates, via.evaluate store none = .ok predicates) ∧
      ∃ found, source.evaluate store seed = .ok found ∧ ∃ hits : Binding → List Binding,
        (∀ b ∈ found, (probe way via targets).evaluate store (some b) = .ok (hits b)) ∧
        (found.filter fun b => !(hits b).isEmpty) = out := by
  rw [evaluate_has, ← exists_admitted_iff]
  simp only [bind_eq_ok, flatMapM_bind_pure_eq_ok, flatMap_ite, exists_and_right]

/-- What is kept are the matches from which following quads leads anywhere, in their order. More
targets keep what any of them would keep. -/
theorem has_semijoin (store : QuadStore) (seed : Option Binding) (source : Path) (way : Way)
    (via : Path) :
    (∀ targets out, (has source way via targets).evaluate store seed = .ok out ↔
      (via.isAll ∨ ∃ predicates, via.evaluate store none = .ok predicates) ∧
      ∃ found, source.evaluate store seed = .ok found ∧ ∃ hits : Binding → List Binding,
        (∀ b ∈ found, (probe way via targets).evaluate store (some b) = .ok (hits b)) ∧
        (found.filter fun b => !(hits b).isEmpty) = out) ∧
    ∀ vs ws kept kept', (has source way via (some vs)).evaluate store seed = .ok kept →
      (has source way via (some ws)).evaluate store seed = .ok kept' →
      ∃ found, source.evaluate store seed = .ok found ∧ kept.Sublist found ∧
        kept'.Sublist found ∧ (has source way via (some (vs ++ ws))).evaluate store seed =
          .ok (found.filter fun b => b ∈ kept ∨ b ∈ kept') := by
  refine ⟨evaluate_has_eq_ok seed source way, fun vs ws kept kept' hvs hws => ?_⟩
  obtain ⟨hvia, found, hfound, hits, hhits, rfl⟩ := (evaluate_has_eq_ok _ _ _ _ _).mp hvs
  obtain ⟨-, found', hfound', hits', hhits', rfl⟩ := (evaluate_has_eq_ok _ _ _ _ _).mp hws
  obtain rfl : found = found' := Except.ok.inj (hfound.symm.trans hfound')
  have hall : ∀ b ∈ found, ∃ all,
      (probe way via (some (vs ++ ws))).evaluate store (some b) = .ok all ∧
        (!all.isEmpty) = (!(hits b).isEmpty || !(hits' b).isEmpty) :=
    fun b hb => exists_evaluate_probe_append way vs ws b _ _ (hhits b hb) (hhits' b hb)
  choose! all hall hor using hall
  refine ⟨found, hfound, List.filter_sublist, List.filter_sublist,
    (evaluate_has_eq_ok _ _ _ _ _).mpr
      ⟨hvia, found, hfound, all, hall, List.filter_congr fun b hb => ?_⟩⟩
  rw [hor b hb, Bool.eq_iff_iff]
  simp [hb]

/-- Somebody who likes a person in two graphs is kept once. -/
theorem has_semijoin_likes :
    let store := (Graph.ofQuads [.ofIris "alice" "likes" "bob" "",
      .ofIris "alice" "likes" "bob" "friends", .ofIris "bob" "likes" "carol" ""]).toStore
    let likes (targets : List NodeId) := has .all .forward (.fixed [⟨1⟩]) (some targets)
    (likes [⟨0⟩, ⟨2⟩]).evaluate store none = .ok [.start ⟨0⟩] ∧
      (likes [⟨4⟩]).evaluate store none = .ok [.start ⟨2⟩] ∧
      (likes [⟨0⟩, ⟨2⟩, ⟨4⟩]).evaluate store none = .ok [.start ⟨0⟩, .start ⟨2⟩] := by
  intro store likes
  have hvs : (likes [⟨0⟩, ⟨2⟩]).evaluate store none = .ok [.start ⟨0⟩] := by decide +kernel
  have hws : (likes [⟨4⟩]).evaluate store none = .ok [.start ⟨2⟩] := by decide +kernel
  obtain ⟨found, hfound, -, -, hall⟩ :=
    (has_semijoin store none .all .forward (.fixed [⟨1⟩])).2 _ _ _ _ hvs hws
  have hnodes : evaluate store .all none = .ok ((List.range 5).map fun i => .start ⟨i⟩) := by
    decide +kernel
  obtain rfl := Except.ok.inj (hfound.symm.trans hnodes)
  exact ⟨hvs, hws, hall.trans (by decide +kernel)⟩

end QuadGraph.Path
