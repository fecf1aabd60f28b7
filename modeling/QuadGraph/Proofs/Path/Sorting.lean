import Mathlib.Data.List.Pairwise
import QuadGraph.Proofs.Path.Matches
import QuadGraph.Proofs.Term.Canonical
import QuadGraph.Store.Graph

/-! Matches in the order of the terms at which they stand. Once all terms are read, sorting cannot
fail. It moves whole matches, and leaves those at one place of the order as they came. -/
namespace QuadGraph

/-- A list of matches, sorted: the same matches, none at a greater term than a later one, and those
at the place of any term in the order in which they were found. -/
structure Binding.SortsStably (term : Binding → Term) (found out : List Binding) : Prop where
  perm : out.Perm found
  ordered : out.Pairwise fun b c => (term b).compareCanonical (term c) ≠ .gt
  stable (t : Term) : (out.filter fun b => (term b).compareCanonical t = .eq) =
    found.filter fun b => (term b).compareCanonical t = .eq

namespace Walking

open Outcome

/-- Whether the term of a match comes no later than that of another one. -/
def inOrder (term : Binding → Term) (b c : Binding) : Bool :=
  ((term b).compareCanonical (term c)).isLE

variable {store : QuadStore} {term : Binding → Term} {found out : List Binding}

theorem inOrder_trans (a b c : Binding) (hab : inOrder term a b) (hbc : inOrder term b c) :
    inOrder term a c :=
  Std.TransCmp.isLE_trans hab hbc

theorem inOrder_total (a b : Binding) : inOrder term a b || inOrder term b a := by
  have hswap : (term b).compareCanonical (term a) = ((term a).compareCanonical (term b)).swap :=
    Std.OrientedCmp.eq_swap
  unfold inOrder
  rw [hswap]
  cases (term a).compareCanonical (term b) <;> rfl

/-- Matches that are in order in any case stay as they came. -/
theorem filter_mergeSort (keep : Binding → Bool)
    (hkeep : ∀ b c, keep b → keep c → inOrder term b c) :
    (found.mergeSort (inOrder term)).filter keep = found.filter keep := by
  have hplace : (found.filter keep).Pairwise fun b c => inOrder term b c :=
    List.pairwise_of_forall_mem_list fun b hb c hc =>
      hkeep b c (List.of_mem_filter hb) (List.of_mem_filter hc)
  have hsub : (found.filter keep).Sublist (found.mergeSort (inOrder term)) :=
    List.sublist_mergeSort inOrder_trans inOrder_total hplace List.filter_sublist
  have hkept := hsub.filter keep
  rw [List.filter_eq_self.mpr fun _ => List.of_mem_filter] at hkept
  -- No fewer of them come out, so these are all.
  exact (hkept.eq_of_length ((List.mergeSort_perm _ _).filter keep).length_eq.symm).symm

theorem sortsStably_mergeSort (term : Binding → Term) (found : List Binding) :
    Binding.SortsStably term found (found.mergeSort (inOrder term)) := by
  refine ⟨List.mergeSort_perm _ _, ?_, fun t => ?_⟩
  · exact (List.pairwise_mergeSort inOrder_trans inOrder_total found).imp
      Ordering.isLE_iff_ne_gt.mp
  · refine filter_mergeSort _ fun b c hb hc => ?_
    have hbt : (term b).compareCanonical t = .eq := of_decide_eq_true hb
    have hct : (term c).compareCanonical t = .eq := of_decide_eq_true hc
    rw [inOrder, Std.TransCmp.congr_left hbt, Std.OrientedCmp.eq_comm.mp hct]
    rfl

/-- Where all terms can be read, matches are sorted by them. -/
theorem sorted_eq_mergeSort
    (hterm : ∀ b ∈ found, store.termOf b.node = .ok (some (term b))) :
    sorted store found = .ok (found.mergeSort (inOrder term)) := by
  have hread : ∀ b ∈ found, (do return (← store.term b.node, b)) = Except.ok (term b, b) := by
    intro b hb
    rw [QuadStore.term, hterm b hb]
    rfl
  have hkeyed : found.mapM (fun b => do return (← store.term b.node, b)) =
      .ok (found.map fun b => (term b, b)) := by
    rw [mapM_eq_ok, List.forall₂_map_right_iff, List.forall₂_same]
    exact hread
  have hsort : (found.mergeSort (inOrder term)).map (fun b => (term b, b)) =
      (found.map fun b => (term b, b)).mergeSort fun a b => (a.1.compareCanonical b.1).isLE :=
    List.map_mergeSort fun _ _ _ _ => rfl
  rw [sorted, hkeyed]
  change Except.ok _ = _
  rw [← hsort, List.map_map]
  exact congrArg Except.ok (List.map_id _)

/-- Matches that have been sorted stand at nodes whose terms can be read. -/
theorem exists_term_of_sorted (h : sorted store found = .ok out) :
    ∃ term : Binding → Term, ∀ b ∈ found, store.termOf b.node = .ok (some (term b)) := by
  obtain ⟨keyed, hkeyed, -⟩ := (bind_eq_ok _ _ out).mp h
  have hread : ∀ b, ∃ t, b ∈ found → store.termOf b.node = .ok (some t) := by
    intro b
    by_cases hb : b ∈ found
    · obtain ⟨key, hkey⟩ := (exists_mapM_eq_ok_iff _ found).mp ⟨keyed, hkeyed⟩ b hb
      obtain ⟨t, ht, -⟩ := (bind_eq_ok _ _ key).mp hkey
      obtain ⟨some?, hsome, hterm⟩ := (bind_eq_ok _ _ t).mp ht
      cases some? with
      | none => cases hterm
      | some u => exact ⟨u, fun _ => hsome⟩
    · exact ⟨.plain "", fun hmem => absurd hmem hb⟩
  choose term hterm using hread
  exact ⟨term, hterm⟩

/-- Sorted matches are in order, so sorting them again changes nothing. -/
theorem sorted_sorted (h : sorted store found = .ok out) : sorted store out = .ok out := by
  obtain ⟨term, hterm⟩ := exists_term_of_sorted h
  rw [sorted_eq_mergeSort hterm] at h
  cases h
  have hmem : ∀ b ∈ found.mergeSort (inOrder term), store.termOf b.node = .ok (some (term b)) :=
    fun b hb => hterm b (List.mem_mergeSort.mp hb)
  rw [sorted_eq_mergeSort hmem,
    List.mergeSort_of_pairwise (List.pairwise_mergeSort inOrder_trans inOrder_total found)]

theorem sorted_eq_error (before after : List Binding) (b : Binding) (e : StoreError)
    (hbefore : ∀ c ∈ before, ∃ t, store.termOf c.node = .ok (some t))
    (hb : store.term b.node = .error e) : sorted store (before ++ b :: after) = .error e := by
  have hread : ∀ c ∈ before, ∃ key : Term × Binding,
      (do return (← store.term c.node, c)) = Except.ok (ε := StoreError) key := by
    intro c hc
    obtain ⟨t, ht⟩ := hbefore c hc
    exact ⟨(t, c), by rw [QuadStore.term, ht]; rfl⟩
  rw [sorted, mapM_eq_error _ before b after e (exists_mapM_eq_ok _ before hread)
    (by rw [hb]; rfl)]
  rfl

end Walking

namespace Path

open Outcome Walking

/-- Ordering is a stable sort. If the terms of all matches can be read, it gives the same matches,
sorted by their terms, and equal terms as they came. Ordering once more changes nothing, and it
fails with the source. At the first match whose term cannot be read or is missing, it fails with
the reason. -/
theorem order_sorts (store : QuadStore) (source : Path) (seed : Option Binding) :
    (∀ found (term : Binding → Term), source.evaluate store seed = .ok found →
      (∀ b ∈ found, store.termOf b.node = .ok (some (term b))) →
      ∃ out, (order source).evaluate store seed = .ok out ∧ Binding.SortsStably term found out) ∧
    (order (order source)).evaluate store seed = (order source).evaluate store seed ∧
    (∀ e, source.evaluate store seed = .error e → (order source).evaluate store seed = .error e) ∧
    (∀ before b after, source.evaluate store seed = .ok (before ++ b :: after) →
      (∀ c ∈ before, ∃ t, store.termOf c.node = .ok (some t)) →
      (store.termOf b.node = .ok none →
        (order source).evaluate store seed = .error (.unknownNode b.node)) ∧
      ∀ e, store.termOf b.node = .error e → (order source).evaluate store seed = .error e) := by
  have horder (p : Path) (found : List Binding) (h : p.evaluate store seed = .ok found) :
      (order p).evaluate store seed = sorted store found := by
    rw [evaluate, h]
    rfl
  have hfails (p : Path) (e : StoreError) (h : p.evaluate store seed = .error e) :
      (order p).evaluate store seed = .error e := by
    rw [evaluate, h]
    rfl
  refine ⟨?_, ?_, hfails source, ?_⟩
  · intro found term hfound hterm
    exact ⟨_, (horder source found hfound).trans (sorted_eq_mergeSort hterm),
      sortsStably_mergeSort term found⟩
  · cases hout : (order source).evaluate store seed with
    | error e => exact hfails _ e hout
    | ok out =>
      obtain ⟨found, hfound, hsorted⟩ := (bind_eq_ok _ _ out).mp hout
      exact (horder _ out hout).trans (sorted_sorted hsorted)
  · intro before b after hfound hbefore
    have herror (e : StoreError) (hb : store.term b.node = .error e) :
        (order source).evaluate store seed = .error e :=
      (horder source _ hfound).trans (sorted_eq_error before after b e hbefore hb)
    refine ⟨fun hb => herror _ ?_, fun e hb => herror e ?_⟩
    · rw [QuadStore.term, hb]
      rfl
    · rw [QuadStore.term, hb]
      rfl

/-- A number with a name, a person, and the number again: the person comes first, and the numbers
stay as they came. A node after them that is not there is told. -/
theorem order_sorts_age :
    let store := (Graph.ofQuads [⟨.iri "alice", .iri "age", .int 10, none⟩]).toStore
    let age := Binding.start ⟨2⟩
    let alice := Binding.start ⟨0⟩
    let source : Path := .union (.tag (.fixed [⟨2⟩]) "first") (.fixed [⟨0⟩, ⟨2⟩])
    let found := [age.tagged "first" ⟨2⟩, alice, age]
    let out := [alice, age.tagged "first" ⟨2⟩, age]
    let term (b : Binding) : Term := if b.node = ⟨0⟩ then .iri "alice" else .int 10
    source.evaluate store none = .ok found ∧ (order source).evaluate store none = .ok out ∧
      Binding.SortsStably term found out ∧ (order (order source)).evaluate store none = .ok out ∧
      (order (.union source (.fixed [⟨3⟩, ⟨4⟩]))).evaluate store none =
        .error (.unknownNode ⟨3⟩) := by
  intro store age alice source found out term
  have hfound : source.evaluate store none = .ok found := by decide +kernel
  have hterm : ∀ b ∈ found, store.termOf b.node = .ok (some (term b)) := by decide +kernel
  have hbefore : ∀ c ∈ found, ∃ t, store.termOf c.node = .ok (some t) :=
    fun c hc => ⟨term c, hterm c hc⟩
  have hsort : found.mergeSort (inOrder term) = out := by
    have hlater : inOrder term (age.tagged "first" ⟨2⟩) alice = false := by decide +kernel
    have hsame : inOrder term (age.tagged "first" ⟨2⟩) age = true := by decide +kernel
    have hsooner : inOrder term alice age = true := by decide +kernel
    simp [found, out, List.mergeSort, hlater, hsame, hsooner]
  have hout : (order source).evaluate store none = .ok out := by
    rw [evaluate, hfound, ← hsort]
    exact sorted_eq_mergeSort hterm
  obtain ⟨hsorts, htwice, -, -⟩ := order_sorts store source none
  obtain ⟨-, -, -, hfails⟩ := order_sorts store (.union source (.fixed [⟨3⟩, ⟨4⟩])) none
  obtain ⟨out', hout', hstable⟩ := hsorts found term hfound hterm
  obtain rfl : out = out' := Except.ok.inj (hout.symm.trans hout')
  refine ⟨hfound, hout, hstable, htwice.trans hout, ?_⟩
  exact (hfails found (.start ⟨3⟩) [.start ⟨4⟩] (by decide +kernel) hbefore).1 (by decide +kernel)

end Path

end QuadGraph
