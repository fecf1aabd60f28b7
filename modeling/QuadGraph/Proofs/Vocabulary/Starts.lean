import Mathlib.Data.List.Induction
import Mathlib.Data.String.Basic
import QuadGraph.Proofs.Vocabulary

/-! Which of the registered starts is used. Starts are looked at in the order of their texts, and a
text comes after every start of itself, so a name is expanded by the shortest of its starts. An IRI
is shortened by the start that stands for most of it. The short name stands for the IRI again if the
shortest start that it has says the same as the one that it was made with. -/
namespace QuadGraph.Vocabulary

theorem compare_append_ne_lt (start r : String) : compare (start ++ r) start ≠ .lt := by
  intro h
  have hlt : start ++ r < start := compareOfLessAndEq_eq_lt.mp h
  rw [String.lt_iff_toList_lt, String.toList_append] at hlt
  exact List.not_lt.mpr List.le_append_left hlt

/-- Of two starts of one text, the shorter one begins the longer one. -/
theorem exists_append_of_length_le (a b r r' : String) (h : a ++ r = b ++ r')
    (hle : a.length ≤ b.length) : ∃ c, a ++ c = b := by
  have hlists := congrArg String.toList h
  rw [String.toList_append, String.toList_append] at hlists
  have ha : a.toList <+: b.toList ++ r'.toList := ⟨r.toList, hlists⟩
  obtain ⟨c, hc⟩ := List.prefix_of_prefix_length_le ha (List.prefix_append _ _)
    (by rwa [String.length_toList, String.length_toList])
  exact ⟨String.ofList c, String.toList_injective (by simpa using hc)⟩

/-- The shortest registered start of a name, what it stands for, and what follows it. -/
structure ShortestStart (v : Vocabulary) (name short full rest : String) : Prop where
  registered : v.prefixes[short]? = some full
  append : short ++ rest = name
  shortest (other full' r : String) : v.prefixes[other]? = some full' → other ++ r = name →
    short.length ≤ other.length

variable {v : Vocabulary} {name short full rest : String}

/-- A name without a rule is expanded by its shortest start. -/
theorem fullIri_of_shortestStart (h : v.ShortestStart name short full rest)
    (hrule : v.rules[name]? = none) : v.fullIri name = full ++ rest := by
  have hmem := Std.ExtTreeMap.mem_toList_iff_getElem?_eq_some.mpr h.registered
  have hrest := (rest?_eq_some short name rest).mpr h.append
  rw [fullIri, hrule]
  simp only
  cases hfind : List.findSome? _ v.prefixes.toList with
  | none =>
    have hnone := List.findSome?_eq_none_iff.mp hfind _ hmem
    simp [hrest] at hnone
  | some expanded =>
    obtain ⟨before, ⟨other, full'⟩, after, hlist, hsome, hnone⟩ :=
      List.findSome?_eq_some_iff.mp hfind
    obtain ⟨r, hr, rfl⟩ := Option.map_eq_some_iff.mp hsome
    have hordered := Std.ExtTreeMap.ordered_keys_toList (t := v.prefixes)
    rw [hlist] at hordered hmem
    rcases List.mem_append.mp hmem with hbefore | hmem
    · have hnone := hnone _ hbefore
      simp [hrest] at hnone
    rcases List.mem_cons.mp hmem with heq | hafter
    · cases heq
      rw [Option.some.inj (hr.symm.trans hrest)]
      rfl
    · -- The start that was found would come before one that begins it.
      have hmem' : (other, full') ∈ v.prefixes.toList := by rw [hlist]; simp
      have hother := Std.ExtTreeMap.mem_toList_iff_getElem?_eq_some.mp hmem'
      have hname := (rest?_eq_some other name r).mp hr
      obtain ⟨c, rfl⟩ := exists_append_of_length_le short other rest r (h.append.trans hname.symm)
        (h.shortest other full' r hother hname)
      have hlt := List.rel_of_pairwise_cons (List.pairwise_append.mp hordered).2.1 hafter
      exact absurd hlt (compare_append_ne_lt short c)

theorem exists_shortestStart (v : Vocabulary) (name short full rest : String)
    (h : v.prefixes[short]? = some full) (hname : short ++ rest = name) :
    ∃ first full' r, v.ShortestStart name first full' r := by
  induction hn : short.length using Nat.strongRecOn generalizing short full rest with
  | _ n ih =>
    by_cases hshorter : ∃ other full' r, v.prefixes[other]? = some full' ∧ other ++ r = name ∧
        other.length < short.length
    · obtain ⟨other, full', r, hother, heq, hlt⟩ := hshorter
      exact ih other.length (hn ▸ hlt) other full' r hother heq rfl
    · refine ⟨short, full, rest, h, hname, fun other full' r hother heq => ?_⟩
      by_contra hlt
      exact hshorter ⟨other, full', r, hother, heq, Nat.lt_of_not_le hlt⟩

/-- What follows a name does not change which start of it is the shortest. -/
theorem ShortestStart.append_right (h : v.ShortestStart name short full rest) (more : String) :
    v.ShortestStart (name ++ more) short full (rest ++ more) := by
  refine ⟨h.registered, by rw [← String.append_assoc, h.append], fun other full' r hother heq => ?_⟩
  by_contra hlt
  -- A start that is shorter still would be a start of the name itself.
  have hshort : short.length ≤ name.length := by
    rw [← h.append, String.length_append]
    omega
  obtain ⟨c, hc⟩ := exists_append_of_length_le other name r more heq (by omega)
  exact hlt (h.shortest other full' c hother hc)

/-- The registered start by which an IRI is shortened, what it stands for, and what follows that:
no other one stands for more of the IRI, and none that stands for as much comes later. -/
structure LongestMatch (v : Vocabulary) (iri short full rest : String) : Prop where
  registered : v.prefixes[short]? = some full
  append : full ++ rest = iri
  longest (other full' r : String) : v.prefixes[other]? = some full' → full' ++ r = iri →
    full'.length < full.length ∨ full'.length = full.length ∧ (compare other short).isLE

/-- The best of some starts for an IRI, if there is one that can be used. -/
def Best (iri : String) (starts : List (String × String)) : Option (String × String) → Prop
  | none => ∀ s ∈ starts, rest? s.2 iri = none
  | some b => b ∈ starts ∧ (rest? b.2 iri).isSome ∧
    ∀ s ∈ starts, (rest? s.2 iri).isSome →
      s.2.length < b.2.length ∨ s.2.length = b.2.length ∧ (compare s.1 b.1).isLE

/-- One more start, which comes after the others, is the best one unless it cannot be used or a
better one is there. -/
theorem best_append (iri : String) (starts : List (String × String)) (last : String × String)
    (best : Option (String × String)) (hbest : Best iri starts best)
    (hlast : ∀ s ∈ starts, compare s.1 last.1 = .lt) :
    Best iri (starts ++ [last])
      (if (rest? last.2 iri).isSome && best.all (fun b => b.2.length ≤ last.2.length) then some last
        else best) := by
  have hself : (compare last.1 last.1).isLE := by rw [Std.ReflOrd.compare_self]; rfl
  split
  · next hbetter =>
    obtain ⟨hrest, hle⟩ := Bool.and_eq_true_iff.mp hbetter
    refine ⟨by simp, hrest, fun s hs hsome => ?_⟩
    rcases List.mem_append.mp hs with hs | hs
    · have hbefore : (compare s.1 last.1).isLE := by rw [hlast s hs]; rfl
      cases best with
      | none => simp [hbest s hs] at hsome
      | some b =>
        have hle : b.2.length ≤ last.2.length := by simpa using hle
        rcases hbest.2.2 s hs hsome with hlt | ⟨heq, -⟩
        · exact Or.inl (Nat.lt_of_lt_of_le hlt hle)
        · rcases Nat.lt_or_eq_of_le hle with hlt | heq'
          · exact Or.inl (heq ▸ hlt)
          · exact Or.inr ⟨heq.trans heq', hbefore⟩
    · cases List.mem_singleton.mp hs
      exact Or.inr ⟨rfl, hself⟩
  · next hworse =>
    cases best with
    | none =>
      intro s hs
      rcases List.mem_append.mp hs with hs | hs
      · exact hbest s hs
      · cases List.mem_singleton.mp hs
        simpa using hworse
    | some b =>
      refine ⟨List.mem_append_left _ hbest.1, hbest.2.1, fun s hs hsome => ?_⟩
      rcases List.mem_append.mp hs with hs | hs
      · exact hbest.2.2 s hs hsome
      · cases List.mem_singleton.mp hs
        left
        simpa [hsome] using hworse

/-- The start of an IRI that stands for most of it is put in place of what it stands for, or the
IRI stays as it is because no start stands for a start of it. -/
theorem shortIri_spec (v : Vocabulary) (iri : String) :
    (∃ short full rest, v.LongestMatch iri short full rest ∧ v.shortIri iri = short ++ rest) ∨
    (∀ short full rest : String, v.prefixes[short]? = some full → full ++ rest ≠ iri) ∧
      v.shortIri iri = iri := by
  let better (best : Option (String × String)) (candidate : String × String) :=
    let isBetter := best.all fun b => b.2.length ≤ candidate.2.length
    if (rest? candidate.2 iri).isSome && isBetter then some candidate else best
  have hbest (starts : List (String × String))
      (hstarts : starts.Pairwise fun a b => compare a.1 b.1 = .lt) :
      Best iri starts (starts.foldl better none) := by
    induction starts using List.reverseRecOn with
    | nil => exact nofun
    | append_singleton starts last ih =>
      obtain ⟨hbefore, -, hlast⟩ := List.pairwise_append.mp hstarts
      rw [List.foldl_append, List.foldl_cons, List.foldl_nil]
      exact best_append iri starts last _ (ih hbefore) fun s hs => hlast s hs last (by simp)
  have hfold := hbest v.prefixes.toList Std.ExtTreeMap.ordered_keys_toList
  unfold shortIri
  simp only
  split
  · next short full hlongest =>
    obtain ⟨hmem, hrest, hmax⟩ : Best iri _ (some (short, full)) := hlongest ▸ hfold
    obtain ⟨r, hr⟩ := Option.isSome_iff_exists.mp hrest
    refine Or.inl ⟨short, full, r, ⟨Std.ExtTreeMap.mem_toList_iff_getElem?_eq_some.mp hmem,
      (rest?_eq_some full iri r).mp hr, fun other full' r' hother heq => ?_⟩, ?_⟩
    · exact hmax (other, full') (Std.ExtTreeMap.mem_toList_iff_getElem?_eq_some.mpr hother)
        (by rw [(rest?_eq_some full' iri r').mpr heq]; rfl)
    · rw [hr, Option.getD_some]
  · next hnone =>
    have hall : Best iri _ none := hnone ▸ hfold
    refine Or.inr ⟨fun short full rest hshort heq => ?_, rfl⟩
    have hrest := hall (short, full) (Std.ExtTreeMap.mem_toList_iff_getElem?_eq_some.mpr hshort)
    rw [(rest?_eq_some full iri rest).mpr heq] at hrest
    cases hrest

/-- A start that the shortest start of itself does not give another meaning. -/
def Undisturbed (v : Vocabulary) (short full : String) : Prop :=
  ∃ first full' r, v.ShortestStart short first full' r ∧ full' ++ r = full

/-- No registered start begins another one. -/
def Independent (v : Vocabulary) : Prop :=
  ∀ short full other full' r : String, v.prefixes[short]? = some full →
    v.prefixes[other]? = some full' → other ++ r = short → other = short

theorem independent_iff (v : Vocabulary) :
    v.Independent ↔ ∀ p ∈ v.prefixes.toList, ∀ q ∈ v.prefixes.toList,
      (rest? q.1 p.1).isSome → q.1 = p.1 := by
  constructor
  · rintro hv ⟨short, full⟩ hp ⟨other, full'⟩ hq hrest
    obtain ⟨r, hr⟩ := Option.isSome_iff_exists.mp hrest
    exact hv short full other full' r (Std.ExtTreeMap.mem_toList_iff_getElem?_eq_some.mp hp)
      (Std.ExtTreeMap.mem_toList_iff_getElem?_eq_some.mp hq) ((rest?_eq_some other short r).mp hr)
  · intro hall short full other full' r hshort hother happend
    refine hall (short, full) (Std.ExtTreeMap.mem_toList_iff_getElem?_eq_some.mpr hshort)
      (other, full') (Std.ExtTreeMap.mem_toList_iff_getElem?_eq_some.mpr hother) ?_
    rw [(rest?_eq_some other short r).mpr happend]
    rfl

instance (v : Vocabulary) : Decidable v.Independent :=
  decidable_of_iff _ (independent_iff v).symm

theorem undisturbed_of_independent (hv : v.Independent) (h : v.prefixes[short]? = some full) :
    v.Undisturbed short full := by
  obtain ⟨first, full', r, hfirst⟩ := exists_shortestStart v short short full "" h (by simp)
  obtain rfl := hv short full first full' r h hfirst.registered hfirst.append
  have hr : r = "" := by simpa using hfirst.append
  have hfull : full = full' := Option.some.inj (h.symm.trans hfirst.registered)
  exact ⟨first, full', r, hfirst, by rw [hr, hfull, String.append_empty]⟩

theorem fullIri_append_of_undisturbed (h : v.Undisturbed short full)
    (hrule : v.rules[short ++ rest]? = none) : v.fullIri (short ++ rest) = full ++ rest := by
  obtain ⟨first, full', r, hfirst, rfl⟩ := h
  rw [fullIri_of_shortestStart (hfirst.append_right rest) hrule, String.append_assoc]

/-- Without rules, the short name of an IRI stands for the IRI again exactly if the start that it is
made with is undisturbed, and always if no registered start begins another one. -/
theorem fullIri_shortIri_iff (v : Vocabulary) (hrules : ∀ name : String, v.rules[name]? = none)
    (iri : String) (h : v.shortIri iri ≠ iri) :
    ∃ short full rest, v.LongestMatch iri short full rest ∧ v.shortIri iri = short ++ rest ∧
      (v.fullIri (v.shortIri iri) = iri ↔ v.Undisturbed short full) ∧
      (v.Independent → v.fullIri (v.shortIri iri) = iri) := by
  rcases v.shortIri_spec iri with ⟨short, full, rest, hmatch, hshort⟩ | ⟨-, hself⟩
  · have hback : v.fullIri (v.shortIri iri) = iri ↔ v.Undisturbed short full := by
      rw [hshort]
      constructor
      · intro heq
        obtain ⟨first, full', r, hfirst⟩ :=
          exists_shortestStart v short short full "" hmatch.registered (by simp)
        refine ⟨first, full', r, hfirst, ?_⟩
        rw [fullIri_of_shortestStart (hfirst.append_right rest) (hrules _), ← hmatch.append,
          ← String.append_assoc] at heq
        exact (String.append_left_inj rest).mp heq
      · intro hfirst
        rw [fullIri_append_of_undisturbed hfirst (hrules _), hmatch.append]
    exact ⟨short, full, rest, hmatch, hshort, hback, fun hv =>
      hback.mpr (undisturbed_of_independent hv hmatch.registered)⟩
  · exact absurd hself h

/-- Two starts for IRIs of which one begins the other: the longer one is used, and read back. -/
theorem fullIri_shortIri_iff_person :
    let v := (empty.addPrefix "ex:" "http://example.org/").addPrefix "exp:"
      "http://example.org/people/"
    let iri := "http://example.org/people/bob"
    v.shortIri iri = "exp:bob" ∧ v.fullIri (v.shortIri iri) = iri := by
  intro v iri
  have hrules (name : String) : v.rules[name]? = none := by simp [v, addPrefix, empty]
  have hshort : v.shortIri iri = "exp:bob" := by decide +kernel
  have hne : v.shortIri iri ≠ iri := by
    rw [hshort]
    decide
  have hv : v.Independent := by decide +kernel
  obtain ⟨short, full, rest, -, -, -, hindependent⟩ := fullIri_shortIri_iff v hrules iri hne
  exact ⟨hshort, hindependent hv⟩

/-- A start that begins another one takes its names over, although each ends with a colon. -/
theorem fullIri_shortIri_misread :
    let v := (empty.addPrefix "a:" "http://a.example/").addPrefix "a:b:" "http://b.example/"
    let iri := "http://b.example/c"
    (∀ short ∈ v.prefixes.keys, short.toList.getLast? = some ':') ∧ v.rules = ∅ ∧
      v.shortIri iri = "a:b:c" ∧ v.shortIri iri ≠ iri ∧
      v.fullIri (v.shortIri iri) = "http://a.example/b:c" ∧ v.fullIri (v.shortIri iri) ≠ iri := by
  decide +kernel

end QuadGraph.Vocabulary
