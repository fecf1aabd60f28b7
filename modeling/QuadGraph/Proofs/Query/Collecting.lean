import QuadGraph.Proofs.Query.Reading
import QuadGraph.Query.Results
import QuadGraph.Regex.Basic
import QuadGraph.Store.Faults
import QuadGraph.Store.Graph

/-! What is collected from the results of a path. Walking goes from match to match and reads terms
on the way; what comes of it is told by the list of all matches alone, together with what the store
answers about the nodes that are read. -/
namespace QuadGraph

open Outcome

namespace Walk

/-- Going on from match to match counts them all and ends behind the last one. -/
theorem exhaust_of_goTo (w : Walk) (found : List Binding)
    (h : w.advance .live = w.goTo found) :
    w.exhaust .live =
      (found.length, { w with state := .closed none, produced := w.produced + found.length }) := by
  induction found generalizing w with
  | nil =>
    rw [exhaust, h]
    rfl
  | cons b rest ih =>
    rw [exhaust, h]
    simp only [goTo]
    rw [ih { w with state := .standing b rest, produced := w.produced + 1 } rfl]
    simp only [List.length_cons, Nat.add_assoc, Nat.add_comm 1]

theorem advance_start (store : QuadStore) (v : Vocabulary) (path : Path) :
    (start store v path).advance .live =
      match path.evaluate store none with
      | .ok found => (start store v path).goTo found
      | .error e => (false, (start store v path).fail (.store e)) :=
  rfl

end Walk

theorem CountWalk.advance_start (w : Walk) {n : Nat} {last : Walk}
    (h : w.exhaust .live = (n, last)) :
    (start w).advance .live =
      if last.error?.isSome then (false, ⟨last, none, true⟩) else (true, ⟨last, some n, true⟩) := by
  rw [advance, if_neg (by simp [start])]
  simp only [start, h]

namespace Results

variable {token : Token}

/-- Collecting goes on after a result that has been come to, whether or not it could be read. -/
theorem collect_of_advance (r r' next : Results) (found : Option Json)
    (h : r.advance token = (true, r')) (hr : r'.result = (found, next)) :
    (r.collect token).1 = (found.toList ++ ·) <$> (next.collect token).1 := by
  rw [collect, drain, h]
  simp only
  rw [hr]
  simp only [collect]
  cases (drain token next).2.error? with
  | none => rfl
  | some e => rfl

theorem collect_of_end (r r' : Results) (h : r.advance token = (false, r')) :
    (r.collect token).1 = match r'.error? with
      | some e => .error e
      | none => .ok [] := by
  rw [collect, drain, h]
  simp only
  cases r'.error? with
  | none => rfl
  | some e => rfl

/-- Results of which there is one for each match of a walk, told by a function of the match. -/
structure OneEach (make : Walk → Results)
    (tell : QuadStore → Vocabulary → Binding → Except QueryError Json) : Prop where
  error? (w : Walk) : (make w).error? = w.error?
  advance (w : Walk) : (make w).advance .live = (w.advance .live).map id make
  result (w : Walk) (b : Binding) : w.binding? = some b →
    (make w).result = (w.reading (tell w.store w.vocabulary b)).map id make

theorem oneEach_values : OneEach .values Binding.value where
  error? _ := rfl
  advance _ := rfl
  result w b hb := by
    rw [result, w.result_eq_reading b hb]

theorem oneEach_records (selected : List String) :
    OneEach (fun w => .records ⟨w, selected⟩) (Binding.record selected) where
  error? _ := rfl
  advance _ := rfl
  result w b hb := by
    rw [result, RecordWalk.result_eq_reading ⟨w, selected⟩ b hb]
    rfl

variable {make : Walk → Results} {tell : QuadStore → Vocabulary → Binding → Except QueryError Json}

/-- From matches that are still to come all results are collected, or the first failure. -/
theorem OneEach.collect_of_goTo (h : OneEach make tell) (w : Walk) (found : List Binding)
    (hw : w.advance .live = w.goTo found) :
    ((make w).collect .live).1 = found.mapM (tell w.store w.vocabulary) := by
  induction found generalizing w with
  | nil =>
    have hend : (make w).advance .live = (false, make { w with state := .closed none }) := by
      rw [h.advance, hw]
      rfl
    rw [collect_of_end _ _ hend, h.error?]
    rfl
  | cons b rest ih =>
    let here : Walk := { w with state := .standing b rest, produced := w.produced + 1 }
    have hnext : (make w).advance .live = (true, make here) := by
      rw [h.advance, hw]
      rfl
    have hresult := h.result here b rfl
    rw [List.mapM_cons]
    cases htell : tell w.store w.vocabulary b with
    | error e =>
      -- The reason closes the walk, and it is all that is left of the results so far.
      have hread : (make here).result = (none, make (here.fail e)) := by
        rw [hresult, htell]
        rfl
      have hend : (make (here.fail e)).advance .live = (false, make (here.fail e)) := h.advance _
      rw [collect_of_advance _ _ _ _ hnext hread, collect_of_end _ _ hend, h.error?]
      rfl
    | ok json =>
      have hread : (make here).result = (some json, make here) := by
        rw [hresult, htell]
        rfl
      rw [collect_of_advance _ _ _ _ hnext hread, ih here rfl]
      cases rest.mapM (tell w.store w.vocabulary) with
      | error e => rfl
      | ok others => rfl

/-- The walk is opened by the first request, and may fail there. -/
theorem OneEach.collect_start (h : OneEach make tell) (store : QuadStore) (v : Vocabulary)
    (p : Path) :
    ((make (.start store v p)).collect .live).1 =
      (p.evaluate store none).mapError .store >>= fun found => found.mapM (tell store v) := by
  cases heval : p.evaluate store none with
  | error e =>
    have hend : (make (.start store v p)).advance .live =
        (false, make ((Walk.start store v p).fail (.store e))) := by
      rw [h.advance, Walk.advance_start, heval]
      rfl
    rw [collect_of_end _ _ hend, h.error?]
    rfl
  | ok found =>
    apply h.collect_of_goTo
    rw [Walk.advance_start, heval]

theorem collect_count_start (store : QuadStore) (v : Vocabulary) (p : Path) :
    ((Results.count (.start (.start store v p))).collect .live).1 = (do
      let found ← (p.evaluate store none).mapError .store
      return [(JsonLd.encode v (.int (Int64.ofNat found.length))).toJson]) := by
  let w := Walk.start store v p
  cases heval : p.evaluate store none with
  | error e =>
    have hexhaust : w.exhaust .live = (0, w.fail (.store e)) := by
      rw [Walk.exhaust, Walk.advance_start, heval]
    have hend : (Results.count (.start w)).advance .live =
        (false, .count ⟨w.fail (.store e), none, true⟩) := by
      rw [advance, CountWalk.advance_start w hexhaust]
      rfl
    rw [collect_of_end _ _ hend]
    rfl
  | ok found =>
    let last : Walk := { w with state := .closed none, produced := w.produced + found.length }
    have hexhaust : w.exhaust .live = (found.length, last) := by
      apply w.exhaust_of_goTo
      rw [Walk.advance_start, heval]
    have hnext : (Results.count (.start w)).advance .live =
        (true, .count ⟨last, some found.length, true⟩) := by
      rw [advance, CountWalk.advance_start w hexhaust]
      rfl
    -- There is one result, so that nothing comes after it is decided at once.
    rw [collect_of_advance _ _ _ _ hnext rfl, collect_of_end _ _ rfl]
    rfl

/-- Limiting a path limits what is collected from it. -/
theorem OneEach.collect_limit (h : OneEach make tell) (store : QuadStore) (v : Vocabulary)
    (p : Path) (count : Nat) (found : List Json)
    (hfound : ((make (.start store v p)).collect .live).1 = .ok found) :
    ((make (.start store v (.limit p count))).collect .live).1 = .ok (found.take count) := by
  rw [h.collect_start] at hfound ⊢
  rw [Path.evaluate]
  cases heval : p.evaluate store none with
  | error e =>
    rw [heval] at hfound
    cases hfound
  | ok bs =>
    rw [heval] at hfound
    exact mapM_take _ _ count _ hfound

end Results

namespace Step

/-- The results of a step that finds nodes are the nodes of its matches. -/
theorem results_of_isPath [RegexEngine] (store : QuadStore) (v : Vocabulary) (s : Step)
    (h : s.isPath) :
    s.results store v = (do return .values (.start store v (← s.compile store v none))) := by
  unfold results
  split
  · cases h
  · rfl

theorem execute_selectFirst [RegexEngine] (store : QuadStore) (v : Vocabulary)
    (source : Option Step) (tags : List String) (found : List Json)
    (h : (shaped source (.select tags)).execute store v .live = .ok found) :
    (shaped source (.selectFirst tags)).execute store v .live = .ok (found.take 1) := by
  unfold execute results at h ⊢
  simp only at h ⊢
  cases hsource : compileSource store source v none with
  | error e =>
    rw [hsource] at h
    cases h
  | ok p =>
    rw [hsource] at h
    exact (Results.oneEach_records tags).collect_limit store v p 1 found h

theorem execute_value [RegexEngine] (store : QuadStore) (v : Vocabulary) (s : Step) (hs : s.isPath)
    (found : List Json) (h : s.execute store v .live = .ok found) :
    (shaped (some s) .value).execute store v .live = .ok (found.take 1) := by
  unfold execute at h ⊢
  rw [s.results_of_isPath store v hs] at h
  unfold results
  simp only [compileSource]
  cases hsource : s.compile store v none with
  | error e =>
    rw [hsource] at h
    cases h
  | ok p =>
    rw [hsource] at h
    exact Results.oneEach_values.collect_limit store v p 1 found h

end Step

/-- Records that are read of some matches: the first tag whose term cannot be read is what fails,
and otherwise every match has its record. -/
theorem Binding.mapM_record (selected : List String) (store : QuadStore) (v : Vocabulary)
    (bs : List Binding) :
    (∀ e, bs.mapM (fun b => store.readAll (b.members selected)) = .error e →
      bs.mapM (Binding.record selected store v) = .error e) ∧
    (∀ told, bs.mapM (fun b => store.readAll (b.members selected)) = .ok told →
      ∃ records, bs.mapM (Binding.record selected store v) = .ok records ∧
        List.Forall₂ (Binding.RecordedAs selected store v) bs records) := by
  let form (tags : List (String × Term)) : Json :=
    Json.ofMembers (tags.map fun tag => (tag.1, (JsonLd.encode v tag.2).toJson))
  have hread : bs.mapM (Binding.record selected store v) =
      bs.mapM (fun b => store.readAll (b.members selected)) >>= fun told =>
        pure (told.map form) := by
    induction bs with
    | nil => rfl
    | cons b rest ih =>
      rw [List.mapM_cons, List.mapM_cons, ih, Binding.record]
      simp only [bind_assoc, pure_bind, List.map_cons]
      rfl
  rw [hread]
  constructor
  · intro e he
    rw [he]
    rfl
  · intro told htold
    rw [htold] at hread ⊢
    exact ⟨_, rfl, ((mapM_eq_ok _ _ _).mp hread).imp (recordedAs_of_record selected store v)⟩

/-- The results of a path are those of all its matches, in order: the node of each one, the record
of each one, or their number, for which no term is read. Where the path cannot be walked or a term
cannot be read, the first failure is told instead. The first record of a query can be asked for
alone, and so can the first node. -/
theorem Results.collect_evaluated [RegexEngine] (store : QuadStore) (v : Vocabulary) (p : Path) :
    let found := (p.evaluate store none).mapError QueryError.store
    ((Results.values (.start store v p)).collect .live).1 =
      (do (← found).mapM (Binding.value store v)) ∧
    (∀ selected,
      let collected := ((Results.records ⟨.start store v p, selected⟩).collect .live).1
      (∀ e, (do (← found).mapM fun b : Binding => store.readAll (b.members selected)) = .error e →
        collected = .error e) ∧
      ∀ bs told, found = .ok bs →
        bs.mapM (fun b => store.readAll (b.members selected)) = .ok told →
          ∃ records, collected = .ok records ∧
            List.Forall₂ (Binding.RecordedAs selected store v) bs records) ∧
    ((Results.count (.start (.start store v p))).collect .live).1 =
      (do return [(JsonLd.encode v (.int (Int64.ofNat (← found).length))).toJson]) ∧
    (∀ source tags records,
      (Step.shaped source (.select tags)).execute store v .live = .ok records →
        (Step.shaped source (.selectFirst tags)).execute store v .live = .ok (records.take 1)) ∧
    ∀ (s : Step) nodes, s.isPath → s.execute store v .live = .ok nodes →
      (Step.shaped (some s) .value).execute store v .live = .ok (nodes.take 1) := by
  intro found
  refine ⟨?_, fun selected => ?_, ?_, ?_, ?_⟩
  · exact oneEach_values.collect_start store v p
  · intro collected
    have hcollected : collected = found >>= fun bs => bs.mapM (Binding.record selected store v) :=
      (oneEach_records selected).collect_start store v p
    rw [hcollected]
    cases hfound : found with
    | error e =>
      refine ⟨fun e' he => ?_, nofun⟩
      cases he
      rfl
    | ok bs =>
      obtain ⟨herror, hok⟩ := Binding.mapM_record selected store v bs
      refine ⟨herror, ?_⟩
      rintro _ told ⟨⟩ htold
      exact hok told htold
  · exact collect_count_start store v p
  · exact Step.execute_selectFirst store v
  · exact fun s nodes hs => s.execute_value store v hs nodes

/-- Two nodes, under a name, from a store that has them and from one that has lost the first one and
cannot read the second one: what fails first is told, and the nodes are counted nevertheless. -/
theorem Results.collect_evaluated_two_liked :
    let g := Graph.ofQuads [.ofIris "alice" "likes" "bob" "", .ofIris "alice" "likes" "carol" ""]
    let losing := (Faults.mk false false false false [⟨3⟩] [⟨2⟩]).apply g.toStore
    let liked : Step := .named (some (.vertex [.iri "bob", .iri "carol"])) "who"
    let node (name : String) : Json := .object [("@id", .string name)]
    let record (name : String) : Json := .object [("who", .object [("@id", .string name)])]
    let walk := Walk.start losing .standard (.fixed [⟨2⟩, ⟨3⟩])
    let unnamed : Results := .records ⟨.start g.toStore .standard (.fixed [⟨2⟩]), []⟩
    ((Step.shaped (some liked) (.select [])).execute g.toStore .standard .live =
        .ok [record "bob", record "carol"] ∧
      (Step.shaped (some liked) (.selectFirst [])).execute g.toStore .standard .live =
        .ok [record "bob"]) ∧
    (liked.isPath ∧ liked.execute g.toStore .standard .live = .ok [node "bob", node "carol"] ∧
      (Step.shaped (some liked) .value).execute g.toStore .standard .live = .ok [node "bob"]) ∧
    (unnamed.collect .live).1 = .ok [.object [("@current", node "bob")]] ∧
    ((Results.values walk).collect .live).1 = .error (.resolution ⟨2⟩) ∧
    ((Results.records ⟨walk, []⟩).collect .live).1 = .error (.resolution ⟨2⟩) ∧
    ((Results.count (.start walk)).collect .live).1 =
      .ok [.object [("@type", .string "schema:Integer"), ("@value", .string "2")]] := by
  intro g losing liked node record walk unnamed
  obtain ⟨-, -, -, hfirst, hvalue⟩ := collect_evaluated g.toStore .standard .all
  obtain ⟨hvalues, hrecords, hcount, -, -⟩ :=
    collect_evaluated losing .standard (.fixed [⟨2⟩, ⟨3⟩])
  have hselected : (Step.shaped (some liked) (.select [])).execute g.toStore .standard .live =
      .ok [record "bob", record "carol"] := by
    with_unfolding_all rfl
  have hnodes : liked.execute g.toStore .standard .live = .ok [node "bob", node "carol"] := by
    with_unfolding_all rfl
  refine ⟨⟨hselected, hfirst _ _ _ hselected⟩, ⟨rfl, hnodes, hvalue _ _ rfl hnodes⟩,
    by with_unfolding_all rfl, ?_, ?_, ?_⟩
  · rw [hvalues]
    with_unfolding_all rfl
  · apply (hrecords []).1
    with_unfolding_all rfl
  · rw [hcount]
    with_unfolding_all rfl

end QuadGraph
