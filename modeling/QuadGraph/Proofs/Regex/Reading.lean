import Mathlib.Data.List.Forall2
import Mathlib.Data.Option.Basic
import QuadGraph.Proofs.Regex.Documentation
import QuadGraph.Proofs.Regex.Spans
import QuadGraph.Regex.Basic

/-! The engine behaves as documented. Parts in a row are read back one by one, because escaped
characters stand for themselves and no part begins with a mark that would change the one before it,
and the meaning of what is read back is the row of their meanings. -/
namespace QuadGraph.Regex

open RegexPart

/-- A text is read as some items, whatever was read before it and wherever it does not change what
it follows. A character takes at most one unit of fuel. -/
def Reads (text : List Char) (items : List Pattern) : Prop :=
  ∀ fuel done rest, rest.head? ≠ some '?' → ∃ left, fuel ≤ left ∧
    branch (fuel + text.length) ⟨false, []⟩ done (text ++ rest) =
      branch left ⟨false, []⟩ (items.reverse ++ done) rest

theorem skipLazy_of_head (text : List Char) (h : text.head? ≠ some '?') : skipLazy text = text := by
  unfold skipLazy
  split
  · exact absurd rfl h
  · rfl

theorem reads_nil : Reads [] [] := fun fuel _ _ _ => ⟨fuel, le_rfl, rfl⟩

theorem reads_append (xs ys : List Char) (items items' : List Pattern) (hxs : Reads xs items)
    (hys : Reads ys items') (hhead : ys.head? ≠ some '?') : Reads (xs ++ ys) (items ++ items') := by
  intro fuel done rest hrest
  have hbehind : (ys ++ rest).head? ≠ some '?' := by
    cases ys with
    | nil => exact hrest
    | cons c ys => exact hhead
  obtain ⟨left, hleft, hfirst⟩ := hxs (fuel + ys.length) done (ys ++ rest) hbehind
  -- What the first text leaves over is handed on to what is behind both.
  obtain ⟨left', hleft', hsecond⟩ := hys (left - ys.length) (items.reverse ++ done) rest hrest
  rw [Nat.sub_add_cancel (by omega)] at hsecond
  refine ⟨left', by omega, ?_⟩
  rw [List.length_append, Nat.add_comm xs.length, ← Nat.add_assoc, List.append_assoc, hfirst,
    hsecond, List.reverse_append, List.append_assoc]

theorem reads_start : Reads ['^'] [.assertion .lineStart] :=
  fun fuel _ _ _ => ⟨fuel, le_rfl, rfl⟩

theorem reads_stop : Reads ['$'] [.assertion .lineEnd] :=
  fun fuel _ _ _ => ⟨fuel, le_rfl, rfl⟩

theorem reads_any : Reads ['.'] [.dot] :=
  fun fuel _ _ _ => ⟨fuel, le_rfl, rfl⟩

/-- An asterisk would not be read alone if a question mark stood behind it. -/
theorem reads_anyRun : Reads ['.', '*'] [.repetition 0 none .dot] := by
  intro fuel done rest hrest
  refine ⟨fuel, le_rfl, ?_⟩
  change branch fuel ⟨false, []⟩ (.repetition 0 none .dot :: done) (skipLazy rest) = _
  rw [skipLazy_of_head rest hrest]
  rfl

theorem reads_dotAll : Reads "(?s)".toList [.switches [(.dotAll, true)]] :=
  fun fuel _ _ _ => ⟨fuel + 3, Nat.le_add_right fuel 3, rfl⟩

theorem branch_literal (c : Char) (hc : isSpecial c = false) (fuel : Nat) (done : List Pattern)
    (rest : List Char) : branch (fuel + 1) ⟨false, []⟩ done (c :: rest) =
      branch fuel ⟨false, []⟩ (.literal ⟨c, false⟩ :: done) rest := by
  have hskip : skip false (c :: rest) = c :: rest := rfl
  rw [branch, hskip]
  split
  case h_1 heq => cases heq
  case h_14 heq =>
    cases heq
    rfl
  -- The others are for characters that are special.
  all_goals
    next heq =>
      cases heq
      exact absurd hc (by decide)

theorem reads_escapeChar (c : Char) : Reads (escapeChar c) [.literal ⟨c, false⟩] := by
  intro fuel done rest _
  rw [escapeChar]
  split
  · next hc =>
    have hescape : escape false (c :: rest) = some (.literal ⟨c, false⟩, rest) := by
      unfold escape
      exact if_pos (by rw [isEscapable, hc, Bool.true_or])
    have hskip : skip false ('\\' :: c :: rest) = '\\' :: c :: rest := rfl
    refine ⟨fuel + 1, Nat.le_succ fuel, ?_⟩
    change branch (fuel + 1 + 1) ⟨false, []⟩ done ('\\' :: c :: rest) = _
    rw [branch, hskip]
    simp only [hescape]
    rfl
  · next hc =>
    exact ⟨fuel, le_rfl, branch_literal c (Bool.eq_false_iff.mpr hc) fuel done rest⟩

/-- No escaped character begins with a mark, since all marks are special. -/
theorem head_flatMap_escapeChar (text : List Char) :
    (text.flatMap escapeChar).head? ≠ some '?' := by
  cases text with
  | nil => nofun
  | cons c rest =>
    rw [List.flatMap_cons, escapeChar]
    split
    · simp
    · next hc =>
      rintro ⟨⟩
      exact hc (by decide)

theorem reads_flatMap_escapeChar (text : List Char) :
    Reads (text.flatMap escapeChar) (text.map fun c => .literal ⟨c, false⟩) := by
  induction text with
  | nil => exact reads_nil
  | cons c rest ih =>
    exact reads_append _ _ [_] _ (reads_escapeChar c) ih (head_flatMap_escapeChar rest)

/-- What a part is read as. -/
def items : RegexPart → List Pattern
  | .start => [.assertion .lineStart]
  | .stop => [.assertion .lineEnd]
  | .any => [.dot]
  | .anyRun => [.repetition 0 none .dot]
  | .literal text => text.toList.map fun c => .literal ⟨c, false⟩

theorem toList_source_literal (text : String) :
    (RegexPart.literal text).source.toList = text.toList.flatMap escapeChar :=
  String.toList_ofList

theorem reads_source (part : RegexPart) : Reads part.source.toList (items part) := by
  cases part with
  | start => exact reads_start
  | stop => exact reads_stop
  | any => exact reads_any
  | anyRun => exact reads_anyRun
  | literal text =>
    rw [toList_source_literal]
    exact reads_flatMap_escapeChar text.toList

theorem head_sources (parts : List RegexPart) : (sources parts).toList.head? ≠ some '?' := by
  induction parts with
  | nil => nofun
  | cons part parts ih =>
    have hpart : part.source.toList.head? ≠ some '?' := by
      cases part with
      | literal text =>
        rw [toList_source_literal]
        exact head_flatMap_escapeChar text.toList
      | _ => decide
    rw [sources, String.toList_append]
    cases h : part.source.toList with
    | nil => exact ih
    | cons c rest => rwa [h] at hpart

theorem reads_sources (parts : List RegexPart) :
    Reads (sources parts).toList (parts.flatMap items) := by
  induction parts with
  | nil => exact reads_nil
  | cons part parts ih =>
    rw [sources, String.toList_append, List.flatMap_cons]
    exact reads_append _ _ _ _ (reads_source part) ih (head_sources parts)

theorem depths_items (parts : List RegexPart) : Pattern.depths (parts.flatMap items) ≤ 1 := by
  have hdepths (patterns : List Pattern) (h : ∀ p ∈ patterns, p.depth ≤ 1) :
      Pattern.depths patterns ≤ 1 := by
    induction patterns with
    | nil => exact Nat.zero_le 1
    | cons p patterns ih =>
      obtain ⟨hp, hpatterns⟩ := List.forall_mem_cons.mp h
      exact Nat.max_le.mpr ⟨hp, ih hpatterns⟩
  refine hdepths _ fun p hp => ?_
  obtain ⟨part, -, hp⟩ := List.mem_flatMap.mp hp
  cases part <;> simp only [items, List.mem_singleton, List.mem_map] at hp
  case literal text =>
    obtain ⟨c, -, rfl⟩ := hp
    exact Nat.zero_le 1
  all_goals
    subst hp
    decide

/-- What is read up to the end of a text is the pattern of the text. -/
theorem read?_of_reads (text : String) (patterns : List Pattern) (h : Reads text.toList patterns)
    (hdepths : Pattern.depths patterns ≤ 1) :
    Pattern.read? text = some (Pattern.ofItems patterns) := by
  obtain ⟨left, hleft, hbranch⟩ := h (text.toList.length + 1) [] [] nofun
  obtain ⟨left, rfl⟩ : ∃ n, left = n + 1 := ⟨left - 1, by omega⟩
  have hend : branch (left + 1) ⟨false, []⟩ (patterns.reverse ++ []) [] =
      some (patterns.reverse ++ [], ⟨false, []⟩, []) := rfl
  -- The fuel is twice the length of the text, of which reading it takes up no more than half.
  have hfuel : 2 * text.toList.length + 2 = text.toList.length + 1 + text.toList.length + 1 := by
    omega
  have hbranches : branches (2 * text.toList.length + 2) ⟨false, []⟩ text.toList =
      some ([Pattern.ofItems patterns], ⟨false, []⟩, []) := by
    rw [List.append_nil] at hbranch
    rw [hfuel, branches, hbranch, hend]
    simp
  have hdepth : (Pattern.ofItems patterns).depth ≤ 250 := by
    match patterns with
    | [] => decide
    | [p] =>
      simp only [Pattern.depths] at hdepths
      simp only [Pattern.ofItems]
      omega
    | p :: q :: patterns =>
      simp only [Pattern.ofItems, Pattern.depth]
      omega
  rw [Pattern.read?]
  simp only [hbranches]
  simp [Pattern.ofBranches, hdepth]

/-- What a part takes up. -/
def exprs : RegexPart → List Expr
  | .start => [.look .textStart]
  | .stop => [.look .textEnd]
  | .any => [.one .all]
  | .anyRun => [.repetition 0 none (.one .all)]
  | .literal text => text.toList.map fun c => .one (.single c)

/-- Expressions in a row. -/
def row (exprs : List Expr) : Expr :=
  exprs.foldr .sequence .empty

theorem spans_row_append (first second : List Expr) (text : List Char) (i j : Nat) :
    (row (first ++ second)).Spans text i j ↔
      ∃ k, (row first).Spans text i k ∧ (row second).Spans text k j := by
  induction first generalizing i with
  | nil =>
    change _ ↔ ∃ k, i = k ∧ _
    rw [exists_eq_left']
    rfl
  | cons e first ih =>
    constructor
    · rintro ⟨l, he, hrest⟩
      obtain ⟨k, hfirst, hsecond⟩ := (ih l).mp hrest
      exact ⟨k, ⟨l, he, hfirst⟩, hsecond⟩
    · rintro ⟨k, ⟨l, he, hfirst⟩, hsecond⟩
      exact ⟨l, he, (ih l).mpr ⟨k, hfirst, hsecond⟩⟩

theorem spans_row_singleton (e : Expr) (text : List Char) (i j : Nat) :
    (row [e]).Spans text i j ↔ e.Spans text i j := by
  change (∃ k, e.Spans text i k ∧ k = j) ↔ _
  rw [exists_eq_right]

/-- Under the flag that dots stand for line ends a pattern means an expression. -/
def Means (pattern : Pattern) (e : Expr) : Prop :=
  pattern.meaning? { dotAll := true } = some (e, { dotAll := true })

theorem means_items (part : RegexPart) : List.Forall₂ Means (items part) (exprs part) := by
  cases part with
  | literal text =>
    rw [items, exprs, List.forall₂_map_left_iff, List.forall₂_map_right_iff, List.forall₂_same]
    exact fun c _ => rfl
  | _ => exact .cons rfl .nil

theorem means_flatMap_items (parts : List RegexPart) :
    List.Forall₂ Means (parts.flatMap items) (parts.flatMap exprs) := by
  induction parts with
  | nil => exact .nil
  | cons part parts ih =>
    rw [List.flatMap_cons, List.flatMap_cons]
    exact List.rel_append (means_items part) ih

theorem concatenation?_of_means (patterns : List Pattern) (es : List Expr)
    (h : List.Forall₂ Means patterns es) :
    Pattern.concatenation? { dotAll := true } patterns = some (row es, { dotAll := true }) := by
  induction h with
  | nil => rfl
  | cons hfirst _ ih =>
    rw [Pattern.concatenation?, hfirst]
    simp only [Option.bind_eq_bind, Option.bind_some, ih]
    rfl

/-- A row of one item is the item itself, which spans the same. -/
theorem meaning?_ofItems (patterns : List Pattern) (es : List Expr)
    (h : List.Forall₂ Means patterns es) :
    ∃ e, Means (Pattern.ofItems patterns) e ∧ ∀ text i j,
      e.Spans text i j ↔ (row es).Spans text i j := by
  match h with
  | .nil => exact ⟨.empty, rfl, fun _ _ _ => Iff.rfl⟩
  | .cons hfirst .nil => exact ⟨_, hfirst, fun _ _ _ => (spans_row_singleton ..).symm⟩
  | .cons hfirst (.cons hsecond hrest) =>
    exact ⟨_, concatenation?_of_means _ _ (.cons hfirst (.cons hsecond hrest)),
      fun _ _ _ => Iff.rfl⟩

/-- The flag in front takes up nothing and is in force behind it. -/
theorem meaning?_ofItems_dotAll (patterns : List Pattern) (es : List Expr)
    (h : List.Forall₂ Means patterns es) :
    ∃ e modes, (Pattern.ofItems (.switches [(.dotAll, true)] :: patterns)).meaning? {} =
      some (e, modes) ∧ ∀ text i j, e.Spans text i j ↔ (row es).Spans text i j := by
  have hflag : (Pattern.switches [(.dotAll, true)]).meaning? {} =
      some (.empty, { dotAll := true }) := rfl
  have hrow := concatenation?_of_means patterns es h
  match h with
  | .nil => exact ⟨.empty, _, hflag, fun _ _ _ => Iff.rfl⟩
  | .cons _ _ =>
    refine ⟨.sequence .empty (row _), { dotAll := true }, ?_, fun _ _ _ => exists_eq_left'⟩
    change Pattern.concatenation? {} (.switches _ :: _) = _
    rw [Pattern.concatenation?, hflag]
    simp only [Option.bind_eq_bind, Option.bind_some, hrow]
    rfl

/-- A text can take up what stands between two places as a regular expression. -/
def TakesUp (dotAll : Bool) (source : String) (text : List Char) (i j : Nat) : Prop :=
  ∃ e, expr? dotAll source = some e ∧ e.Spans text i j

/-- The size of the expression of a text. -/
def size (source : String) : Nat :=
  ((expr? false source).map Expr.states).getD 0

theorem expr?_of_meaning (dotAll : Bool) (source : String) (pattern : Pattern) (e : Expr)
    (modes : Modes) (hread : Pattern.read? source = some pattern)
    (hmeaning : pattern.meaning? { dotAll } = some (e, modes)) : expr? dotAll source = some e := by
  simp only [expr?, hread, Option.bind_eq_bind, Option.bind_some, hmeaning]
  rfl

theorem expr?_sources (parts : List RegexPart) : ∃ e, expr? true (sources parts) = some e ∧
    ∀ text i j, e.Spans text i j ↔ (row (parts.flatMap exprs)).Spans text i j := by
  obtain ⟨e, hmeans, hspans⟩ := meaning?_ofItems _ _ (means_flatMap_items parts)
  have hread := read?_of_reads _ _ (reads_sources parts) (depths_items parts)
  exact ⟨e, expr?_of_meaning true _ _ e _ hread hmeans, hspans⟩

theorem expr?_dotAll_sources (parts : List RegexPart) :
    ∃ e, expr? false ("(?s)" ++ sources parts) = some e ∧
      ∀ text i j, e.Spans text i j ↔ (row (parts.flatMap exprs)).Spans text i j := by
  have hreads : Reads ("(?s)" ++ sources parts).toList
      (.switches [(.dotAll, true)] :: parts.flatMap items) := by
    rw [String.toList_append]
    exact reads_append _ _ [_] _ reads_dotAll (reads_sources parts) (head_sources parts)
  have hdepths : Pattern.depths (.switches [(.dotAll, true)] :: parts.flatMap items) ≤ 1 :=
    Nat.max_le.mpr ⟨Nat.zero_le 1, depths_items parts⟩
  obtain ⟨e, modes, hmeaning, hspans⟩ := meaning?_ofItems_dotAll _ _ (means_flatMap_items parts)
  have hread := read?_of_reads _ _ hreads hdepths
  exact ⟨e, expr?_of_meaning false _ _ e modes hread hmeaning, hspans⟩

theorem takesUp_sources_iff (parts : List RegexPart) (text : List Char) (i j : Nat) :
    TakesUp true (sources parts) text i j ↔ (row (parts.flatMap exprs)).Spans text i j := by
  obtain ⟨e, he, hspans⟩ := expr?_sources parts
  rw [TakesUp, he, ← hspans]
  simp

theorem takesUp_source_iff (part : RegexPart) (text : List Char) (i j : Nat) :
    TakesUp true part.source text i j ↔ (row (exprs part)).Spans text i j := by
  have hpart := takesUp_sources_iff [part] text i j
  rwa [sources, sources, String.append_empty, List.flatMap_singleton] at hpart

theorem takesUp_concatenation (part : RegexPart) (parts : List RegexPart) (text : List Char)
    (i j : Nat) : TakesUp true (part.source ++ sources parts) text i j ↔
      ∃ k, TakesUp true part.source text i k ∧ TakesUp true (sources parts) text k j := by
  rw [← sources, takesUp_sources_iff, List.flatMap_cons, spans_row_append]
  simp only [takesUp_source_iff, takesUp_sources_iff]

theorem takesUp_dotAll (parts : List RegexPart) (text : List Char) (i j : Nat) :
    TakesUp false ("(?s)" ++ sources parts) text i j ↔ TakesUp true (sources parts) text i j := by
  obtain ⟨e, he, hspans⟩ := expr?_dotAll_sources parts
  rw [takesUp_sources_iff, TakesUp, he, ← hspans]
  simp

theorem takesUp_start (text : List Char) (i j : Nat) (hi : i ≤ text.length) :
    TakesUp true "^" text i j ↔ i = 0 ∧ j = i := by
  refine (takesUp_source_iff .start text i j).trans ((spans_row_singleton ..).trans ?_)
  cases i with
  | zero => simp [Expr.Spans, Look.holds, Expr.before, eq_comm]
  | succ i => simp [Expr.Spans, Look.holds, Expr.before, List.getElem?_eq_getElem hi]

theorem takesUp_stop (text : List Char) (i j : Nat) (hi : i ≤ text.length) :
    TakesUp true "$" text i j ↔ i = text.length ∧ j = i := by
  refine (takesUp_source_iff .stop text i j).trans ((spans_row_singleton ..).trans ?_)
  have hlook : (Expr.look .textEnd).Spans text i j ↔ i = j ∧ text.length ≤ i := by
    simp [Expr.Spans, Look.holds]
  rw [hlook]
  omega

theorem takesUp_any (text : List Char) (i j : Nat) :
    TakesUp true "." text i j ↔ i < text.length ∧ j = i + 1 := by
  refine (takesUp_source_iff .any text i j).trans ((spans_row_singleton ..).trans ?_)
  constructor
  · rintro ⟨rfl, c, hc, -⟩
    exact ⟨(List.getElem?_eq_some_iff.mp hc).1, rfl⟩
  · rintro ⟨hi, rfl⟩
    exact ⟨rfl, text[i], List.getElem?_eq_getElem hi, rfl⟩

/-- Rounds are steps one after the other. -/
theorem exists_rounds_iff (R : Nat → Nat → Prop) (i j : Nat) :
    (∃ n, Rounds R n i j) ↔ Relation.ReflTransGen R i j := by
  constructor
  · rintro ⟨n, hrounds⟩
    induction n generalizing i with
    | zero => exact hrounds ▸ .refl
    | succ n ih =>
      obtain ⟨k, hk, hrounds⟩ := hrounds
      exact .head hk (ih k hrounds)
  · intro hrun
    induction hrun using Relation.ReflTransGen.head_induction_on with
    | refl => exact ⟨0, rfl⟩
    | head hk _ ih =>
      obtain ⟨n, hrounds⟩ := ih
      exact ⟨n + 1, _, hk, hrounds⟩

theorem takesUp_star (text : List Char) (i j : Nat) :
    TakesUp true ".*" text i j ↔ Relation.ReflTransGen (TakesUp true "." text) i j := by
  have hany : TakesUp true "." text = (Expr.one .all).Spans text := by
    funext k l
    exact propext ((takesUp_source_iff .any text k l).trans (spans_row_singleton ..))
  refine (takesUp_source_iff .anyRun text i j).trans ((spans_row_singleton ..).trans ?_)
  rw [hany, ← exists_rounds_iff]
  simp [Expr.Spans]

theorem contains_single (c d : Char) : (CharClass.single c).contains d ↔ d = c := by
  rw [CharClass.single, CharClass.contains, Bool.and_eq_true, decide_eq_true_iff,
    decide_eq_true_iff, ← Char.toNat_inj]
  omega

theorem spans_single_iff (c : Char) (text : List Char) (i j : Nat) :
    (Expr.one (.single c)).Spans text i j ↔ text[i]? = some c ∧ j = i + 1 := by
  constructor
  · rintro ⟨rfl, d, hd, hc⟩
    exact ⟨(contains_single c d).mp hc ▸ hd, rfl⟩
  · rintro ⟨hc, rfl⟩
    exact ⟨rfl, c, hc, (contains_single c c).mpr rfl⟩

/-- The characters of a text in a row take up the text itself. -/
theorem spans_row_single_iff (literal text : List Char) (i j : Nat) :
    (row (literal.map fun c => .one (.single c))).Spans text i j ↔
      literal <+: text.drop i ∧ j = i + literal.length := by
  induction literal generalizing i with
  | nil => exact eq_comm.trans (and_iff_right List.nil_prefix).symm
  | cons c rest ih =>
    change (∃ k, (Expr.one (.single c)).Spans text i k ∧ (row _).Spans text k j) ↔ _
    simp only [spans_single_iff, ih]
    constructor
    · rintro ⟨_, ⟨hc, rfl⟩, hrest, rfl⟩
      obtain ⟨hi, rfl⟩ := List.getElem?_eq_some_iff.mp hc
      rw [List.drop_eq_getElem_cons hi, List.length_cons]
      exact ⟨(List.prefix_cons_inj _).mpr hrest, by omega⟩
    · rintro ⟨hpre, rfl⟩
      have hi : i < text.length := by
        have hlength := hpre.length_le
        rw [List.length_cons, List.length_drop] at hlength
        omega
      rw [List.drop_eq_getElem_cons hi] at hpre
      obtain ⟨rfl, hrest⟩ := List.cons_prefix_cons.mp hpre
      exact ⟨i + 1, ⟨List.getElem?_eq_getElem hi, rfl⟩, hrest, by rw [List.length_cons]; omega⟩

theorem takesUp_escape (literal : String) (text : List Char) (i j : Nat) :
    TakesUp true (RegexEngine.escape literal) text i j ↔
      literal.toList <+: text.drop i ∧ j = i + literal.length := by
  refine (takesUp_source_iff (.literal literal) text i j).trans ?_
  rw [exprs, spans_row_single_iff, String.length_toList]

/-- The engine does what libraries document. -/
theorem documented : RegexEngine.Documented TakesUp size maxStates where
  compile parts hsize := by
    obtain ⟨e, he, -⟩ := expr?_dotAll_sources parts
    rw [size, he] at hsize
    refine ⟨⟨"(?s)" ++ sources parts, fun text => e.isFoundIn text.toList⟩, ?_⟩
    simp only [RegexEngine.compile, he]
    exact if_pos hsize
  isMatch source compiled hcompiled text := by
    simp only [RegexEngine.compile] at hcompiled
    split at hcompiled
    · cases hcompiled
    · next e he =>
      split at hcompiled
      · cases hcompiled
        rw [Expr.isFoundIn_iff, String.length_toList]
        simp [TakesUp, he]
      · cases hcompiled
  dotAll := takesUp_dotAll
  concatenation part parts text i j _ := takesUp_concatenation part parts text i j
  start := takesUp_start
  stop := takesUp_stop
  any := takesUp_any
  star := takesUp_star
  escape := takesUp_escape

end QuadGraph.Regex
