import Mathlib.Data.List.Forall2
import QuadGraph.Path.Filter
import QuadGraph.Proofs.Regex.Reading

/-! Wildcard patterns. By what a library documents, the regular expression of a pattern takes up a
text exactly if the text can be cut into parts for the characters of the pattern. The induction is
on the pattern, with the characters that are held back as a part that is still to come. -/
namespace QuadGraph

namespace Wildcard

open RegexPart

/-- What a character of a pattern may stand for: a percent sign for any characters, an underscore
for one, and every other character for itself. -/
def Takes (c : Char) (part : List Char) : Prop :=
  if c = '%' then True else if c = '_' then part.length = 1 else part = [c]

/-- A text can be cut into parts, one for every character of a pattern. -/
def Splits (pattern text : List Char) : Prop :=
  ∃ parts, List.Forall₂ Takes pattern parts ∧ parts.flatten = text

theorem splits_nil_iff (text : List Char) : Splits [] text ↔ text = [] := by
  simp [Splits, eq_comm]

/-- The first part of a text belongs to the first character of the pattern. -/
theorem splits_cons_iff (c : Char) (pattern text : List Char) : Splits (c :: pattern) text ↔
    ∃ k ≤ text.length, Takes c (text.take k) ∧ Splits pattern (text.drop k) := by
  constructor
  · rintro ⟨_, hparts, rfl⟩
    obtain ⟨part, parts, htakes, hrest, rfl⟩ := List.forall₂_cons_left_iff.mp hparts
    refine ⟨part.length, by simp, ?_, parts, hrest, ?_⟩
    · rwa [List.flatten_cons, List.take_left]
    · rw [List.flatten_cons, List.drop_left]
  · rintro ⟨k, -, htakes, parts, hparts, hflatten⟩
    refine ⟨text.take k :: parts, .cons htakes hparts, ?_⟩
    rw [List.flatten_cons, hflatten, List.take_append_drop]

instance (c : Char) : DecidablePred (Takes c) := fun part =>
  inferInstanceAs (Decidable (if c = '%' then True else
    if c = '_' then part.length = 1 else part = [c]))

instance decidableSplits : (pattern text : List Char) → Decidable (Splits pattern text)
  | [], text => decidable_of_iff (text = []) (splits_nil_iff text).symm
  | c :: pattern, text =>
    have := decidableSplits pattern
    decidable_of_iff _ (splits_cons_iff c pattern text).symm

/-- Characters that are no signs stand for themselves. -/
theorem splits_literal_iff (literal pattern text : List Char)
    (h : ∀ c ∈ literal, c ≠ '%' ∧ c ≠ '_') : Splits (literal ++ pattern) text ↔
      literal <+: text ∧ Splits pattern (text.drop literal.length) := by
  induction literal generalizing text with
  | nil => simp
  | cons c literal ih =>
    obtain ⟨⟨hpercent, hunderscore⟩, hrest⟩ := List.forall_mem_cons.mp h
    have htakes (part : List Char) : Takes c part ↔ part = [c] := by
      rw [Takes, if_neg hpercent, if_neg hunderscore]
    rw [List.cons_append, splits_cons_iff]
    constructor
    · rintro ⟨k, hk, hc, hsplits⟩
      rw [htakes] at hc
      obtain rfl : k = 1 := by
        have hlength := congrArg List.length hc
        rwa [List.length_take_of_le hk] at hlength
      obtain ⟨hpre, hsplits⟩ := (ih _ hrest).mp hsplits
      rw [List.drop_drop, Nat.add_comm] at hsplits
      refine ⟨?_, hsplits⟩
      rw [← List.take_append_drop 1 text, hc]
      exact (List.prefix_cons_inj c).mpr hpre
    · rintro ⟨⟨rest, rfl⟩, hsplits⟩
      exact ⟨1, by simp, (htakes _).mpr rfl, (ih _ hrest).mpr ⟨⟨rest, rfl⟩, hsplits⟩⟩

theorem add_length_le_of_prefix_drop (literal text : List Char) (i : Nat) (hi : i ≤ text.length)
    (h : literal <+: text.drop i) : i + literal.length ≤ text.length := by
  have hlength := h.length_le
  rw [List.length_drop] at hlength
  omega

/-- The parts of the regular expression of a pattern, behind the beginning of the text. -/
def parts (held : List Char) : List Char → List RegexPart
  | [] => [.literal (String.ofList held.reverse), .stop]
  | c :: rest =>
    if c = '%' then .literal (String.ofList held.reverse) :: .anyRun :: parts [] rest
    else if c = '_' then .literal (String.ofList held.reverse) :: .any :: parts [] rest
    else parts (c :: held) rest

theorem parts_ne_nil (held pattern : List Char) : parts held pattern ≠ [] := by
  induction pattern generalizing held with
  | nil => exact List.cons_ne_nil _ _
  | cons c rest ih =>
    rw [parts]
    split
    · exact List.cons_ne_nil _ _
    · split
      · exact List.cons_ne_nil _ _
      · exact ih _

section Translation

variable [RegexEngine]

theorem translate_append_stop (held pattern : List Char) :
    translate held pattern ++ "$" = sources (parts held pattern) := by
  induction pattern generalizing held with
  | nil => simp [translate, parts, sources, RegexPart.source]
  | cons c rest ih =>
    rw [translate, parts]
    split
    · simp [sources, RegexPart.source, ← ih, String.append_assoc]
    · split
      · simp [sources, RegexPart.source, ← ih, String.append_assoc]
      · exact ih _

theorem source_eq (pattern : String) :
    source pattern = "(?s)" ++ sources (.start :: parts [] pattern.toList) := by
  have hstart : "(?s)^" = "(?s)" ++ "^" := rfl
  rw [source, sources, ← translate_append_stop, hstart, RegexPart.source]
  simp only [String.append_assoc]

variable {Spans : Bool → String → List Char → Nat → Nat → Prop} {size : String → Nat} {limit : Nat}
  (h : RegexEngine.Documented Spans size limit) {text : List Char} {i j : Nat}

include h

/-- A dot stands for line ends, too, so that a run of dots takes up any characters. -/
theorem spans_anyRun_iff (hi : i ≤ text.length) :
    Spans true ".*" text i j ↔ i ≤ j ∧ j ≤ text.length := by
  rw [h.star]
  constructor
  · intro hrun
    induction hrun with
    | refl => exact ⟨Nat.le_refl i, hi⟩
    | tail _ hstep ih =>
      obtain ⟨hlt, rfl⟩ := (h.any ..).mp hstep
      exact ⟨by omega, hlt⟩
  · rintro ⟨hij, hj⟩
    induction hij with
    | refl => exact .refl
    | step _ ih => exact .tail (ih (Nat.le_of_succ_le hj)) ((h.any ..).mpr ⟨hj, rfl⟩)

/-- A sign takes up what its regular expression spans. -/
theorem spans_sign_iff (c : Char) (sign : RegexPart)
    (hsign : c = '%' ∧ sign = .anyRun ∨ c = '_' ∧ sign = .any) (hi : i ≤ text.length) :
    Spans true sign.source text i j ↔
      i ≤ j ∧ j ≤ text.length ∧ Takes c ((text.drop i).take (j - i)) := by
  obtain ⟨rfl, rfl⟩ | ⟨rfl, rfl⟩ := hsign
  · rw [RegexPart.source, spans_anyRun_iff h hi]
    simp [Takes]
  · have htakes (part : List Char) : Takes '_' part ↔ part.length = 1 := by
      rw [Takes, if_neg (by decide), if_pos rfl]
    rw [RegexPart.source, h.any, htakes, List.length_take, List.length_drop]
    omega

theorem spans_literal_iff (literal : List Char) (rest : List RegexPart) (hrest : rest ≠ []) :
    Spans true (sources (.literal (String.ofList literal) :: rest)) text i j ↔
      literal <+: text.drop i ∧ Spans true (sources rest) text (i + literal.length) j := by
  have hliteral (k : Nat) : Spans true (RegexPart.literal (String.ofList literal)).source text i k ↔
      literal <+: text.drop i ∧ k = i + literal.length := by
    rw [RegexPart.source, h.escape, String.toList_ofList, String.length_ofList]
  rw [sources, h.concatenation _ _ _ _ _ hrest]
  simp only [hliteral]
  constructor
  · rintro ⟨_, ⟨hpre, rfl⟩, hj⟩
    exact ⟨hpre, hj⟩
  · rintro ⟨hpre, hj⟩
    exact ⟨_, ⟨hpre, rfl⟩, hj⟩

/-- Characters that are held back and the sign that they stand in front of. -/
theorem spans_literal_sign_iff (literal pattern : List Char) (c : Char) (sign : RegexPart)
    (rest : List RegexPart) (hliteral : ∀ c ∈ literal, c ≠ '%' ∧ c ≠ '_')
    (hsign : c = '%' ∧ sign = .anyRun ∨ c = '_' ∧ sign = .any) (hne : rest ≠ [])
    (hrest : ∀ k ≤ text.length, Spans true (sources rest) text k j ↔
      Splits pattern (text.drop k) ∧ j = text.length) (hi : i ≤ text.length) :
    Spans true (sources (.literal (String.ofList literal) :: sign :: rest)) text i j ↔
      Splits (literal ++ c :: pattern) (text.drop i) ∧ j = text.length := by
  rw [spans_literal_iff h _ _ (List.cons_ne_nil _ _), splits_literal_iff _ _ _ hliteral, and_assoc]
  refine and_congr_right fun hpre => ?_
  have hle := add_length_le_of_prefix_drop literal text i hi hpre
  -- The sign starts where the literal ends, and the rest of the pattern where the sign ends.
  rw [sources, h.concatenation _ _ _ _ _ hne, List.drop_drop, splits_cons_iff, List.length_drop]
  constructor
  · rintro ⟨k, hk, hj⟩
    obtain ⟨hik, hk, htakes⟩ := (spans_sign_iff h c sign hsign hle).mp hk
    obtain ⟨hsplits, rfl⟩ := (hrest k hk).mp hj
    refine ⟨⟨k - (i + literal.length), by omega, htakes, ?_⟩, rfl⟩
    rwa [List.drop_drop, Nat.add_sub_cancel' hik]
  · rintro ⟨⟨m, hm, htakes, hsplits⟩, rfl⟩
    rw [List.drop_drop] at hsplits
    have hk : i + literal.length + m ≤ text.length := by omega
    refine ⟨_, (spans_sign_iff h c sign hsign hle).mpr ⟨Nat.le_add_right _ m, hk, ?_⟩,
      (hrest _ hk).mpr ⟨hsplits, rfl⟩⟩
    rwa [Nat.add_sub_cancel_left]

theorem spans_parts_iff (held pattern : List Char) (hheld : ∀ c ∈ held, c ≠ '%' ∧ c ≠ '_')
    (hi : i ≤ text.length) : Spans true (sources (parts held pattern)) text i j ↔
      Splits (held.reverse ++ pattern) (text.drop i) ∧ j = text.length := by
  induction pattern generalizing held i with
  | nil =>
    rw [parts, spans_literal_iff h _ _ (List.cons_ne_nil _ _),
      splits_literal_iff _ _ _ (by simpa using hheld), splits_nil_iff, List.drop_drop,
      List.drop_eq_nil_iff, and_assoc]
    refine and_congr_right fun hpre => ?_
    have hle := add_length_le_of_prefix_drop _ text i hi hpre
    refine (h.stop text _ j hle).trans ?_
    omega
  | cons c rest ih =>
    have hreverse : ∀ d ∈ held.reverse, d ≠ '%' ∧ d ≠ '_' := by simpa using hheld
    have hrest (k : Nat) (hk : k ≤ text.length) := ih [] nofun hk
    rw [parts]
    split
    · next hc =>
      exact spans_literal_sign_iff h _ rest c .anyRun _ hreverse (.inl ⟨hc, rfl⟩)
        (parts_ne_nil _ _) hrest hi
    · next hpercent =>
      split
      · next hc =>
        exact spans_literal_sign_iff h _ rest c .any _ hreverse (.inr ⟨hc, rfl⟩)
          (parts_ne_nil _ _) hrest hi
      · next hunderscore =>
        -- A character that is no sign only joins those that are held back.
        have hnext := ih (c :: held)
          (List.forall_mem_cons.mpr ⟨⟨hpercent, hunderscore⟩, hheld⟩) hi
        rwa [List.reverse_cons, List.append_assoc, List.singleton_append] at hnext

/-- The regular expression of a pattern is found in a text exactly if the whole text splits along
the pattern. -/
theorem isMatch_iff (pattern : String) (compiled : Regex)
    (hcompiled : RegexEngine.compile (source pattern) = .ok compiled) (text : String) :
    compiled.isMatch text ↔ Splits pattern.toList text.toList := by
  have hparts (j : Nat) := spans_parts_iff h (i := 0) (j := j) [] pattern.toList nofun
    (Nat.zero_le text.toList.length)
  have hstart (i k : Nat) (hi : i ≤ text.length) := h.start text.toList i k
    (String.length_toList ▸ hi)
  rw [h.isMatch _ _ hcompiled, source_eq]
  -- The caret pins a match to the beginning of the text, and the last part to its end.
  simp only [h.dotAll]
  simp only [sources, h.concatenation _ _ _ _ _ (parts_ne_nil _ _)]
  constructor
  · rintro ⟨i, j, hi, k, hk, hj⟩
    obtain ⟨rfl, rfl⟩ := (hstart i k hi).mp hk
    exact ((hparts j).mp hj).1
  · intro hsplits
    exact ⟨0, _, Nat.zero_le _, 0, (hstart 0 0 (Nat.zero_le _)).mpr ⟨rfl, rfl⟩,
      (hparts _).mpr ⟨hsplits, rfl⟩⟩

end Translation

end Wildcard

theorem Term.text?_eq_some_iff (t : Term) (text : String) : t.text? = some text ↔
    t = .plain text ∨ (∃ datatype, t = .typed text datatype) ∨
      ∃ language, t = .lang text language := by
  cases t <;> simp [text?]

namespace Filter

open Wildcard

/-- There is a condition for every wildcard pattern whose regular expression stays within the size
limit, and literals with a text meet it if the whole text splits along the pattern. Nothing else
meets it. -/
theorem accepts_wildcard_iff [RegexEngine] (Spans : Bool → String → List Char → Nat → Nat → Prop)
    (size : String → Nat) (limit : Nat) (h : RegexEngine.Documented Spans size limit)
    (pattern : String) (hsize : size (Wildcard.source pattern) ≤ limit) :
    ∃ condition, ofWildcard pattern = .ok condition ∧ ∀ t, condition.accepts t ↔
      ∃ text : String, (t = .plain text ∨ (∃ datatype, t = .typed text datatype) ∨
        ∃ language, t = .lang text language) ∧ Splits pattern.toList text.toList := by
  obtain ⟨compiled, hcompiled⟩ : ∃ compiled,
      RegexEngine.compile (Wildcard.source pattern) = .ok compiled := by
    rw [source_eq] at hsize ⊢
    exact h.compile _ hsize
  refine ⟨.wildcard pattern compiled, ?_, fun t => ?_⟩
  · rw [ofWildcard, hcompiled]
    rfl
  · rw [accepts, Option.any_eq_true]
    refine exists_congr fun text => ?_
    rw [Term.text?_eq_some_iff, isMatch_iff h pattern compiled hcompiled]

/-- A dot stands for itself, and a percent sign for line ends too. -/
theorem accepts_wildcard_iff_dot : Regex.size (Wildcard.source "a.%_") ≤ Regex.maxStates ∧
    ∃ condition, ofWildcard "a.%_" = .ok condition ∧
      condition.accepts (.lang "a.\nβ" "en") ∧ ¬ condition.accepts (.plain "abcd") ∧
      ¬ condition.accepts (.iri "a.bc") := by
  have hsize : Regex.size (Wildcard.source "a.%_") ≤ Regex.maxStates := by decide +kernel
  obtain ⟨condition, hcondition, haccepts⟩ :=
    accepts_wildcard_iff Regex.TakesUp Regex.size Regex.maxStates Regex.documented "a.%_" hsize
  refine ⟨hsize, condition, hcondition, (haccepts _).mpr ⟨"a.\nβ", by simp, by decide⟩,
    fun h => ?_, fun h => ?_⟩
  · obtain ⟨text, htext, hsplits⟩ := (haccepts _).mp h
    obtain rfl : "abcd" = text := by simpa using htext
    exact absurd hsplits (by decide)
  · obtain ⟨text, htext, -⟩ := (haccepts _).mp h
    simp at htext

end Filter

end QuadGraph
