import QuadGraph.Term.Order

/-!
An order of terms for looking them up in tables. It goes by the way in which a term is made and by
nothing else, so that two terms come at one place exactly if they are equal.
-/
namespace QuadGraph.Term

/-- The text that a term is made of. -/
def keyText : Term → String
  | .iri name => name
  | .blank label => label
  | .plain text => text
  | .typed text _ => text
  | .lang text _ => text
  | _ => ""

/-- What a text is made a term with. -/
def keyDetail : Term → String
  | .typed _ datatype => datatype
  | .lang _ language => language
  | _ => ""

/-- The number or the truth value that a term is made of. -/
def keyNumber : Term → Int
  | .int value => value.toInt
  | .float value => value.totalKey
  | .bool value => if value then 1 else 0
  | _ => 0

def compareKey : Term → Term → Ordering :=
  compareLex (compareOn kind) (compareLex (compareOn keyText)
    (compareLex (compareOn keyDetail) (compareOn keyNumber)))

instance : Std.TransCmp compareKey := by
  unfold compareKey
  infer_instance

theorem eq_of_key (a b : Term) (hkind : a.kind = b.kind) (htext : a.keyText = b.keyText)
    (hdetail : a.keyDetail = b.keyDetail) (hnumber : a.keyNumber = b.keyNumber) : a = b := by
  cases a with
  | iri name => cases b <;> cases hkind; exact congrArg iri htext
  | blank label => cases b <;> cases hkind; exact congrArg blank htext
  | plain text => cases b <;> cases hkind; exact congrArg plain htext
  | typed text datatype => cases b <;> cases hkind; exact congr (congrArg typed htext) hdetail
  | lang text language => cases b <;> cases hkind; exact congr (congrArg lang htext) hdetail
  | int value => cases b <;> cases hkind; exact congrArg int (Int64.toInt_inj.mp hnumber)
  | float value => cases b <;> cases hkind; exact congrArg float (Double.totalKey_injective hnumber)
  | bool value =>
    cases b <;> cases hkind
    next value' => revert value value'; decide

instance : Std.LawfulEqCmp compareKey where
  eq_of_compare {a b} h := by
    simp only [compareKey, compareLex, Ordering.then_eq_eq, compareOn,
      Std.LawfulEqOrd.compare_eq_iff_eq] at h
    obtain ⟨hkind, htext, hdetail, hnumber⟩ := h
    exact eq_of_key a b hkind htext hdetail hnumber

end QuadGraph.Term
