import Std.Data.ExtTreeMap

/-!
Items that are looked up by a key and kept in the order in which their keys came up first.
-/
namespace QuadGraph

structure Slots (κ α : Type) (cmp : κ → κ → Ordering) where
  items : List α
  /-- The place of the item of every key. -/
  places : Std.ExtTreeMap κ Nat cmp

namespace Slots

variable {κ α : Type} {cmp : κ → κ → Ordering}

def empty : Slots κ α cmp :=
  ⟨[], ∅⟩

@[simp] theorem items_empty : (empty : Slots κ α cmp).items = [] :=
  rfl

def change (slots : Slots κ α cmp) (place : Nat) (f : α → α) : Slots κ α cmp :=
  { slots with items := slots.items.modify place f }

@[simp] theorem length_change (slots : Slots κ α cmp) (place : Nat) (f : α → α) :
    (slots.change place f).items.length = slots.items.length :=
  List.length_modify f slots.items place

variable [Std.TransCmp cmp]

def place? (slots : Slots κ α cmp) (key : κ) : Option Nat :=
  slots.places[key]?

/-- Puts the item of a new key behind the others. -/
def push (slots : Slots κ α cmp) (key : κ) (item : α) : Slots κ α cmp :=
  ⟨slots.items ++ [item], slots.places.insert key slots.items.length⟩

@[simp] theorem length_push (slots : Slots κ α cmp) (key : κ) (item : α) :
    (slots.push key item).items.length = slots.items.length + 1 :=
  List.length_append

end Slots

end QuadGraph
