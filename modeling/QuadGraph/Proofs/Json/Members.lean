import Mathlib.Data.List.Induction
import Mathlib.Data.List.Nodup
import Mathlib.Data.String.Basic
import QuadGraph.Json.Basic

/-! Members of objects. Putting a member into an object changes the value of its key and of no other
one, and members with different keys can be put in any order, so an object is told by the last value
of every key. -/
namespace QuadGraph.Json

/-- The value of a key in an object. -/
def get? (key : String) : Json → Option Json
  | .object members => member? key members
  | _ => none

theorem member?_cons (key : String) (member : String × Json) (members : List (String × Json)) :
    member? key (member :: members) =
      if key = member.1 then some member.2 else member? key members := by
  rw [member?, List.lookup_cons]
  by_cases h : key = member.1
  · simp [h]
  · rw [if_neg h, beq_false_of_ne h, member?]

/-- In a table of keys, each is found with its value. -/
theorem member?_table (key : String) (names : List String) (values : String → Json) :
    member? key (names.map fun name => (name, values name)) =
      if key ∈ names then some (values key) else none := by
  induction names with
  | nil => rfl
  | cons name rest ih =>
    rw [List.map_cons, member?_cons, ih]
    by_cases h : key = name
    · rw [if_pos h, if_pos (List.mem_cons.mpr (Or.inl h)), h]
    · have hmem : key ∈ name :: rest ↔ key ∈ rest := by simp [h]
      rw [if_neg h, if_congr hmem rfl rfl]

/-- The member that is put in is found under its key, and the others under theirs. -/
theorem member?_setMember (key other : String) (value : Json) (members : List (String × Json)) :
    member? other (setMember key value members) =
      if other = key then some value else member? other members := by
  fun_induction setMember key value members with
  | case1 => rw [member?_cons]
  | case2 k v rest hlt => rw [member?_cons]
  | case3 k v rest heq =>
    have hkey : key = k := Std.LawfulEqOrd.eq_of_compare heq
    rw [member?_cons, member?_cons, ← hkey]
    split <;> rfl
  | case4 k v rest hgt ih =>
    rw [member?_cons, member?_cons, ih]
    by_cases hk : other = k
    · have hne : other ≠ key := by
        rintro rfl
        rw [hk, Std.ReflOrd.compare_self] at hgt
        cases hgt
      rw [if_pos hk, if_pos hk, if_neg hne]
    · rw [if_neg hk, if_neg hk]

theorem setMember_comm (a b : String) (x y : Json) (members : List (String × Json)) (h : a ≠ b) :
    setMember a x (setMember b y members) = setMember b y (setMember a x members) := by
  wlog hab : compare a b = .lt generalizing a b x y
  · have hba : compare b a = .lt := by
      cases hcompare : compare a b with
      | lt => exact absurd hcompare hab
      | eq => exact absurd (Std.LawfulEqOrd.eq_of_compare hcompare) h
      | gt => exact Std.OrientedCmp.lt_of_gt hcompare
    exact (this b a y x h.symm hba).symm
  have hba : compare b a = .gt := Std.OrientedCmp.gt_of_lt hab
  induction members with
  | nil => simp [setMember, hab, hba]
  | cons member rest ih =>
    obtain ⟨k, v⟩ := member
    cases hak : compare a k with
    | lt =>
      -- The smaller key comes first, whatever becomes of the other one.
      cases hbk : compare b k <;> simp [setMember, hak, hbk, hab, hba]
    | eq =>
      have hbk : compare b k = .gt := Std.LawfulEqOrd.eq_of_compare hak ▸ hba
      simp [setMember, hak, hbk, hba]
    | gt =>
      have hbk : compare b k = .gt := Std.TransCmp.gt_trans hba hak
      simp only [setMember, hak, hbk, ih]

/-- Only which members there are counts where no key is repeated. -/
theorem ofMembers_perm (xs ys : List (String × Json)) (h : xs.Perm ys)
    (hkeys : (xs.map (·.1)).Nodup) : ofMembers xs = ofMembers ys := by
  rw [ofMembers, ofMembers]
  congr 1
  apply h.foldl_eq'
  intro member hmember other hother sorted
  by_cases hkey : other.1 = member.1
  · rw [List.inj_on_of_nodup_map hkeys hother hmember hkey]
  · exact setMember_comm _ _ _ _ _ hkey

/-- The last member with a key counts. -/
theorem get?_ofMembers (key : String) (members : List (String × Json)) :
    (ofMembers members).get? key = member? key members.reverse := by
  rw [ofMembers, get?]
  induction members using List.reverseRecOn with
  | nil => rfl
  | append_singleton members last ih =>
    rw [List.foldl_append, List.reverse_append, List.reverse_singleton, List.singleton_append,
      member?_cons, ← ih]
    exact member?_setMember last.1 key last.2 _

/-- An object with just the members that a function tells, sorted by key. -/
def IsObject (json : Json) (value? : String → Option Json) : Prop :=
  ∃ members, json = .object members ∧ (members.map (·.1)).Pairwise (· < ·) ∧
    ∀ key, members.lookup key = value? key

theorem lookup_eq_of_mem_iff (members : List (String × Json)) (key : String)
    (value? : Option Json) (h : ∀ value, (key, value) ∈ members ↔ value? = some value) :
    members.lookup key = value? := by
  cases hfound : members.lookup key with
  | none =>
    cases hvalue : value? with
    | none => rfl
    | some value =>
      have hmem := (h value).mpr hvalue
      simpa using List.lookup_eq_none_iff.mp hfound _ hmem
  | some value =>
    obtain ⟨before, after, rfl, -⟩ := List.lookup_eq_some_iff.mp hfound
    have hmem : (key, value) ∈ before ++ (key, value) :: after := by simp
    exact ((h value).mp hmem).symm

theorem mem_keys_setMember (key other : String) (value : Json) (members : List (String × Json))
    (h : other ∈ (setMember key value members).map (·.1)) :
    other = key ∨ other ∈ members.map (·.1) := by
  fun_induction setMember key value members with
  | case1 => simpa using h
  | case2 k v rest hlt => simpa using h
  | case3 k v rest heq => exact (List.mem_cons.mp h).imp_right (List.mem_cons_of_mem k)
  | case4 k v rest hgt ih =>
    rcases List.mem_cons.mp h with rfl | h
    · exact Or.inr List.mem_cons_self
    · exact (ih h).imp_right (List.mem_cons_of_mem k)

/-- Members stay sorted when one is put in. -/
theorem sorted_setMember (key : String) (value : Json) (members : List (String × Json))
    (h : (members.map (·.1)).Pairwise (· < ·)) :
    ((setMember key value members).map (·.1)).Pairwise (· < ·) := by
  fun_induction setMember key value members with
  | case1 => exact List.pairwise_singleton _ _
  | case2 k v rest hlt =>
    have hkey : key < k := compare_lt_iff_lt.mp hlt
    obtain ⟨hk, -⟩ := List.pairwise_cons.mp h
    refine List.pairwise_cons.mpr ⟨fun other hother => ?_, h⟩
    rcases List.mem_cons.mp hother with rfl | hother
    · exact hkey
    · exact hkey.trans (hk other hother)
  | case3 k v rest heq =>
    rw [List.map_cons, Std.LawfulEqOrd.eq_of_compare heq]
    exact h
  | case4 k v rest hgt ih =>
    have hkey : k < key := compare_gt_iff_gt.mp hgt
    obtain ⟨hk, hrest⟩ := List.pairwise_cons.mp h
    refine List.pairwise_cons.mpr ⟨fun other hother => ?_, ih hrest⟩
    rcases mem_keys_setMember key other value rest hother with rfl | hother
    · exact hkey
    · exact hk other hother

/-- The object of some members has no others than can be got from it. -/
theorem isObject_ofMembers (members : List (String × Json)) (value? : String → Option Json)
    (h : ∀ key, (ofMembers members).get? key = value? key) :
    (ofMembers members).IsObject value? := by
  refine ⟨_, rfl, ?_, h⟩
  clear h
  induction members using List.reverseRecOn with
  | nil => exact List.Pairwise.nil
  | append_singleton members last ih =>
    rw [List.foldl_append]
    exact sorted_setMember last.1 last.2 _ ih

end QuadGraph.Json
