import Mathlib.Data.List.Forall2

/-! Computations that may fail. An outcome is either read backwards, from a result to the results it
was made of, or judged at once by what may fail and what every result has to be like. -/
namespace QuadGraph.Outcome

variable {ε α β γ : Type}

theorem bind_eq_ok (x : Except ε α) (f : α → Except ε β) (b : β) :
    x >>= f = .ok b ↔ ∃ a, x = .ok a ∧ f a = .ok b := by
  cases x with
  | error e => simp [bind, Except.bind]
  | ok a => simp [bind, Except.bind]

theorem pure_eq_ok (a b : α) : (pure a : Except ε α) = .ok b ↔ a = b := by
  simp [pure, Except.pure]

theorem toOption_eq_some (x : Except ε α) (a : α) : x.toOption = some a ↔ x = .ok a := by
  cases x <;> simp [Except.toOption]

theorem mapM_eq_ok (f : α → Except ε β) (xs : List α) (ys : List β) :
    xs.mapM f = .ok ys ↔ List.Forall₂ (fun x y => f x = .ok y) xs ys := by
  induction xs generalizing ys with
  | nil => cases ys <;> simp [pure_eq_ok]
  | cons x xs ih =>
    simp only [List.mapM_cons, bind_eq_ok, pure_eq_ok, ih, List.forall₂_cons_left_iff]
    constructor
    · rintro ⟨y, hy, rest, hrest, rfl⟩
      exact ⟨y, rest, hy, hrest, rfl⟩
    · rintro ⟨y, rest, hy, hrest, rfl⟩
      exact ⟨y, hy, rest, hrest, rfl⟩

theorem exists_of_forall₂_right {R : α → β → Prop} {xs : List α} {ys : List β}
    (h : List.Forall₂ R xs ys) (y : β) (hy : y ∈ ys) : ∃ x ∈ xs, R x y := by
  induction h with
  | nil => cases hy
  | @cons x y' xs ys hxy _ ih =>
    rcases List.mem_cons.mp hy with rfl | hy
    · exact ⟨x, List.mem_cons_self, hxy⟩
    · obtain ⟨x', hx', hxy'⟩ := ih hy
      exact ⟨x', List.mem_cons_of_mem x hx', hxy'⟩

theorem subset_of_exists_ok {x : Except ε (List α)} {found more : List α}
    (h : ∃ ys, x = .ok ys ∧ found ⊆ ys) (hmore : x = .ok more) : found ⊆ more := by
  obtain ⟨ys, hys, hsubset⟩ := h
  cases hmore.symm.trans hys
  exact hsubset

theorem mapM_take (f : α → Except ε β) (xs : List α) (n : Nat) (ys : List β)
    (h : xs.mapM f = .ok ys) : (xs.take n).mapM f = .ok (ys.take n) := by
  rw [mapM_eq_ok] at h ⊢
  exact List.forall₂_take n h

/-- The first failure ends a pass. -/
theorem mapM_eq_error (f : α → Except ε β) (before : List α) (x : α) (after : List α) (e : ε)
    (hbefore : ∃ ys, before.mapM f = .ok ys) (hx : f x = .error e) :
    (before ++ x :: after).mapM f = .error e := by
  obtain ⟨ys, hys⟩ := hbefore
  rw [List.mapM_append, List.mapM_cons, hys, hx]
  rfl

theorem flatMapM_eq_ok (f : α → Except ε (List β)) (xs : List α) (out : List β) :
    xs.flatMapM f = .ok out ↔ ∃ outs, xs.mapM f = .ok outs ∧ outs.flatten = out := by
  induction xs generalizing out with
  | nil => simp [pure_eq_ok]
  | cons x xs ih =>
    simp only [List.flatMapM_cons, List.mapM_cons, bind_eq_ok, pure_eq_ok, ih]
    constructor
    · rintro ⟨first, hfirst, _, ⟨outs, houts, rfl⟩, rfl⟩
      exact ⟨first :: outs, ⟨first, hfirst, outs, houts, rfl⟩, rfl⟩
    · rintro ⟨_, ⟨first, hfirst, outs, houts, rfl⟩, rfl⟩
      exact ⟨first, hfirst, outs.flatten, ⟨outs, houts, rfl⟩, rfl⟩

theorem mem_flatMapM (f : α → Except ε (List β)) (xs : List α) (out : List β)
    (h : xs.flatMapM f = .ok out) (y : β) :
    y ∈ out ↔ ∃ x ∈ xs, ∃ ys, f x = .ok ys ∧ y ∈ ys := by
  induction xs generalizing out with
  | nil => simp_all [pure_eq_ok]
  | cons x xs ih =>
    simp only [List.flatMapM_cons, bind_eq_ok, pure_eq_ok] at h
    obtain ⟨first, hfirst, rest, hrest, rfl⟩ := h
    simp [ih rest hrest, hfirst]

theorem flatMapM_pure (f : α → List β) (xs : List α) :
    xs.flatMapM (fun x => (pure (f x) : Except ε (List β))) = pure (xs.flatMap f) := by
  induction xs with
  | nil => rfl
  | cons x xs ih => simp [ih]

theorem flatMapM_of_forall (f : α → Except ε (List β)) (h : α → List β) (xs : List α)
    (hf : ∀ x ∈ xs, f x = .ok (h x)) : xs.flatMapM f = .ok (xs.flatMap h) := by
  induction xs with
  | nil => rfl
  | cons x xs ih =>
    rw [List.forall_mem_cons] at hf
    rw [List.flatMapM_cons, hf.1, ih hf.2]
    rfl

theorem mapM_eq_flatMapM (x : α → Except ε γ) (m : α → γ → β) (xs : List α) :
    (xs.mapM fun a => x a >>= fun c => pure (m a c)) =
      xs.flatMapM fun a => x a >>= fun c => pure [m a c] := by
  induction xs with
  | nil => rfl
  | cons a rest ih =>
    simp only [List.mapM_cons, List.flatMapM_cons, ih, bind_assoc, pure_bind,
      List.singleton_append]

theorem filterMap_eq_flatMapM (f : α → Option β) (xs : List α) :
    (pure (xs.filterMap f) : Except ε (List β)) = xs.flatMapM fun a => pure (f a).toList := by
  rw [flatMapM_pure, List.filterMap_eq_flatMap_toList]

theorem flatMapM_append_eq_ok (f : α → Except ε (List β)) (xs ys : List α) (out : List β) :
    (xs ++ ys).flatMapM f = .ok out ↔
      ∃ o₁ o₂, xs.flatMapM f = .ok o₁ ∧ ys.flatMapM f = .ok o₂ ∧ o₁ ++ o₂ = out := by
  simp only [flatMapM_eq_ok, List.mapM_append, bind_eq_ok, pure_eq_ok]
  constructor
  · rintro ⟨_, ⟨l, hl, r, hr, rfl⟩, rfl⟩
    exact ⟨l.flatten, r.flatten, ⟨l, hl, rfl⟩, ⟨r, hr, rfl⟩, by simp⟩
  · rintro ⟨_, _, ⟨l, hl, rfl⟩, ⟨r, hr, rfl⟩, rfl⟩
    exact ⟨l ++ r, ⟨l, hl, r, hr, rfl⟩, by simp⟩

/-- Two passes succeed together exactly where one pass through both does. -/
theorem flatMapM_flatMapM_eq_ok (g : α → Except ε (List β)) (f : β → Except ε (List γ))
    (xs : List α) (out : List γ) :
    (xs.flatMapM fun x => g x >>= fun ys => ys.flatMapM f) = .ok out ↔
      ∃ mid, xs.flatMapM g = .ok mid ∧ mid.flatMapM f = .ok out := by
  induction xs generalizing out with
  | nil => simp [pure_eq_ok]
  | cons x xs ih =>
    simp only [List.flatMapM_cons, bind_eq_ok, pure_eq_ok, ih]
    constructor
    · rintro ⟨o₁, ⟨ys, hys, ho₁⟩, o₂, ⟨zs, hzs, ho₂⟩, rfl⟩
      exact ⟨ys ++ zs, ⟨ys, hys, zs, hzs, rfl⟩,
        (flatMapM_append_eq_ok f ys zs _).mpr ⟨o₁, o₂, ho₁, ho₂, rfl⟩⟩
    · rintro ⟨_, ⟨ys, hys, zs, hzs, rfl⟩, ho⟩
      obtain ⟨o₁, o₂, ho₁, ho₂, rfl⟩ := (flatMapM_append_eq_ok f ys zs out).mp ho
      exact ⟨o₁, ⟨ys, hys, ho₁⟩, o₂, ⟨zs, hzs, ho₂⟩, rfl⟩

/-- Two outcomes that fail with the same error, or give results that `R` relates. -/
inductive Alike (R : α → β → Prop) : Except ε α → Except ε β → Prop
  | ok {a b} (h : R a b) : Alike R (.ok a) (.ok b)
  | error (e) : Alike R (.error e) (.error e)

section Alike

variable {δ : Type} {R : α → β → Prop} {S : γ → δ → Prop}

theorem alike_bind (x : Except ε α) (y : Except ε β) (f : α → Except ε γ) (g : β → Except ε δ)
    (hxy : Alike R x y) (h : ∀ a b, R a b → Alike S (f a) (g b)) :
    Alike S (x >>= f) (y >>= g) := by
  cases hxy with
  | ok hab => exact h _ _ hab
  | error e => exact .error e

/-- What both begin with may fail, and is the same for both. -/
theorem alike_bind_same (x : Except ε α) (f : α → Except ε γ) (g : α → Except ε δ)
    (h : ∀ a, Alike S (f a) (g a)) : Alike S (x >>= f) (x >>= g) := by
  cases x with
  | ok a => exact h a
  | error e => exact .error e

theorem alike_flatMapM (f : α → Except ε (List γ)) (g : β → Except ε (List δ)) (xs : List α)
    (ys : List β) (hxy : List.Forall₂ R xs ys)
    (h : ∀ a b, R a b → Alike (List.Forall₂ S) (f a) (g b)) :
    Alike (List.Forall₂ S) (xs.flatMapM f) (ys.flatMapM g) := by
  induction hxy with
  | nil => exact .ok .nil
  | cons hab _ ih =>
    rw [List.flatMapM_cons, List.flatMapM_cons]
    refine alike_bind _ _ _ _ (h _ _ hab) fun cs ds hcd => ?_
    refine alike_bind _ _ _ _ ih fun cs' ds' hcd' => ?_
    exact .ok (List.rel_append hcd hcd')

end Alike

/-- An outcome fails only as `E` allows, and any result is as `P` asks. -/
def Meets (E : ε → Prop) (P : α → Prop) : Except ε α → Prop
  | .ok a => P a
  | .error e => E e

variable {E : ε → Prop} {P Q : α → Prop}

@[simp] theorem meets_ok (a : α) : Meets E P (.ok a : Except ε α) ↔ P a := Iff.rfl

@[simp] theorem meets_error (e : ε) : Meets E P (.error e : Except ε α) ↔ E e := Iff.rfl

@[simp] theorem meets_pure (a : α) : Meets E P (pure a : Except ε α) ↔ P a := Iff.rfl

theorem meets_bind (x : Except ε α) (f : α → Except ε β) (R : β → Prop) (hx : Meets E P x)
    (hf : ∀ a, P a → Meets E R (f a)) : Meets E R (x >>= f) := by
  cases x with
  | ok a => exact hf a hx
  | error e => exact hx

theorem meets_imp (x : Except ε α) (hx : Meets E P x) (h : ∀ a, P a → Q a) : Meets E Q x := by
  cases x with
  | ok a => exact h a hx
  | error e => exact hx

theorem meets_map (x : Except ε α) (f : α → β) (R : β → Prop) (hx : Meets E P x)
    (hf : ∀ a, P a → R (f a)) : Meets E R (f <$> x) := by
  cases x with
  | ok a => exact hf a hx
  | error e => exact hx

theorem meets_mapError {ε' : Type} (F : ε' → Prop) (x : Except ε α) (f : ε → ε')
    (hx : Meets E P x) (hf : ∀ e, E e → F (f e)) : Meets F P (x.mapError f) := by
  cases x with
  | ok a => exact hx
  | error e => exact hf e hx

theorem meets_mapM (f : α → Except ε β) (R : β → Prop) (xs : List α)
    (hf : ∀ x ∈ xs, Meets E R (f x)) : Meets E (fun ys => ∀ y ∈ ys, R y) (xs.mapM f) := by
  induction xs with
  | nil => simp
  | cons x xs ih =>
    rw [List.mapM_cons]
    refine meets_bind _ _ _ (hf x List.mem_cons_self) fun y hy => ?_
    refine meets_bind _ _ _ (ih fun z hz => hf z (List.mem_cons_of_mem x hz)) fun ys hys => ?_
    simpa using ⟨hy, hys⟩

theorem meets_flatMapM (f : α → Except ε (List β)) (R : β → Prop) (xs : List α)
    (hf : ∀ x ∈ xs, Meets E (fun ys => ∀ y ∈ ys, R y) (f x)) :
    Meets E (fun ys => ∀ y ∈ ys, R y) (xs.flatMapM f) := by
  induction xs with
  | nil => simp
  | cons x xs ih =>
    rw [List.flatMapM_cons]
    refine meets_bind _ _ _ (hf x List.mem_cons_self) fun ys hys => ?_
    refine meets_bind _ _ _ (ih fun z hz => hf z (List.mem_cons_of_mem x hz)) fun zs hzs => ?_
    rw [meets_pure]
    intro y hy
    rcases List.mem_append.mp hy with hy | hy
    · exact hys y hy
    · exact hzs y hy

/-- What cannot fail gives a result. -/
theorem meets_false (x : Except ε α) :
    Meets (fun _ => False) P x ↔ ∃ a, x = .ok a ∧ P a := by
  cases x with
  | ok a => simp
  | error e => simp

theorem exists_mapM_eq_ok (f : α → Except ε β) (xs : List α)
    (hf : ∀ x ∈ xs, ∃ y, f x = .ok y) : ∃ ys, xs.mapM f = .ok ys := by
  have hall : ∀ x ∈ xs, Meets (fun _ => False) (fun _ => True) (f x) := by
    intro x hx
    obtain ⟨y, hy⟩ := hf x hx
    exact (meets_false (f x)).mpr ⟨y, hy, trivial⟩
  obtain ⟨ys, hys, -⟩ := (meets_false _).mp (meets_mapM f _ xs hall)
  exact ⟨ys, hys⟩

theorem exists_mapM_eq_ok_iff (f : α → Except ε β) (xs : List α) :
    (∃ ys, xs.mapM f = .ok ys) ↔ ∀ x ∈ xs, ∃ y, f x = .ok y := by
  refine ⟨?_, exists_mapM_eq_ok f xs⟩
  rintro ⟨ys, hys⟩
  have hall := (mapM_eq_ok f xs ys).mp hys
  clear hys
  induction hall with
  | nil => exact nofun
  | cons hfirst _ ih => exact List.forall_mem_cons.mpr ⟨⟨_, hfirst⟩, ih⟩

theorem exists_flatMapM_eq_ok (f : α → Except ε (List β)) (xs : List α)
    (hf : ∀ x ∈ xs, ∃ ys, f x = .ok ys) : ∃ out, xs.flatMapM f = .ok out := by
  obtain ⟨outs, houts⟩ := exists_mapM_eq_ok f xs hf
  exact ⟨outs.flatten, (flatMapM_eq_ok f xs _).mpr ⟨outs, houts, rfl⟩⟩

/-- A pass that makes something of the result for each element succeeds if there are results for all
of them. -/
theorem flatMapM_bind_pure_eq_ok [Inhabited γ] (x : α → Except ε γ) (m : α → γ → List β)
    (xs : List α) (out : List β) :
    (xs.flatMapM fun a => x a >>= fun c => pure (m a c)) = .ok out ↔
      ∃ result : α → γ, (∀ a ∈ xs, x a = .ok (result a)) ∧
        xs.flatMap (fun a => m a (result a)) = out := by
  have hpass (result : α → γ) (h : ∀ a ∈ xs, x a = .ok (result a)) :
      (xs.flatMapM fun a => x a >>= fun c => pure (m a c)) =
        .ok (xs.flatMap fun a => m a (result a)) := by
    refine flatMapM_of_forall _ _ xs fun a ha => ?_
    rw [h a ha]
    rfl
  constructor
  · intro h
    obtain ⟨outs, houts, -⟩ := (flatMapM_eq_ok _ xs out).mp h
    have hresult : ∀ a ∈ xs, ∃ c, x a = .ok c := by
      intro a ha
      obtain ⟨ys, hys⟩ := (exists_mapM_eq_ok_iff _ xs).mp ⟨outs, houts⟩ a ha
      obtain ⟨c, hc, -⟩ := (bind_eq_ok _ _ ys).mp hys
      exact ⟨c, hc⟩
    let result (a : α) : γ := (x a).toOption.getD default
    have hall : ∀ a ∈ xs, x a = .ok (result a) := by
      intro a ha
      obtain ⟨c, hc⟩ := hresult a ha
      simp [result, hc, Except.toOption]
    exact ⟨result, hall, Except.ok.inj ((hpass result hall).symm.trans h)⟩
  · rintro ⟨result, hall, rfl⟩
    exact hpass result hall

end QuadGraph.Outcome
