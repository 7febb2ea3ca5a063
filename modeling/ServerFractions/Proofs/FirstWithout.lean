import Mathlib.Data.List.Basic

/-!
# The first element without a property

`FirstWithout P as a` says that all elements of the list before `a` have a
property and `a` lacks it. Searches that stop at such an element find it, and
they find nothing exactly when all elements have the property.
-/

namespace ServerFractions

variable {α β ε : Type} {P : α → Prop} {a b : α} {as : List α}

/-- `a` is the first of the elements that lacks `P`. -/
def FirstWithout (P : α → Prop) (as : List α) (a : α) : Prop :=
  ∃ before after, as = before ++ a :: after ∧ (∀ b ∈ before, P b) ∧ ¬ P a

theorem firstWithout_cons :
    FirstWithout P (b :: as) a ↔ ¬ P b ∧ a = b ∨ P b ∧ FirstWithout P as a := by
  constructor
  · rintro ⟨before, after, hlist, hbefore, ha⟩
    cases before with
    | nil =>
      cases hlist
      exact .inl ⟨ha, rfl⟩
    | cons x before =>
      cases hlist
      obtain ⟨hb, hbefore⟩ := List.forall_mem_cons.mp hbefore
      exact .inr ⟨hb, before, after, rfl, hbefore, ha⟩
  · rintro (⟨hb, rfl⟩ | ⟨hb, before, after, rfl, hbefore, ha⟩)
    · exact ⟨[], as, rfl, by simp, hb⟩
    · exact ⟨b :: before, after, rfl, List.forall_mem_cons.mpr ⟨hb, hbefore⟩, ha⟩

theorem find?_eq_some_iff_firstWithout {q : α → Bool} (hq : ∀ b, q b = true ↔ ¬ P b) :
    as.find? q = some a ↔ FirstWithout P as a := by
  have hq' : ∀ b, (!q b) = true ↔ P b := by
    intro b
    rw [Bool.not_eq_true', ← Bool.not_eq_true, hq, Classical.not_not]
  simp only [List.find?_eq_some_iff_append, FirstWithout, hq, hq']
  constructor
  · rintro ⟨ha, before, after, hlist, hbefore⟩
    exact ⟨before, after, hlist, hbefore, ha⟩
  · rintro ⟨before, after, hlist, hbefore, ha⟩
    exact ⟨ha, before, after, hlist, hbefore⟩

theorem find?_eq_none_iff_forall {q : α → Bool} (hq : ∀ b, q b = true ↔ ¬ P b) :
    as.find? q = none ↔ ∀ b ∈ as, P b := by
  simp only [List.find?_eq_none, hq, Classical.not_not]

theorem findSome?_eq_some_iff_firstWithout {F : α → Option β} {x : β}
    (hF : ∀ b, F b = none ↔ P b) :
    as.findSome? F = some x ↔ ∃ a, FirstWithout P as a ∧ F a = some x := by
  simp only [List.findSome?_eq_some_iff, FirstWithout, hF]
  constructor
  · rintro ⟨before, a, after, hlist, ha, hbefore⟩
    exact ⟨a, ⟨before, after, hlist, hbefore, by simp [← hF, ha]⟩, ha⟩
  · rintro ⟨a, ⟨before, after, hlist, hbefore, _⟩, ha⟩
    exact ⟨before, a, after, hlist, ha, hbefore⟩

theorem mapM_eq_error_iff {f : α → Except ε β} {e : ε} (hP : ∀ b, P b ↔ ∃ y, f b = .ok y) :
    as.mapM f = .error e ↔ ∃ a, FirstWithout P as a ∧ f a = .error e := by
  induction as with
  | nil => simp [FirstWithout, pure, Except.pure]
  | cons b as ih =>
    simp only [List.mapM_cons, firstWithout_cons, hP b]
    cases hb : f b with
    | error e' => simp [hb, bind, Except.bind]
    | ok y =>
      simp only [Except.ok.injEq, exists_eq', not_true_eq_false, false_and, true_and, false_or,
        ← ih]
      cases as.mapM f with
      | error e' => simp [bind, Except.bind]
      | ok ys => simp [bind, Except.bind, pure, Except.pure]

end ServerFractions
