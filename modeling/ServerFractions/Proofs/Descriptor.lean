import Mathlib.Data.String.Basic
import Mathlib.Order.Defs.Unbundled
import ServerFractions.Descriptor

/-!
# The order of descriptors

`Identity.Before` spells the order out. It is a strict total order
(`isStrictTotalOrder_before`), so a list in which no identity comes twice has
one ascending arrangement only, and sorting finds it from every other one
(`pairwise_mergeSort_before`, `eq_of_perm_of_before`).
-/

namespace ServerFractions

namespace Identity

variable {i j k : Identity}

/-- An absent classifier stands before all others. -/
def ClassifierBefore : Option String → Option String → Prop
  | none, some _ => True
  | some c, some d => c < d
  | _, none => False

/-- The first field in which two identities differ decides: group, artifact,
version, type, classifier, scope. -/
def Before (i j : Identity) : Prop :=
  i.group < j.group ∨ i.group = j.group ∧
  (i.artifact < j.artifact ∨ i.artifact = j.artifact ∧
  (i.version < j.version ∨ i.version = j.version ∧
  (i.type < j.type ∨ i.type = j.type ∧
  (ClassifierBefore i.classifier j.classifier ∨ i.classifier = j.classifier ∧
  i.scope.rank < j.scope.rank))))

theorem compare_classifier_eq_lt_iff {c d : Option String} :
    compare c d = .lt ↔ ClassifierBefore c d := by
  cases c with
  | none => cases d <;> simp [ClassifierBefore, compare]
  | some c =>
    cases d with
    | none => simp [ClassifierBefore, compare]
    | some d => exact compare_lt_iff_lt (a := c) (b := d)

theorem order_eq_lt_iff : i.order j = .lt ↔ i.Before j := by
  simp only [order, compareLex, compareOn, Ordering.then_eq_lt, compare_lt_iff_lt,
    compare_classifier_eq_lt_iff, Std.LawfulEqCmp.compare_eq_iff_eq, Before]

theorem order_swap : j.order i = (i.order j).swap :=
  Std.OrientedCmp.eq_swap

theorem Before.irrefl : ¬ i.Before i := by
  rw [← order_eq_lt_iff, order_eq_iff.mpr rfl]
  decide

theorem Before.trans (h : i.Before j) (h' : j.Before k) : i.Before k := by
  rw [← order_eq_lt_iff] at *
  exact Std.TransCmp.lt_trans h h'

theorem eq_of_not_before (h : ¬ i.Before j) (h' : ¬ j.Before i) : i = j := by
  rw [← order_eq_lt_iff] at h h'
  rw [order_swap, Ordering.swap_eq_lt] at h'
  cases ho : i.order j with
  | lt => exact absurd ho h
  | eq => exact order_eq_iff.mp ho
  | gt => exact absurd ho h'

theorem isStrictTotalOrder_before : IsStrictTotalOrder Identity Before where
  trichotomous _ _ := eq_of_not_before
  irrefl _ := Before.irrefl
  trans _ _ _ := Before.trans

-- ---------------------------------------------------------------------------
-- Sorting
-- ---------------------------------------------------------------------------

variable {α : Type} {f : α → Identity} {as bs : List α}

/-- Sorting by an identity that no two elements share. -/
theorem pairwise_mergeSort_before (h : (as.map f).Nodup) :
    (as.mergeSort fun a b => ((f a).order (f b)).isLE).Pairwise fun a b => (f a).Before (f b) := by
  have hdistinct := List.pairwise_map.mp
    (((List.mergeSort_perm as fun a b => ((f a).order (f b)).isLE).map f).nodup_iff.mpr h)
  have hsorted : (as.mergeSort fun a b => ((f a).order (f b)).isLE).Pairwise
      fun a b => ((f a).order (f b)).isLE = true := by
    refine List.pairwise_mergeSort (fun _ _ _ => Std.TransCmp.isLE_trans) (fun a b => ?_) as
    rw [order_swap (i := f a)]
    cases (f a).order (f b) <;> rfl
  refine hsorted.imp₂ (fun a b hle hne => order_eq_lt_iff.mp ?_) hdistinct
  exact (Ordering.isLE_iff_eq_lt_or_eq_eq.mp hle).resolve_right (mt order_eq_iff.mp hne)

/-- There is one ascending arrangement only. -/
theorem eq_of_perm_of_before (hperm : as.Perm bs)
    (ha : as.Pairwise fun a b => (f a).Before (f b))
    (hb : bs.Pairwise fun a b => (f a).Before (f b)) : as = bs :=
  hperm.eq_of_pairwise (fun _ _ _ _ hab hba => absurd (hab.trans hba) Before.irrefl) ha hb

end Identity

end ServerFractions
