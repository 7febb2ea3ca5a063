import Mathlib.Logic.Relation
import ServerFractions.Reach

/-!
# Preorder reaches everything

Reachability over a successor function, plain and along elements with a given
property, and what `preorder` has to do with it. `mem_preorder`: the walk
lists what a pending element reaches along unreached elements only, whatever
the repetitions and cycles.
-/

namespace ServerFractions

variable {α : Type} {next : α → List α} {P Q : α → Prop} {a b x : α}

/-- There is a path from `a` to `b`, of any length. -/
def Reaches (next : α → List α) (a b : α) : Prop :=
  Relation.ReflTransGen (fun a b => b ∈ next a) a b

/-- There is a path from `a` to `b`, of any length, on which everything before
`b` has the property `P`. Nothing is said about `b` itself. -/
def ReachesVia (next : α → List α) (P : α → Prop) (a b : α) : Prop :=
  Relation.ReflTransGen (fun a b => P a ∧ b ∈ next a) a b

namespace ReachesVia

theorem reaches (h : ReachesVia next P a b) : Reaches next a b :=
  Relation.ReflTransGen.mono (fun _ _ h => h.2) a b h

theorem mono (h : ReachesVia next P a b) (hPQ : ∀ x, P x → Q x) : ReachesVia next Q a b :=
  Relation.ReflTransGen.mono (fun a _ h => ⟨hPQ a h.1, h.2⟩) a b h

theorem mono_next {next' : α → List α} (h : ReachesVia next P a b)
    (hnext : ∀ x, next x ⊆ next' x) : ReachesVia next' P a b :=
  Relation.ReflTransGen.mono (fun a _ h => ⟨h.1, hnext a h.2⟩) a b h

theorem head (hP : P a) (hb : b ∈ next a) (h : ReachesVia next P b x) : ReachesVia next P a x :=
  Relation.ReflTransGen.head ⟨hP, hb⟩ h

theorem tail (h : ReachesVia next P a b) (hP : P b) (hx : x ∈ next b) : ReachesVia next P a x :=
  Relation.ReflTransGen.tail h ⟨hP, hx⟩

theorem start (h : ReachesVia next P a b) (hb : P b) : P a := by
  cases h using Relation.ReflTransGen.head_induction_on with
  | refl => exact hb
  | head hstep _ => exact hstep.1

/-- Where a path does not start with `P`, it has no first step. -/
theorem eq_of_not (h : ReachesVia next P a b) (ha : ¬ P a) : b = a := by
  cases h using Relation.ReflTransGen.head_induction_on with
  | refl => rfl
  | head hstep _ => exact absurd hstep.1 ha

/-- A path either has `Q` all along, or a first element without it. -/
theorem split (h : ReachesVia next P a b) (Q : α → Prop) :
    ReachesVia next Q a b ∨
      ∃ x, ReachesVia next Q a x ∧ ¬ Q x ∧ P x ∧ ReachesVia next P x b := by
  induction h using Relation.ReflTransGen.head_induction_on with
  | refl => exact .inl .refl
  | @head a c hac hcb ih =>
    by_cases ha : Q a
    · rcases ih with hvia | ⟨x, hvia, hx⟩
      · exact .inl (hvia.head ha hac.2)
      · exact .inr ⟨x, hvia.head ha hac.2, hx⟩
    · exact .inr ⟨a, .refl, ha, hac.1, head hac.1 hac.2 hcb⟩

/-- A path can be cut at its last visit of `a`: what follows avoids `a`. -/
theorem avoids_or_leaves (h : ReachesVia next P b x) (hx : x ≠ a) :
    b ≠ a ∧ ReachesVia next (fun y => P y ∧ y ≠ a) b x ∨
      ∃ c ∈ next a, ReachesVia next (fun y => P y ∧ y ≠ a) c x := by
  induction h using Relation.ReflTransGen.head_induction_on with
  | refl => exact .inl ⟨hx, .refl⟩
  | @head b c hbc _ ih =>
    rcases ih with ⟨_, hvia⟩ | hleaves
    · by_cases hb : b = a
      · exact .inr ⟨c, hb ▸ hbc.2, hvia⟩
      · exact .inl ⟨hb, hvia.head ⟨hbc.1, hb⟩ hbc.2⟩
    · exact .inr hleaves

end ReachesVia

/-- A path either has `P` all along, its end included, or a first element without it. -/
theorem Reaches.cut (h : Reaches next a b) (P : α → Prop) :
    ReachesVia next P a b ∧ P b ∨ ∃ x, ReachesVia next P a x ∧ ¬ P x ∧ Reaches next x b := by
  have hpath : ReachesVia next (fun _ => True) a b :=
    Relation.ReflTransGen.mono (fun _ _ h => ⟨trivial, h⟩) a b h
  rcases hpath.split P with hvia | ⟨x, hvia, hx, _, hrest⟩
  · by_cases hb : P b
    · exact .inl ⟨hvia, hb⟩
    · exact .inr ⟨b, hvia, hb, .refl⟩
  · exact .inr ⟨x, hvia, hx, hrest.reaches⟩

-- ---------------------------------------------------------------------------
-- Reached from several elements
-- ---------------------------------------------------------------------------

/-- Some pending element leads to `x`. -/
def ReachedFrom (next : α → List α) (pending : List α) (x : α) : Prop :=
  ∃ p ∈ pending, Reaches next p x

theorem not_reachedFrom_nil : ¬ ReachedFrom next [] x := by
  simp [ReachedFrom]

theorem reachedFrom_cons {rest : List α} :
    ReachedFrom next (a :: rest) x ↔ Reaches next a x ∨ ReachedFrom next rest x := by
  simp [ReachedFrom]

theorem reachedFrom_append {as bs : List α} :
    ReachedFrom next (as ++ bs) x ↔ ReachedFrom next as x ∨ ReachedFrom next bs x := by
  simp only [ReachedFrom, List.mem_append]
  grind

theorem reaches_refl : Reaches next a a :=
  Relation.ReflTransGen.refl

theorem reachedFrom_singleton : ReachedFrom next [a] x ↔ Reaches next a x := by
  simp [ReachedFrom]

/-- A path is empty or goes through a successor. -/
theorem reaches_iff : Reaches next a x ↔ a = x ∨ ReachedFrom next (next a) x :=
  Relation.ReflTransGen.cases_head_iff

-- ---------------------------------------------------------------------------
-- Agreement
-- ---------------------------------------------------------------------------

/-- Two successor functions are the same on all that the pending elements lead
to, and so are two lists; how they are ordered does not matter. -/
structure AgreeFrom (next next' : α → List α) (as as' pending : List α) : Prop where
  nodup : as.Nodup
  nodup' : as'.Nodup
  next_eq : ∀ x, ReachedFrom next pending x → next' x = next x
  mem_iff : ∀ x, ReachedFrom next pending x → (x ∈ as' ↔ x ∈ as)

namespace AgreeFrom

variable {next' : α → List α} {as as' rest : List α}

theorem mono {pending' : List α} (h : AgreeFrom next next' as as' pending)
    (hsub : ∀ x, ReachedFrom next pending' x → ReachedFrom next pending x) :
    AgreeFrom next next' as as' pending' :=
  ⟨h.nodup, h.nodup', fun x hx => h.next_eq x (hsub x hx), fun x hx => h.mem_iff x (hsub x hx)⟩

theorem erase [DecidableEq α] (h : AgreeFrom next next' as as' pending) (a : α) :
    AgreeFrom next next' (as.erase a) (as'.erase a) pending where
  nodup := h.nodup.erase a
  nodup' := h.nodup'.erase a
  next_eq := h.next_eq
  mem_iff x hx := by
    rw [h.nodup.mem_erase_iff, h.nodup'.mem_erase_iff, h.mem_iff x hx]

theorem tail (h : AgreeFrom next next' as as' (a :: rest)) : AgreeFrom next next' as as' rest :=
  h.mono fun _ hx => reachedFrom_cons.mpr (.inr hx)

theorem head (h : AgreeFrom next next' as as' (a :: rest)) :
    AgreeFrom next next' as as' (next a) :=
  h.mono fun _ hx => reachedFrom_cons.mpr (.inl (reaches_iff.mpr (.inr hx)))

theorem append {bs : List α} (h : AgreeFrom next next' as as' pending)
    (hbs : AgreeFrom next next' as as' bs) : AgreeFrom next next' as as' (pending ++ bs) where
  nodup := h.nodup
  nodup' := h.nodup'
  next_eq x hx := (reachedFrom_append.mp hx).elim (h.next_eq x) (hbs.next_eq x)
  mem_iff x hx := (reachedFrom_append.mp hx).elim (h.mem_iff x) (hbs.mem_iff x)

theorem head_next_eq (h : AgreeFrom next next' as as' (a :: rest)) : next' a = next a :=
  h.next_eq a (reachedFrom_cons.mpr (.inl reaches_refl))

theorem head_mem_iff (h : AgreeFrom next next' as as' (a :: rest)) : a ∈ as' ↔ a ∈ as :=
  h.mem_iff a (reachedFrom_cons.mpr (.inl reaches_refl))

end AgreeFrom

-- ---------------------------------------------------------------------------
-- Preorder
-- ---------------------------------------------------------------------------

variable [DecidableEq α] {unreached pending : List α}

theorem mem_preorder : x ∈ preorder next unreached pending ↔
    x ∈ unreached ∧ ∃ p ∈ pending, ReachesVia next (· ∈ unreached) p x := by
  fun_induction preorder next unreached pending with
  | case1 => simp
  | case2 unreached a rest ha ih =>
    rw [List.mem_cons, ih]
    constructor
    · rintro (rfl | ⟨hx, p, hp, hvia⟩)
      · exact ⟨ha, x, by simp, .refl⟩
      · have hvia := hvia.mono fun _ => List.mem_of_mem_erase
        refine ⟨List.mem_of_mem_erase hx, ?_⟩
        rcases List.mem_append.mp hp with hp | hp
        · exact ⟨a, by simp, hvia.head ha hp⟩
        · exact ⟨p, by simp [hp], hvia⟩
    · rintro ⟨hx, p, hp, hvia⟩
      by_cases hxa : x = a
      · exact .inl hxa
      · have hmem : ∀ y, y ∈ unreached ∧ y ≠ a → y ∈ unreached.erase a :=
          fun y h => (List.mem_erase_of_ne h.2).mpr h.1
        refine .inr ⟨hmem x ⟨hx, hxa⟩, ?_⟩
        rcases hvia.avoids_or_leaves hxa with ⟨hpa, hvia⟩ | ⟨c, hc, hvia⟩
        · have hp := (List.mem_cons.mp hp).resolve_left hpa
          exact ⟨p, by simp [hp], hvia.mono hmem⟩
        · exact ⟨c, by simp [hc], hvia.mono hmem⟩
  | case3 unreached a rest ha ih =>
    rw [ih]
    constructor
    · rintro ⟨hx, p, hp, hvia⟩
      exact ⟨hx, p, by simp [hp], hvia⟩
    · rintro ⟨hx, p, hp, hvia⟩
      rcases List.mem_cons.mp hp with rfl | hp
      · exact absurd (hvia.eq_of_not ha ▸ hx) ha
      · exact ⟨hx, p, hp, hvia⟩

/-- Where the unreached elements hold all successors, preorder is plain
reachability. -/
theorem mem_preorder_iff_reaches (hnext : ∀ a, ∀ b ∈ next a, b ∈ unreached)
    (hpending : ∀ p ∈ pending, p ∈ unreached) :
    x ∈ preorder next unreached pending ↔ ∃ p ∈ pending, Reaches next p x := by
  rw [mem_preorder]
  constructor
  · rintro ⟨_, p, hp, hvia⟩
    exact ⟨p, hp, hvia.reaches⟩
  · rintro ⟨p, hp, hreach⟩
    have hall : ReachesVia next (· ∈ unreached) p x ∧ x ∈ unreached := by
      induction hreach with
      | refl => exact ⟨.refl, hpending p hp⟩
      | tail _ hstep ih => exact ⟨ih.1.tail ih.2 hstep, hnext _ _ hstep⟩
    exact ⟨hall.2, p, hp, hall.1⟩

theorem nodup_preorder (h : unreached.Nodup) : (preorder next unreached pending).Nodup := by
  fun_induction preorder next unreached pending with
  | case1 => exact .nil
  | case2 unreached a rest _ ih =>
    refine List.nodup_cons.mpr ⟨fun ha => ?_, ih (h.erase a)⟩
    exact h.not_mem_erase (mem_preorder.mp ha).1
  | case3 _ _ _ _ ih => exact ih h

theorem preorder_congr {next' : α → List α} {unreached' : List α}
    (h : AgreeFrom next next' unreached unreached' pending) :
    preorder next' unreached' pending = preorder next unreached pending := by
  fun_induction preorder next unreached pending generalizing unreached' with
  | case1 => simp
  | case2 unreached a rest ha ih =>
    rw [preorder_cons_of_mem next' rest (h.head_mem_iff.mpr ha), h.head_next_eq]
    rw [ih ((h.head.append h.tail).erase a)]
  | case3 unreached a rest ha ih =>
    rw [preorder_cons_of_not_mem next' rest (mt h.head_mem_iff.mp ha), ih h.tail]

end ServerFractions
