import ServerFractions.Promotion
import ServerFractions.Proofs.TopLevel

/-!
# No dependency twice

Neither the keys of a result nor the children of one of its entries name a
dependency twice, whatever the graph looks like (`proper_of_resolve`).
-/

namespace ServerFractions

namespace Promotion

variable {w : Walk} {steps : Nat} {n : Node} {m : Module} {st : State} {g : Graph} {ns : List Node}
  {fractions : List ModuleKey} {transitive : Bool} {s : Scope} {t t' : TopLevel}
  {scopeOf : ModuleKey → Option Scope}

theorem Walk.proper_visit (h : st.result.Proper) : (w.visit steps n st).result.Proper := by
  induction steps generalizing n st with
  | zero => exact h
  | succ steps ih =>
    simp only [visit]
    split
    · exact h
    · split
      · exact h
      · rename_i m _
        have hchildren {st : State} (h : st.result.Proper) :
            (m.children.foldl (fun st child => w.visit steps child st) st).result.Proper :=
          List.foldlRecOn m.children _ (motive := fun st : State => st.result.Proper) h
            fun _ h _ _ => ih h
        split_ifs
        · exact h
        · exact h.claim
        · exact hchildren h
        · exact hchildren h.attach

theorem proper_resolveRoot (h : t.Proper) :
    (resolveRoot g fractions transitive s n m t).value.Proper := by
  unfold resolveRoot
  split_ifs
  · exact h
  · exact Walk.proper_visit h
  · exact h.claim

theorem proper_resolveRoots (h : t.Proper)
    (hok : (resolveRoots g scopeOf fractions transitive ns t).value = .ok t') : t'.Proper := by
  induction ns generalizing t with
  | nil =>
    cases hok
    exact h
  | cons n ns ih =>
    rw [resolveRoots] at hok
    cases hm : g.module? n with
    | none =>
      rw [hm] at hok
      exact ih h hok
    | some m =>
      cases hscope : scopeOf m.coordinates.key with
      | none => simp [hm, hscope] at hok
      | some s =>
        simp only [hm, hscope, Logged.value_bind] at hok
        exact ih (proper_resolveRoot h) hok

end Promotion

theorem Configuration.proper_of_resolve {c : Configuration} {fractions : List ModuleKey}
    {transitive : Bool} {t : TopLevel} (hok : (c.resolve fractions transitive).value = .ok t) :
    t.Proper := by
  unfold resolve at hok
  cases hname : Scope.ofConfiguration? c.name with
  | none => simp [hname] at hok
  | some fallback =>
    rw [hname] at hok
    exact Promotion.proper_resolveRoots .empty hok

end ServerFractions
