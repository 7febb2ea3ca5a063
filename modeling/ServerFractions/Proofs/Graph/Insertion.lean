import ServerFractions.Proofs.Graph.Builder

/-!
# Several insertions in a row

Adding several children to a module, or several nodes to the first level, one
by one leaves each where it was added first and does nothing else.
-/

namespace ServerFractions.Graph.Builder

variable {b : Builder} {parent : Node} {ns : List Node}

theorem modules_foldl_addChild : (ns.foldl (·.addChild parent ·) b).modules =
    b.modules.modify parent fun m =>
      { m with children := ns.foldl (fun acc n => appendNew n acc) m.children } := by
  induction ns generalizing b with
  | nil => exact Array.ext_getElem? fun i => by simp [Array.getElem?_modify]
  | cons n ns ih =>
    rw [List.foldl_cons, ih]
    refine Array.ext_getElem? fun i => ?_
    simp only [addChild, Array.getElem?_modify, List.foldl_cons]
    split
    · rw [Option.map_map]
      rfl
    · rfl

theorem firstLevel_foldl_addChild :
    (ns.foldl (·.addChild parent ·) b).firstLevel = b.firstLevel := by
  induction ns generalizing b with
  | nil => rfl
  | cons n ns ih => exact ih

theorem foldl_addFirstLevel : ns.foldl (·.addFirstLevel ·) b =
    { b with firstLevel := ns.foldl (fun acc n => appendNew n acc) b.firstLevel } := by
  induction ns generalizing b with
  | nil => rfl
  | cons n ns ih => exact ih

theorem Consistent.foldl_addChild (h : b.Consistent) (hns : ∀ n ∈ ns, n < b.modules.size) :
    (ns.foldl (·.addChild parent ·) b).Consistent := by
  refine (List.foldlRecOn ns _
    (motive := fun b' : Builder => b'.Consistent ∧ b'.modules.size = b.modules.size)
    ⟨h, rfl⟩ fun b' hb' n hn => ?_).1
  exact ⟨hb'.1.addChild (hb'.2 ▸ hns n hn), Array.size_modify.trans hb'.2⟩

theorem Consistent.foldl_addFirstLevel (h : b.Consistent) (hns : ∀ n ∈ ns, n < b.modules.size) :
    (ns.foldl (·.addFirstLevel ·) b).Consistent := by
  refine (List.foldlRecOn ns _
    (motive := fun b' : Builder => b'.Consistent ∧ b'.modules = b.modules)
    ⟨h, rfl⟩ fun b' hb' n hn => ?_).1
  exact ⟨hb'.1.addFirstLevel (hb'.2 ▸ hns n hn), hb'.2⟩

end ServerFractions.Graph.Builder
