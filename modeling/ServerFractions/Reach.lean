/-!
# Reaching everything

Depth-first preorder over a successor function. What was not yet reached is
held as a list from which each element is struck off when it is reached, so
an element outside the list is passed over, cycles end, and the length of the
list bounds the walk.
-/

namespace ServerFractions

variable {α : Type} [DecidableEq α]

/-- The elements of `unreached` that can be reached from `pending`, each once,
in depth-first preorder. -/
def preorder (next : α → List α) (unreached pending : List α) : List α :=
  match pending with
  | [] => []
  | a :: rest =>
    if a ∈ unreached then a :: preorder next (unreached.erase a) (next a ++ rest)
    else preorder next unreached rest
termination_by (unreached.length, pending.length)
decreasing_by
  · rename_i h
    have := List.length_erase_of_mem h
    have := List.length_pos_of_mem h
    exact Prod.Lex.left _ _ (by omega)
  · exact Prod.Lex.right _ (by simp)

@[simp] theorem preorder_nil (next : α → List α) (unreached : List α) :
    preorder next unreached [] = [] := by
  simp [preorder]

theorem preorder_cons_of_mem (next : α → List α) {a : α} {unreached : List α} (rest : List α)
    (h : a ∈ unreached) :
    preorder next unreached (a :: rest) =
      a :: preorder next (unreached.erase a) (next a ++ rest) := by
  rw [preorder]; simp [h]

theorem preorder_cons_of_not_mem (next : α → List α) {a : α} {unreached : List α} (rest : List α)
    (h : a ∉ unreached) :
    preorder next unreached (a :: rest) = preorder next unreached rest := by
  rw [preorder]; simp [h]

end ServerFractions
