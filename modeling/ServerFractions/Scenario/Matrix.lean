import ServerFractions.Scenario.Basic

/-!
# All scenarios

Every combination of choices that makes a scenario, in the order of the
choices, the last one varying fastest.
-/

namespace ServerFractions.Scenario

/-- Every selection from a list. Selections without the last element come
before those with it. -/
def selections {α : Type} : List α → List (List α)
  | [] => [[]]
  | a :: as => (selections as).flatMap fun chosen => [chosen, a :: chosen]

def matrix : List Scenario :=
  Packaging.all.flatMap fun packaging =>
  Dependencies.all.flatMap fun dependencies =>
  Autodetection.all.flatMap fun autodetection =>
  (selections Technology.all).flatMap fun technologies =>
  AdditionalDependency.all.flatMap fun additionalDependency =>
  AdditionalFraction.all.filterMap fun additionalFraction =>
    (ofChoices packaging dependencies autodetection technologies additionalDependency
      additionalFraction).toOption

example : selections [0, 1, 2] = [[], [0], [1], [0, 1], [2], [0, 2], [1, 2], [0, 1, 2]] := rfl

end ServerFractions.Scenario
