import ServerFractions.Configuration
import ServerFractions.Snapshot.Basic

/-!
# Hierarchies

The hierarchy of a configuration lists it and everything it extends. A
configuration that is reached again moves to the end together with what it
extends, so that a shared one comes after every path that leads to it. A
configuration that extends itself, by whatever detour, is reported and not
followed.
-/

namespace ServerFractions.Snapshot

/-- The order after `p` has moved to its end, or has come to it for the first time. -/
def moveToEnd (p : String) (order : List String) : List String :=
  order.filter (· != p) ++ [p]

/-- Follows the configurations `pending`, which `through` extends. `free` holds
the configurations that are not on the path to `through`. -/
def climb (parents : String → List String) (free order : List String) (through : String)
    (pending : List String) : Logged (List String) :=
  match pending with
  | [] => pure order
  | p :: rest =>
    if p ∈ free then do
      let order ← climb parents (free.erase p) (moveToEnd p order) p (parents p)
      climb parents free order through rest
    else do
      Logged.report (.selfExtension p through)
      climb parents free order through rest
termination_by (free.length, pending.length)
decreasing_by
  · rename_i h
    have := List.length_erase_of_mem h
    have := List.length_pos_of_mem h
    exact Prod.Lex.left _ _ (by omega)
  all_goals exact Prod.Lex.right _ (by simp)

/-- The names of the configurations that a configuration extends directly. -/
def parents (s : Snapshot) (name : String) : List String :=
  (s.configuration? name).elim [] (·.extendsFrom)

def hierarchyNames (s : Snapshot) (name : String) : Logged (List String) :=
  climb s.parents (s.document.configurationNames.erase name) [name] name (s.parents name)

def ConfigurationEntry.declared (c : ConfigurationEntry) : DeclaredConfiguration :=
  { name := c.name, dependencies := c.dependencies.filterMap ModuleKey.parse? }

/-- The hierarchy of a configuration, itself first. -/
def hierarchy (s : Snapshot) (name : String) : Logged (List DeclaredConfiguration) := do
  let names ← s.hierarchyNames name
  return (names.filterMap s.configuration?).map (·.declared)

end ServerFractions.Snapshot
