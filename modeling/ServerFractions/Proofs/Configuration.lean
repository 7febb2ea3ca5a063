import ServerFractions.Configuration

/-!
# The last declaration decides

`assignedScope_eq_some_iff`: the scope of a dependency is that of the last
configuration of the hierarchy that declares it, whatever stands before.
-/

namespace ServerFractions

variable {hierarchy : List DeclaredConfiguration} {key : ModuleKey} {d : DeclaredConfiguration}
  {fallback s : Scope}

/-- `d` declares the key, and nothing behind it in the hierarchy does. -/
def LastDeclares (hierarchy : List DeclaredConfiguration) (key : ModuleKey)
    (d : DeclaredConfiguration) : Prop :=
  ∃ before after, hierarchy = before ++ d :: after ∧ key ∈ d.dependencies ∧
    ∀ e ∈ after, key ∉ e.dependencies

theorem LastDeclares.mem (h : LastDeclares hierarchy key d) : d ∈ hierarchy := by
  obtain ⟨before, after, rfl, _⟩ := h
  simp

theorem LastDeclares.declares (h : LastDeclares hierarchy key d) : key ∈ d.dependencies := by
  obtain ⟨_, _, _, hkey, _⟩ := h
  exact hkey

/-- What is found from the end is the last of its kind. -/
theorem find?_reverse_eq_some_iff_append {α : Type} {p : α → Bool} {as : List α} {a : α} :
    as.reverse.find? p = some a ↔
      ∃ before after, as = before ++ a :: after ∧ p a = true ∧ ∀ b ∈ after, p b = false := by
  rw [List.find?_eq_some_iff_append]
  constructor
  · rintro ⟨ha, after, before, hlist, hafter⟩
    refine ⟨before.reverse, after.reverse, ?_, ha, by simpa using hafter⟩
    simpa using congrArg List.reverse hlist
  · rintro ⟨before, after, rfl, ha, hafter⟩
    exact ⟨ha, after.reverse, before.reverse, by simp, by simpa using hafter⟩

theorem find?_reverse_eq_some_iff :
    hierarchy.reverse.find? (key ∈ ·.dependencies) = some d ↔ LastDeclares hierarchy key d := by
  simp [find?_reverse_eq_some_iff_append, LastDeclares]

theorem assignedScope_eq_some_iff : assignedScope hierarchy fallback key = some s ↔
    ∃ d, LastDeclares hierarchy key d ∧ Scope.ofConfiguration d.name fallback = s := by
  simp only [assignedScope, Option.map_eq_some_iff, find?_reverse_eq_some_iff]

theorem exists_assignedScope_iff : (∃ s, assignedScope hierarchy fallback key = some s) ↔
    ∃ d ∈ hierarchy, key ∈ d.dependencies := by
  rw [← Option.isSome_iff_exists, assignedScope, Option.isSome_map]
  simp

theorem exists_lastDeclares (h : ∃ d ∈ hierarchy, key ∈ d.dependencies) :
    ∃ d, LastDeclares hierarchy key d := by
  have hscope : ∃ s, assignedScope hierarchy .compile key = some s :=
    exists_assignedScope_iff.mpr h
  obtain ⟨s, hs⟩ := hscope
  obtain ⟨d, hd, _⟩ := assignedScope_eq_some_iff.mp hs
  exact ⟨d, hd⟩

end ServerFractions
