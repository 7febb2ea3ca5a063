import ServerFractions.ProjectResolution
import ServerFractions.Proofs.ProjectIndex

/-!
# What a resolved project holds

The entries that are projects are those that are seen as such through the
cache (`value_projectGavs`). A resolution that succeeds holds what it was asked
for (`exists_of_answer_eq_ok`), and it depends on the cache only through what
is seen of the projects (`resolveProject_congr`).
-/

namespace ServerFractions.ProjectResolution

variable {r : Registry} {s : Snapshot} {c c' : Cache} {keys : List Descriptor} {key : Descriptor}
  {catalog : Except Failure (List ModuleKey)} {name : String} {transitive : Bool}
  {resolved : ResolvedProject}

-- ---------------------------------------------------------------------------
-- Entries that are projects
-- ---------------------------------------------------------------------------

theorem projectGavs_cons : (projectGavs r (key :: keys) c).value =
    let isProject := (ProjectIndex.contains ⟨r, c⟩ key.coordinates).value
    let rest := (projectGavs r keys isProject.2).value
    (if isProject.1 then key.gav :: rest.1 else rest.1, rest.2) := rfl

theorem value_projectGavs : (projectGavs r keys c).value.1 =
    (keys.filter fun key => (r.seen c).contains key.coordinates).map (·.gav) := by
  induction keys generalizing c with
  | nil => rfl
  | cons key keys ih =>
    rw [projectGavs_cons]
    simp only [ih, ProjectIndex.value_contains, ProjectIndex.fills_contains.seen_eq]
    by_cases h : (r.seen c).contains key.coordinates = true
    · simp [h]
    · simp [h]

theorem fills_projectGavs : r.Fills c (projectGavs r keys c).value.2 := by
  induction keys generalizing c with
  | nil => exact .refl
  | cons key keys ih => exact ProjectIndex.fills_contains.trans ih

-- ---------------------------------------------------------------------------
-- Resolutions
-- ---------------------------------------------------------------------------

theorem fills_resolveProject :
    s.registry.Fills c (s.resolveProject catalog name transitive c).value.cache := by
  cases catalog with
  | error failure => exact .refl
  | ok fractions =>
    simp only [Snapshot.resolveProject, Logged.value_bind]
    cases (s.configuration name).value with
    | none => exact .refl
    | some configuration =>
      simp only [Logged.value_bind]
      cases (configuration.resolve fractions transitive).value with
      | error fault => exact .refl
      | ok result => exact fills_projectGavs

theorem resolveProject_congr (h : s.registry.seen c = s.registry.seen c') :
    (s.resolveProject catalog name transitive c).value.answer =
      (s.resolveProject catalog name transitive c').value.answer ∧
    (s.resolveProject catalog name transitive c).value.notices =
      (s.resolveProject catalog name transitive c').value.notices := by
  cases catalog with
  | error failure => exact ⟨rfl, rfl⟩
  | ok fractions =>
    simp only [Snapshot.resolveProject, Logged.value_bind]
    cases (s.configuration name).value with
    | none => exact ⟨rfl, rfl⟩
    | some configuration =>
      simp only [Logged.value_bind]
      cases (configuration.resolve fractions transitive).value with
      | error fault => exact ⟨rfl, rfl⟩
      | ok result =>
        simp only [Logged.value_bind, Logged.value_pure, value_projectGavs, h]
        exact ⟨trivial, trivial⟩

/-- Which fractions were known, where the entries come from and which of them
are marked as projects. -/
theorem exists_of_answer_eq_ok
    (h : (s.resolveProject catalog name transitive c).value.answer = .ok resolved) :
    ∃ fractions, catalog = .ok fractions ∧ resolved.fractions = fractions ∧
      (resolved.result = .empty ∨ ∃ configuration, (s.configuration name).value = some configuration ∧
        (configuration.resolve fractions transitive).value = .ok resolved.result) ∧
      ∀ gav, gav ∈ resolved.projectGavs ↔ gav ∈ (projectGavs s.registry resolved.result.keys c).value.1 := by
  cases catalog with
  | error failure => cases h
  | ok fractions =>
    refine ⟨fractions, rfl, ?_⟩
    simp only [Snapshot.resolveProject, Logged.value_bind] at h
    cases hname : (s.configuration name).value with
    | none =>
      simp only [hname, Logged.value_bind, Logged.value_pure] at h
      cases h
      exact ⟨rfl, .inl rfl, by simp [projectGavs, TopLevel.keys, TopLevel.empty]⟩
    | some configuration =>
      simp only [hname, Logged.value_bind] at h
      cases hresult : (configuration.resolve fractions transitive).value with
      | error fault =>
        simp only [hresult, Logged.value_pure] at h
        cases h
      | ok result =>
        simp only [hresult, Logged.value_bind, Logged.value_pure] at h
        cases h
        exact ⟨rfl, .inr ⟨configuration, rfl, hresult⟩, by simp⟩

end ServerFractions.ProjectResolution
