import ServerFractions.Proofs.Coordinates
import ServerFractions.Proofs.Snapshot.Ancestry

/-!
# Who takes a scope from a declared dependency

A module takes its scope from a declared dependency by its key, which joins
group and name without escaping. Several modules can share such a text, as `app`
of `org.acme:web` and `web:app` of `org.acme` do, but no snapshot can declare it:
whatever takes its scope from a declared dependency has the group and the name
that are written there (`Scopes.sides`). Versions are no part of it.
-/

namespace ServerFractions.Snapshot

open ModuleKey (Sides parse? ofParts)

variable {s : Snapshot} {c : Configuration} {name v : String} {e e' : ConfigurationEntry}
  {x y : Coordinates} {scope : Scope}

/-- The module takes its scope from the dependency `v` of the configuration
`e`. Nothing behind `e` in the hierarchy declares the key once more. -/
structure Scopes (s : Snapshot) (c : Configuration) (e : ConfigurationEntry) (v : String)
    (x : Coordinates) : Prop where
  entry : e ∈ s.document.configurations
  dependency : v ∈ e.dependencies
  key : parse? v = some x.key
  last : LastDeclares c.hierarchy x.key e.declared

/-- A module has a scope exactly if it takes one from a declared dependency. -/
theorem scope?_eq_some_iff_scopes (hc : (s.configuration name).value = some c) :
    c.scope? x.key = some scope ↔ ∃ e v fallback, s.Scopes c e v x ∧
      Scope.ofConfiguration? name = some fallback ∧
      Scope.ofConfiguration e.name fallback = scope := by
  obtain ⟨_, hcname, hhierarchy⟩ := hierarchy_of_configuration hc
  rw [Configuration.scope?_eq_some_iff, hcname]
  constructor
  · rintro ⟨fallback, hfallback, d, hlast, hscope⟩
    have hd : d ∈ (s.hierarchy name).value := hhierarchy ▸ hlast.mem
    obtain ⟨e, he, rfl⟩ := Option.map_eq_some_iff.mp (mem_hierarchy.mp hd).2
    obtain ⟨v, hv, hkey⟩ := List.mem_filterMap.mp hlast.declares
    exact ⟨e, v, fallback, ⟨mem_of_configuration? he, hv, hkey, hlast⟩, hfallback, hscope⟩
  · rintro ⟨e, v, fallback, h, hfallback, hscope⟩
    exact ⟨fallback, hfallback, e.declared, h.last, hscope⟩

theorem Scopes.sides (h : s.Scopes c e v x) : Sides v x.group x.name := by
  obtain ⟨hkey, htext⟩ := ModuleKey.parse?_eq_some_iff.mp h.key
  obtain ⟨group, artifact, hsides⟩ := ModuleKey.isKey_iff_exists_sides.mp hkey
  obtain ⟨hgroup, hname⟩ := (hsides.ofParts_eq_iff htext).mp rfl
  rw [hgroup, hname]
  exact hsides

theorem Scopes.eq (h : s.Scopes c e v x) (h' : s.Scopes c e' v y) :
    x.group = y.group ∧ x.name = y.name := by
  have htext := (ModuleKey.parse?_eq_some_iff.mp h'.key).2
  exact (h'.sides.ofParts_eq_iff htext).mp (Option.some.inj (h.key.symm.trans h'.key))

/-- A text is read as a key exactly if it has one colon with text on both
sides, and the key has no other two parts. So of all modules that take their
scope from one declared dependency, in whatever configuration, group and name
are the same. -/
theorem declared_identifies :
    (∀ v, (∃ key, parse? v = some key) ↔ ∃ group artifact, Sides v group artifact) ∧
    (∀ v key, parse? v = some key → key.text = v ∧
      ∀ group artifact, Sides v group artifact →
        ∀ g a, ofParts g a = key ↔ g = group ∧ a = artifact) ∧
    ∀ s name c, (configuration s name).value = some c →
      (∀ x scope, c.scope? x.key = some scope ↔ ∃ e v fallback, s.Scopes c e v x ∧
        Scope.ofConfiguration? name = some fallback ∧
        Scope.ofConfiguration e.name fallback = scope) ∧
      ∀ e e' v x y, s.Scopes c e v x → s.Scopes c e' v y →
        x.group = y.group ∧ x.name = y.name := by
  refine ⟨fun v => ?_, fun v key h => ?_, fun s name c hc => ⟨fun x scope => ?_, ?_⟩⟩
  · rw [← ModuleKey.isKey_iff_exists_sides, ← ModuleKey.isSome_parse?_iff,
      Option.isSome_iff_exists]
  · have htext := (ModuleKey.parse?_eq_some_iff.mp h).2
    exact ⟨htext, fun group artifact hsides g a => hsides.ofParts_eq_iff htext⟩
  · exact scope?_eq_some_iff_scopes hc
  · intro e e' v x y h h'
    exact h.eq h'

/-- Both versions of `api` take their scope from the same dependency, and no
module of another group or name does. -/
theorem diamond_identifies : ∃ c, (diamond.configuration "runtimeClasspath").value = some c ∧
    (∃ e, diamond.Scopes c e "org.acme:api" ⟨"org.acme", "api", "2"⟩) ∧
    ∀ e y, diamond.Scopes c e "org.acme:api" y → y.group = "org.acme" ∧ y.name = "api" := by
  have hname : "runtimeClasspath" ∈ diamond.document.configurationNames := by decide
  obtain ⟨_, hidentifies⟩ := declared_identifies
  have hc : (diamond.configuration "runtimeClasspath").value = some
      { name := "runtimeClasspath"
        hierarchy := (diamond.hierarchy "runtimeClasspath").value
        graph := diamond.graph ["org.acme:api:1"] } := rfl
  obtain ⟨hscopes, hsame⟩ := hidentifies.2 _ _ _ hc
  have hmem : ⟨"runtimeOnly", [.ofParts "org.acme" "api"]⟩ ∈
      (diamond.hierarchy "runtimeClasspath").value :=
    mem_hierarchy.mpr ⟨(mem_hierarchyNames_iff hname).mpr (.single (by decide)), rfl⟩
  obtain ⟨d, hlast⟩ := exists_lastDeclares ⟨_, hmem, .head _⟩
  obtain ⟨e, v, _, h, _⟩ := (hscopes ⟨"org.acme", "api", "2"⟩ _).mp <|
    Configuration.scope?_eq_some_iff.mpr ⟨.runtime, rfl, d, hlast, rfl⟩
  obtain rfl : "org.acme:api" = v := (ModuleKey.parse?_eq_some_iff.mp h.key).2
  exact ⟨_, hc, ⟨e, h⟩, fun e' y hy => hsame _ _ _ _ _ hy h⟩

end ServerFractions.Snapshot
