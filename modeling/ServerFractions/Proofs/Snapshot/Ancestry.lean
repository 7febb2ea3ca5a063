import ServerFractions.Proofs.Coordinates
import ServerFractions.Proofs.Snapshot.Hierarchy

/-!
# The whole ancestry, once

Whatever configurations extend, themselves and each other in circles included,
the hierarchy of a configuration starts with it and lists all that it extends,
each configuration once and as it is declared (`hierarchy_whole`).

What has been listed already is followed again, so nothing but the path keeps
the climb from going on for ever. `Climbs` is this traversal without a measure,
and `climbs_iff` says that it always ends, and where.
-/

namespace ServerFractions.Snapshot

section

variable {parents : String → List String} {free path order final pending : List String}
  {through a p x : String}

-- ---------------------------------------------------------------------------
-- Guarded by the path alone
-- ---------------------------------------------------------------------------

/-- Following the configurations `pending` ends, with `final` as the order.
Nothing is followed that stands on the path. -/
inductive Climbs (parents : String → List String) :
    (path order pending final : List String) → Prop
  | done {path order : List String} : Climbs parents path order [] order
  | follow {path order above final rest : List String} {p : String} (hp : p ∉ path)
    (habove : Climbs parents (p :: path) (moveToEnd p order) (parents p) above)
    (hrest : Climbs parents path above rest final) : Climbs parents path order (p :: rest) final
  | cut {path order final rest : List String} {p : String} (hp : p ∈ path)
    (hrest : Climbs parents path order rest final) : Climbs parents path order (p :: rest) final

theorem Climbs.unique {final' : List String} (h : Climbs parents path order pending final)
    (h' : Climbs parents path order pending final') : final' = final := by
  induction h generalizing final' with
  | done =>
    cases h'
    rfl
  | follow hp _ _ ihAbove ihRest =>
    cases h' with
    | follow _ habove' hrest' =>
      cases ihAbove habove'
      exact ihRest hrest'
    | cut hp' _ => exact absurd hp' hp
  | cut hp _ ih =>
    cases h' with
    | follow hp' _ _ => exact absurd hp hp'
    | cut _ hrest' => exact ih hrest'

/-- Where exactly the free configurations are off the path, both ways to guard
the climb are the same. -/
theorem climbs_climb (hnodup : free.Nodup)
    (hfree : ∀ x, ReachedFrom parents pending x → (x ∈ free ↔ x ∉ path)) :
    Climbs parents path order pending (climb parents free order through pending).value := by
  fun_induction climb parents free order through pending generalizing path with
  | case1 => exact .done
  | case2 free order through p rest hp ihAbove ihRest =>
    have hhead : ReachedFrom parents (p :: rest) p := reachedFrom_cons.mpr (.inl reaches_refl)
    refine .follow ((hfree p hhead).mp hp) (ihAbove (hnodup.erase p) fun x hx => ?_)
      (ihRest _ hnodup fun x hx => hfree x (reachedFrom_cons.mpr (.inr hx)))
    have hx := hfree x (reachedFrom_cons.mpr (.inl (reaches_iff.mpr (.inr hx))))
    rw [hnodup.mem_erase_iff, List.mem_cons, not_or, hx]
  | case3 free order through p rest hp ih =>
    have hhead : ReachedFrom parents (p :: rest) p := reachedFrom_cons.mpr (.inl reaches_refl)
    have hpath : p ∈ path := Classical.not_not.mp (mt (hfree p hhead).mpr hp)
    exact .cut hpath (ih hnodup fun x hx => hfree x (reachedFrom_cons.mpr (.inr hx)))

-- ---------------------------------------------------------------------------
-- What a climb lists
-- ---------------------------------------------------------------------------

theorem head?_moveToEnd (h : order.head? = some a) (hap : a ≠ p) :
    (moveToEnd p order).head? = some a := by
  obtain ⟨rest, rfl⟩ := List.head?_eq_some_iff.mp h
  simp [moveToEnd, hap]

/-- What is not free never moves. -/
theorem head?_climb (h : order.head? = some a) (ha : a ∉ free) :
    (climb parents free order through pending).value.head? = some a := by
  fun_induction climb parents free order through pending with
  | case1 => exact h
  | case2 free order through p rest hp ihAbove ihRest =>
    have hap : a ≠ p := fun heq => ha (heq ▸ hp)
    exact ihRest _ (ihAbove (head?_moveToEnd h hap) (mt List.mem_of_mem_erase ha)) ha
  | case3 free order through p rest _ ih => exact ih h ha

/-- A way along free configurations is followed to its end. -/
theorem mem_climb_of_via (hp : p ∈ pending) (hvia : ReachesVia parents (· ∈ free) p x)
    (hx : x ∈ free) : x ∈ (climb parents free order through pending).value := by
  fun_induction climb parents free order through pending generalizing p with
  | case1 => cases hp
  | case2 free order through q rest hq ihAbove ihRest =>
    rcases List.mem_cons.mp hp with rfl | hp
    · by_cases hxp : x = p
      · exact mem_climb_of_mem (mem_climb_of_mem (mem_moveToEnd.mpr (.inr hxp)))
      · -- What comes after the last visit of `p` on the way is met while `p` is on the path.
        have hfree : ∀ y, y ∈ free ∧ y ≠ p → y ∈ free.erase p :=
          fun y h => (List.mem_erase_of_ne h.2).mpr h.1
        rcases hvia.avoids_or_leaves hxp with ⟨hself, _⟩ | ⟨c, hc, hvia⟩
        · exact absurd rfl hself
        · exact mem_climb_of_mem (ihAbove hc (hvia.mono hfree) (hfree x ⟨hx, hxp⟩))
    · exact ihRest _ hp hvia hx
  | case3 free order through q rest hq ih =>
    rcases List.mem_cons.mp hp with rfl | hp
    · exact absurd (hvia.eq_of_not hq ▸ hx) hq
    · exact ih hp hvia hx

end

-- ---------------------------------------------------------------------------
-- The hierarchy of a configuration
-- ---------------------------------------------------------------------------

variable {s : Snapshot} {name x : String} {d : DeclaredConfiguration} {e : ConfigurationEntry}

theorem climbs_iff {names : List String} (hname : name ∈ s.document.configurationNames) :
    Climbs s.parents [name] [name] (s.parents name) names ↔
      names = (s.hierarchyNames name).value := by
  have hdistinct := s.closed.configurations_distinct
  have hclimbs : Climbs s.parents [name] [name] (s.parents name) (s.hierarchyNames name).value := by
    refine climbs_climb (hdistinct.erase name) fun x hx => ?_
    have hmem := mem_configurationNames_of_reaches hname (reaches_iff.mpr (.inr hx))
    simp [hdistinct.mem_erase_iff, hmem]
  exact ⟨hclimbs.unique, fun h => h ▸ hclimbs⟩

theorem head?_hierarchyNames : (s.hierarchyNames name).value.head? = some name :=
  head?_climb rfl s.closed.configurations_distinct.not_mem_erase

theorem value_hierarchyNames (hname : name ∈ s.document.configurationNames) :
    (s.hierarchyNames name).value =
      (climb s.parents s.document.configurationNames [] name [name]).value := by
  rw [climb, if_pos hname, Logged.value_bind, climb]
  rfl

theorem mem_hierarchyNames_iff (hname : name ∈ s.document.configurationNames) :
    x ∈ (s.hierarchyNames name).value ↔ Reaches s.parents name x := by
  refine ⟨reaches_of_mem_hierarchyNames, fun hreach => ?_⟩
  have hknown : ∀ y, Reaches s.parents name y → y ∈ s.document.configurationNames :=
    fun _ hy => mem_configurationNames_of_reaches hname hy
  rw [value_hierarchyNames hname]
  rcases hreach.cut (· ∈ s.document.configurationNames) with ⟨hvia, hx⟩ | ⟨y, hvia, hy, _⟩
  · exact mem_climb_of_via (List.mem_singleton_self name) hvia hx
  · exact absurd (hknown y hvia.reaches) hy

theorem map_text_declared (h : e ∈ s.document.configurations) :
    e.declared.dependencies.map (·.text) = e.dependencies := by
  have hkeys := (s.closed.configurations_closed e h).keys
  rw [ConfigurationEntry.declared, List.map_filterMap]
  refine Eq.trans (List.filterMap_congr (g := some) fun k hk => ?_) List.filterMap_some
  obtain ⟨key, hkey⟩ := Option.isSome_iff_exists.mp (hkeys k hk)
  simp [hkey, (ModuleKey.parse?_eq_some_iff.mp hkey).2]

/-- The configuration `name` and all that it extends. -/
structure Whole (s : Snapshot) (name : String) (hierarchy : List DeclaredConfiguration) :
    Prop where
  ends : ∀ names, Climbs s.parents [name] [name] (s.parents name) names ↔
    names = hierarchy.map (·.name)
  head : (hierarchy.map (·.name)).head? = some name
  nodup : (hierarchy.map (·.name)).Nodup
  mem_iff : ∀ x, x ∈ hierarchy.map (·.name) ↔ Reaches s.parents name x
  declared : ∀ d ∈ hierarchy, ∃ e ∈ s.document.configurations, e.name = d.name ∧
    d.dependencies.map (·.text) = e.dependencies

/-- The hierarchy of a configuration is whole, whatever extends what. -/
theorem hierarchy_whole (hname : name ∈ s.document.configurationNames) :
    ∃ c, (s.configuration name).value = some c ∧ c.name = name ∧ s.Whole name c.hierarchy := by
  obtain ⟨e, he⟩ := exists_configuration?_iff.mpr hname
  refine ⟨_, by simp only [configuration, he]; rfl, rfl, ?_, ?_, ?_, ?_, ?_⟩
  · intro names
    rw [map_name_hierarchy hname]
    exact climbs_iff hname
  · rw [map_name_hierarchy hname]
    exact head?_hierarchyNames
  · rw [map_name_hierarchy hname]
    exact nodup_hierarchyNames
  · intro x
    rw [map_name_hierarchy hname]
    exact mem_hierarchyNames_iff hname
  · intro d hd
    obtain ⟨_, hdeclared⟩ := mem_hierarchy.mp hd
    obtain ⟨e, he, rfl⟩ := Option.map_eq_some_iff.mp hdeclared
    exact ⟨e, mem_of_configuration? he, rfl, map_text_declared (mem_of_configuration? he)⟩

/-- A circle through `api`, a configuration that extends itself, a shared one
that is named twice, and one that nothing extends. -/
def knotted : Snapshot where
  document := {
    rootProject := "demo"
    configurations := [
      { name := "compileOnly", extendsFrom := ["compileOnly"], dependencies := ["org.acme:api"] },
      { name := "api", extendsFrom := ["compileOnly", "runtimeClasspath", "compileOnly"] },
      { name := "testImplementation", extendsFrom := ["api"] },
      { name := "runtimeClasspath", extendsFrom := ["compileOnly", "api"],
        dependencies := ["org.acme:tool", "org.acme:api"] }] }
  closed := Document.firstFault?_eq_none_iff.mp (by decide)

/-- From inside the circle all of it is listed, and once. -/
theorem knotted_whole : ∃ c, (knotted.configuration "runtimeClasspath").value = some c ∧
    (c.hierarchy.map (·.name)).head? = some "runtimeClasspath" ∧
    (c.hierarchy.map (·.name)).Nodup ∧ "compileOnly" ∈ c.hierarchy.map (·.name) ∧
    ∃ names, Climbs knotted.parents ["runtimeClasspath"] ["runtimeClasspath"]
      (knotted.parents "runtimeClasspath") names := by
  have hname : "runtimeClasspath" ∈ knotted.document.configurationNames := by decide
  obtain ⟨c, hc, _, hwhole⟩ := hierarchy_whole hname
  exact ⟨c, hc, hwhole.head, hwhole.nodup, (hwhole.mem_iff _).mpr (.single (by decide)), _,
    (hwhole.ends _).mpr rfl⟩

end ServerFractions.Snapshot
