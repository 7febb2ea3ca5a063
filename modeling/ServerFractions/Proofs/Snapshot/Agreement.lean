import ServerFractions.ProjectResolution
import ServerFractions.Proofs.Snapshot.Hierarchy

/-!
# Unrelated parts of a snapshot do not interfere

Two snapshots that agree on what can be reached from a configuration give it
the same hierarchy, the same graph and the same result
(`resolution_eq_of_agrees`), whatever else they hold and in whatever order
they list it. Reports about the rest of the build, such as which entries are
projects, are not part of this.
-/

namespace ServerFractions

theorem Logged.bind_congr {α β : Type} {x : Logged α} {f g : α → Logged β}
    (h : f x.value = g x.value) : x >>= f = x >>= g := by
  change Logged.bind x f = Logged.bind x g
  rw [Logged.bind, Logged.bind, h]

namespace Snapshot

variable {s s' : Snapshot} {name : String}

-- ---------------------------------------------------------------------------
-- Hierarchies
-- ---------------------------------------------------------------------------

theorem climb_congr {parents parents' : String → List String}
    {free free' order pending : List String} {through : String}
    (h : AgreeFrom parents parents' free free' pending) :
    climb parents' free' order through pending = climb parents free order through pending := by
  fun_induction climb parents free order through pending generalizing free' with
  | case1 => rw [climb]
  | case2 free order through p rest hp ihAbove ihRest =>
    rw [climb, if_pos (h.head_mem_iff.mpr hp), h.head_next_eq, ihAbove (h.head.erase p)]
    congr 1
    funext order
    exact ihRest order h.tail
  | case3 free order through p rest hp ih =>
    rw [climb, if_neg (mt h.head_mem_iff.mp hp), ih h.tail]

/-- The two snapshots hold the same of all that a configuration leads to: the
configurations above it, and the modules below its first level. -/
structure Agrees (s s' : Snapshot) (name : String) : Prop where
  firstLevel : ∃ e e', s.configuration? name = some e ∧ s'.configuration? name = some e' ∧
    e'.firstLevel = e.firstLevel
  above : ∀ x, Reaches s.parents name x → ∀ e, s.configuration? x = some e →
    ∃ e', s'.configuration? x = some e' ∧ e'.extendsFrom = e.extendsFrom ∧
      e'.dependencies = e.dependencies
  below : ∀ e, s.configuration? name = some e → ∀ x, ReachedFrom s.children e.firstLevel x →
    ∀ m, s.module? x = some m → s'.module? x = some m

theorem Agrees.mem_configurationNames (h : s.Agrees s' name) :
    name ∈ s.document.configurationNames := by
  obtain ⟨e, _, he, _⟩ := h.firstLevel
  exact exists_configuration?_iff.mp ⟨e, he⟩

theorem Agrees.exists_configurations (h : s.Agrees s' name) {x : String}
    (hx : Reaches s.parents name x) : ∃ e e', s.configuration? x = some e ∧
      s'.configuration? x = some e' ∧ e'.extendsFrom = e.extendsFrom ∧
      e'.dependencies = e.dependencies := by
  obtain ⟨e, he⟩ := exists_configuration?_iff.mpr
    (mem_configurationNames_of_reaches h.mem_configurationNames hx)
  obtain ⟨e', he', hboth⟩ := h.above x hx e he
  exact ⟨e, e', he, he', hboth⟩

theorem Agrees.agreeFrom_parents (h : s.Agrees s' name) : AgreeFrom s.parents s'.parents
    s.document.configurationNames s'.document.configurationNames [name] where
  nodup := s.closed.configurations_distinct
  nodup' := s'.closed.configurations_distinct
  next_eq x hx := by
    obtain ⟨e, e', he, he', hextends, _⟩ := h.exists_configurations (reachedFrom_singleton.mp hx)
    rw [parents_of_configuration? he, parents_of_configuration? he', hextends]
  mem_iff x hx := by
    obtain ⟨e, e', he, he', _⟩ := h.exists_configurations (reachedFrom_singleton.mp hx)
    exact iff_of_true (exists_configuration?_iff.mp ⟨e', he'⟩)
      (exists_configuration?_iff.mp ⟨e, he⟩)

theorem Agrees.hierarchyNames_eq (h : s.Agrees s' name) :
    s'.hierarchyNames name = s.hierarchyNames name := by
  rw [hierarchyNames, hierarchyNames, h.agreeFrom_parents.head_next_eq]
  exact climb_congr (h.agreeFrom_parents.head.erase name)

theorem Agrees.declared?_eq (h : s.Agrees s' name) {x : String} (hx : Reaches s.parents name x) :
    s'.declared? x = s.declared? x := by
  obtain ⟨e, e', he, he', _, hdependencies⟩ := h.exists_configurations hx
  have hname : e'.name = e.name :=
    (name_of_configuration? he').trans (name_of_configuration? he).symm
  simp [declared?, he, he', ConfigurationEntry.declared, hname, hdependencies]

theorem Agrees.hierarchy_eq (h : s.Agrees s' name) : s'.hierarchy name = s.hierarchy name := by
  rw [hierarchy_eq_bind, hierarchy_eq_bind, h.hierarchyNames_eq]
  refine Logged.bind_congr (congrArg pure ?_)
  exact List.filterMap_congr fun x hx => h.declared?_eq (reaches_of_mem_hierarchyNames hx)

-- ---------------------------------------------------------------------------
-- Graphs
-- ---------------------------------------------------------------------------

section

variable {firstLevel : List String} {b : Graph.Builder} {m : ModuleEntry}

/-- The two snapshots find the same modules below the first level. -/
def AgreesBelow (s s' : Snapshot) (firstLevel : List String) : Prop :=
  ∀ x, ReachedFrom s.children firstLevel x → s'.module? x = s.module? x

theorem AgreesBelow.children_eq (h : s.AgreesBelow s' firstLevel) {x : String}
    (hx : ReachedFrom s.children firstLevel x) : s'.children x = s.children x := by
  rw [children, children, h x hx]

theorem AgreesBelow.agreeFrom_children (h : s.AgreesBelow s' firstLevel) :
    AgreeFrom s.children s'.children s.document.gavs s'.document.gavs firstLevel where
  nodup := s.closed.modules_distinct
  nodup' := s'.closed.modules_distinct
  next_eq _ hx := h.children_eq hx
  mem_iff x hx := by rw [← exists_module?_iff, ← exists_module?_iff, h x hx]

theorem reachedFrom_of_mem_preorder {x : String}
    (h : x ∈ preorder s.children s.document.gavs firstLevel) :
    ReachedFrom s.children firstLevel x := by
  obtain ⟨_, p, hp, hvia⟩ := mem_preorder.mp h
  exact ⟨p, hp, hvia.reaches⟩

theorem AgreesBelow.reached_eq (h : s.AgreesBelow s' firstLevel) :
    s'.reached firstLevel = s.reached firstLevel := by
  rw [reached, reached, preorder_congr h.agreeFrom_children]
  exact List.filterMap_congr fun x hx => h x (reachedFrom_of_mem_preorder hx)

theorem AgreesBelow.node?_eq (h : s.AgreesBelow s' firstLevel) {x : String}
    (hx : ReachedFrom s.children firstLevel x) : s'.node? b x = s.node? b x := by
  rw [node?, node?, h x hx]

theorem AgreesBelow.withEdges_eq (h : s.AgreesBelow s' firstLevel) (hm : m ∈ s.reached firstLevel) :
    s'.withEdges b m = s.withEdges b m := by
  obtain ⟨x, hx, hmx⟩ := List.mem_filterMap.mp hm
  have hnodes : m.children.filterMap (s'.node? b) = m.children.filterMap (s.node? b) := by
    refine List.filterMap_congr fun y hy => h.node?_eq ?_
    obtain ⟨p, hp, hpx⟩ := reachedFrom_of_mem_preorder hx
    exact ⟨p, hp, hpx.tail (children_of_module? hmx ▸ hy)⟩
  rw [withEdges, withEdges, hnodes]

theorem AgreesBelow.graph_eq (h : s.AgreesBelow s' firstLevel) :
    s'.graph firstLevel = s.graph firstLevel := by
  have hedges : ∀ b, (s.reached firstLevel).foldl s'.withEdges b =
      (s.reached firstLevel).foldl s.withEdges b := fun b =>
    List.foldl_ext _ _ b fun _ _ hm => h.withEdges_eq hm
  have hroots : ∀ b, firstLevel.filterMap (s'.node? b) = firstLevel.filterMap (s.node? b) :=
    fun b => List.filterMap_congr fun x hx => h.node?_eq ⟨x, hx, reaches_refl⟩
  simp only [graph, h.reached_eq, hedges, hroots]

end

-- ---------------------------------------------------------------------------
-- Configurations and results
-- ---------------------------------------------------------------------------

theorem Agrees.agreesBelow (h : s.Agrees s' name) {e : ConfigurationEntry}
    (he : s.configuration? name = some e) : s.AgreesBelow s' e.firstLevel := by
  rintro x ⟨p, hp, hpx⟩
  obtain ⟨m, hm⟩ := exists_module?_iff.mpr
    (mem_gavs_of_reaches (mem_gavs_of_mem_firstLevel he hp) hpx)
  rw [hm, h.below e he x ⟨p, hp, hpx⟩ m hm]

theorem Agrees.configuration_eq (h : s.Agrees s' name) :
    s'.configuration name = s.configuration name := by
  obtain ⟨e, e', he, he', hfirst⟩ := h.firstLevel
  simp only [configuration, he, he', hfirst, h.hierarchy_eq, (h.agreesBelow he).graph_eq]

/-- The result of a resolution, or its failure, is that of the configuration;
an undeclared configuration has an empty one. -/
theorem result_resolveProject {fractions : List ModuleKey} {transitive : Bool} {cache : Cache} :
    (s.resolveProject (.ok fractions) name transitive cache).value.answer.map (·.result) =
      match (s.configuration name).value with
      | none => .ok .empty
      | some c => (c.resolve fractions transitive).value.mapError .fault := by
  simp only [resolveProject, Logged.value_bind]
  cases (s.configuration name).value with
  | none => rfl
  | some c =>
    simp only [Logged.value_bind]
    cases (c.resolve fractions transitive).value <;> rfl

/-- The same hierarchy, the same graph and the same result or failure, for
every catalog and in both modes. -/
theorem resolution_eq_of_agrees (h : s.Agrees s' name) :
    (∃ c, (s.configuration name).value = some c) ∧
    s'.configuration name = s.configuration name ∧
    ∀ catalog transitive cache cache',
      (s'.resolveProject catalog name transitive cache').value.answer.map (·.result) =
        (s.resolveProject catalog name transitive cache).value.answer.map (·.result) := by
  refine ⟨?_, h.configuration_eq, fun catalog transitive cache cache' => ?_⟩
  · obtain ⟨e, _, he, _⟩ := h.firstLevel
    simp [configuration, he]
  · cases catalog with
    | error failure => rfl
    | ok fractions => rw [result_resolveProject, result_resolveProject, h.configuration_eq]

/-- All of `diamond` in another order, with a configuration and modules that
the others do not lead to. -/
def crowded : Snapshot where
  document := {
    rootProject := "crowd"
    modules := [
      { coordinates := ⟨"org.acme", "tool", "2"⟩, artifacts := [{}],
        children := ["org.acme:json:1"] },
      { coordinates := ⟨"org.acme", "json", "1"⟩, artifacts := [{}] },
      { coordinates := ⟨"org.acme", "api", "1"⟩, artifacts := [{}],
        children := ["org.acme:json:1"] }]
    configurations := [
      { name := "runtimeClasspath", extendsFrom := ["implementation", "runtimeOnly"],
        firstLevel := ["org.acme:api:1"] },
      { name := "testImplementation", extendsFrom := ["implementation", "testImplementation"],
        dependencies := ["org.acme:api"], firstLevel := ["org.acme:tool:2"] },
      { name := "implementation", extendsFrom := ["compileOnly"] },
      { name := "compileOnly", dependencies := ["org.acme:api"] },
      { name := "runtimeOnly", extendsFrom := ["compileOnly"], dependencies := ["org.acme:api"] }] }
  closed := Document.firstFault?_eq_none_iff.mp (by decide)

theorem diamond_agrees_crowded : diamond.Agrees crowded "runtimeClasspath" where
  firstLevel := ⟨_, _, rfl, rfl, rfl⟩
  above x _ e he := by
    have hmem := mem_of_configuration? he
    obtain rfl := name_of_configuration? he
    simp only [diamond, List.mem_cons, List.not_mem_nil, or_false] at hmem
    rcases hmem with rfl | rfl | rfl | rfl
    all_goals exact ⟨_, rfl, rfl, rfl⟩
  below e _ x _ m hm := by
    have hmem := mem_of_module? hm
    obtain rfl := gav_of_module? hm
    simp only [diamond, List.mem_cons, List.not_mem_nil, or_false] at hmem
    rcases hmem with rfl | rfl
    all_goals rfl

theorem crowded_configuration_eq : crowded.document ≠ diamond.document ∧
    (∃ c, (diamond.configuration "runtimeClasspath").value = some c) ∧
    crowded.configuration "runtimeClasspath" = diamond.configuration "runtimeClasspath" := by
  obtain ⟨hexists, hsame, _⟩ := resolution_eq_of_agrees diamond_agrees_crowded
  exact ⟨by decide, hexists, hsame⟩

end Snapshot

end ServerFractions
