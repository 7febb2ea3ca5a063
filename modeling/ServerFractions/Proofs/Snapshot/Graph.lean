import ServerFractions.Proofs.Graph.Insertion
import ServerFractions.Proofs.Snapshot.Lookup

/-!
# Graphs of configurations are faithful

The graph of a configuration holds what its first level leads to and nothing
else, with all edges (`graph_faithful`). `graph_eq` says where everything
stands: the modules in the order of their discovery, and each gav at its place
in that order. `Wired` is kept while the edges are added, module by module, and
shows on the way that nothing is looked up in vain.
-/

namespace ServerFractions

/-- The gav of the module at a node. -/
def Graph.gav? (g : Graph) (n : Node) : Option String :=
  (g.module? n).map (·.coordinates.gav)

namespace Snapshot

open ServerFractions.Graph (Builder)

variable {s : Snapshot} {roots : List String} {e m : ModuleEntry} {b : Builder}
  {before after done : List ModuleEntry} {x name : String} {i : Nat}

-- ---------------------------------------------------------------------------
-- Discovery
-- ---------------------------------------------------------------------------

/-- The gavs that the first level leads to, in the order of their discovery. -/
def discovered (s : Snapshot) (roots : List String) : List String :=
  preorder s.children s.document.gavs roots

theorem nodup_discovered : (s.discovered roots).Nodup :=
  nodup_preorder s.closed.modules_distinct

theorem exists_module?_of_discovered (h : x ∈ s.discovered roots) :
    ∃ e, s.module? x = some e :=
  exists_module?_iff.mpr (mem_preorder.mp h).1

theorem map_gav_reached : (s.reached roots).map (·.gav) = s.discovered roots := by
  rw [reached, List.map_filterMap]
  refine Eq.trans (List.filterMap_congr (g := some) fun x hx => ?_) List.filterMap_some
  obtain ⟨e, he⟩ := exists_module?_of_discovered hx
  simp [he, gav_of_module? he]

theorem module?_of_mem_reached (h : e ∈ s.reached roots) : s.module? e.gav = some e := by
  obtain ⟨x, _, he⟩ := List.mem_filterMap.mp h
  exact gav_of_module? he ▸ he

theorem getElem?_discovered :
    (s.discovered roots)[i]? = ((s.reached roots)[i]?).map (·.gav) := by
  rw [← map_gav_reached, List.getElem?_map]

theorem nodup_reached : (s.reached roots).Nodup :=
  List.Nodup.of_map (·.gav) (map_gav_reached ▸ nodup_discovered)

theorem nodup_coordinates_reached : ((s.reached roots).map (·.coordinates)).Nodup := by
  refine List.Nodup.of_map Coordinates.gav ?_
  rw [List.map_map]
  exact map_gav_reached (s := s) ▸ nodup_discovered

theorem exists_getElem?_reached (h : x ∈ s.discovered roots) :
    ∃ e, (s.reached roots)[(s.discovered roots).idxOf x]? = some e ∧
      s.module? x = some e := by
  have hat : (s.discovered roots)[(s.discovered roots).idxOf x]? = some x := List.getElem?_idxOf h
  rw [getElem?_discovered] at hat
  obtain ⟨e, he, hgav⟩ := Option.map_eq_some_iff.mp hat
  exact ⟨e, he, hgav ▸ module?_of_mem_reached (List.mem_of_getElem? he)⟩

section

variable (hroots : ∀ x ∈ roots, x ∈ s.document.gavs)
include hroots

theorem mem_discovered : x ∈ s.discovered roots ↔ ReachedFrom s.children roots x :=
  mem_preorder_iff_reaches (fun _ _ => mem_gavs_of_mem_children) hroots

theorem mem_discovered_of_mem_children (he : e ∈ s.reached roots) (hx : x ∈ e.children) :
    x ∈ s.discovered roots := by
  have hgav : e.gav ∈ s.discovered roots := map_gav_reached ▸ List.mem_map_of_mem he
  obtain ⟨p, hp, hreach⟩ := (mem_discovered hroots).mp hgav
  refine (mem_discovered hroots).mpr ⟨p, hp, hreach.tail ?_⟩
  rwa [children_of_module? (module?_of_mem_reached he)]

end

-- ---------------------------------------------------------------------------
-- Modules
-- ---------------------------------------------------------------------------

/-- The nodes of the children, where the gavs stand as in `gavs`. -/
def ModuleEntry.nodes (gavs : List String) (e : ModuleEntry) : List Node :=
  (e.children.map gavs.idxOf).eraseDups

def ModuleEntry.toModule (e : ModuleEntry) (children : List Node) : Module :=
  { coordinates := e.coordinates, artifacts := e.artifacts, children }

theorem withModules_concat : withModules (before ++ [e]) =
    ((withModules before).addModule e.coordinates e.artifacts).2 := by
  simp [withModules]

theorem consistent_withModules : (withModules before).Consistent := by
  induction before using List.reverseRecOn with
  | nil => exact .empty
  | append_singleton before e ih =>
    rw [withModules_concat]
    exact ih.addModule e.coordinates e.artifacts

theorem firstLevel_withModules : (withModules before).firstLevel = [] := by
  induction before using List.reverseRecOn with
  | nil => rfl
  | append_singleton before e ih =>
    rw [withModules_concat, Builder.addModule]
    split <;> exact ih

theorem modules_withModules (h : (before.map (·.coordinates)).Nodup) :
    (withModules before).modules.toList = before.map (·.toModule []) := by
  induction before using List.reverseRecOn with
  | nil => rfl
  | append_singleton before e ih =>
    rw [List.map_append, List.map_singleton] at h
    have hold := ih h.of_append_left
    have hnew : (withModules before).node? e.coordinates = none := by
      refine consistent_withModules.node?_eq_none fun m hm hc => ?_
      rw [← Array.mem_toList_iff, hold] at hm
      obtain ⟨e', he', rfl⟩ := List.mem_map.mp hm
      exact List.disjoint_of_nodup_append h (List.mem_map_of_mem he') (List.mem_singleton.mpr hc)
    rw [withModules_concat, Builder.addModule, hnew]
    simp [hold, ModuleEntry.toModule]

-- ---------------------------------------------------------------------------
-- Edges
-- ---------------------------------------------------------------------------

/-- All modules stand at their places, those in `done` with their edges. -/
structure Wired (s : Snapshot) (roots : List String) (done : List ModuleEntry)
    (b : Builder) : Prop where
  consistent : b.Consistent
  firstLevel : b.firstLevel = []
  modules : b.modules.toList = (s.reached roots).map fun e =>
    e.toModule (if e ∈ done then e.nodes (s.discovered roots) else [])

theorem Wired.withModules : s.Wired roots [] (withModules (s.reached roots)) where
  consistent := consistent_withModules
  firstLevel := firstLevel_withModules
  modules := by simpa using modules_withModules nodup_coordinates_reached

theorem Wired.exists_getElem? (h : s.Wired roots done b) (he : (s.reached roots)[i]? = some e) :
    ∃ m, b.modules[i]? = some m ∧ m.coordinates = e.coordinates := by
  rw [← Array.getElem?_toList, h.modules, List.getElem?_map, he]
  exact ⟨_, rfl, rfl⟩

theorem Wired.size_eq (h : s.Wired roots done b) :
    b.modules.size = (s.reached roots).length := by
  rw [← Array.length_toList, h.modules, List.length_map]

theorem Wired.node?_coordinates (h : s.Wired roots done b)
    (he : (s.reached roots)[i]? = some e) : b.node? e.coordinates = some i :=
  h.consistent.index_iff.mpr (h.exists_getElem? he)

theorem Wired.node?_eq (h : s.Wired roots done b) (hx : x ∈ s.discovered roots) :
    s.node? b x = some ((s.discovered roots).idxOf x) := by
  obtain ⟨e, hat, he⟩ := exists_getElem?_reached hx
  rw [Snapshot.node?, he]
  exact h.node?_coordinates hat

theorem Wired.filterMap_node? (h : s.Wired roots done b) {xs : List String}
    (hxs : ∀ x ∈ xs, x ∈ s.discovered roots) :
    xs.filterMap (s.node? b) = xs.map (s.discovered roots).idxOf := by
  rw [← List.filterMap_eq_map]
  exact List.filterMap_congr fun x hx => h.node?_eq (hxs x hx)

theorem Wired.idxOf_lt (h : s.Wired roots done b) (hx : x ∈ s.discovered roots) :
    (s.discovered roots).idxOf x < b.modules.size := by
  rw [h.size_eq, ← List.length_map (·.gav), map_gav_reached]
  exact List.idxOf_lt_length_of_mem hx

theorem Wired.withEdges (hroots : ∀ x ∈ roots, x ∈ s.document.gavs)
    (h : s.Wired roots done b) (hm : m ∈ s.reached roots) (hnew : m ∉ done) :
    s.Wired roots (done ++ [m]) (s.withEdges b m) := by
  obtain ⟨i, hi⟩ := List.mem_iff_getElem?.mp hm
  have hchildren : ∀ x ∈ m.children, x ∈ s.discovered roots :=
    fun x hx => mem_discovered_of_mem_children hroots hm hx
  have hparent := h.node?_coordinates hi
  simp only [Snapshot.withEdges, hparent, h.filterMap_node? hchildren]
  refine ⟨h.consistent.foldl_addChild ?_, ?_, ?_⟩
  · intro n hn
    obtain ⟨x, hx, rfl⟩ := List.mem_map.mp hn
    exact h.idxOf_lt (hchildren x hx)
  · rw [Builder.firstLevel_foldl_addChild, h.firstLevel]
  · rw [Builder.modules_foldl_addChild, Array.toList_modify, h.modules]
    refine List.ext_getElem? fun j => ?_
    rw [List.getElem?_modify, List.getElem?_map, List.getElem?_map]
    cases hj : (s.reached roots)[j]? with
    | none => rfl
    | some e =>
      by_cases hij : i = j
      · -- The place of `m`: it had no edges before.
        cases hi.symm.trans (hij ▸ hj)
        simp [hij, hnew, ModuleEntry.toModule, ModuleEntry.nodes, foldl_appendNew]
      · have hem : e ≠ m := by
          rintro rfl
          exact hij ((List.getElem?_inj (List.getElem?_eq_some_iff.mp hi).1 nodup_reached).mp
            (hi.trans hj.symm))
        simp [hij, hem]

theorem wired_foldl (hroots : ∀ x ∈ roots, x ∈ s.document.gavs)
    (h : s.reached roots = before ++ after) :
    s.Wired roots before (before.foldl s.withEdges (withModules (s.reached roots))) := by
  -- By induction on the modules that have their edges already.
  induction before using List.reverseRecOn generalizing after with
  | nil => exact .withModules
  | append_singleton before m ih =>
    rw [List.append_assoc, List.singleton_append] at h
    have hnodup : (before ++ m :: after).Nodup := h ▸ nodup_reached
    have hnew : m ∉ before := fun hm => List.disjoint_of_nodup_append hnodup hm (.head _)
    rw [List.foldl_append]
    exact (ih h).withEdges hroots (h ▸ List.mem_append_right _ (.head _)) hnew

-- ---------------------------------------------------------------------------
-- The whole graph
-- ---------------------------------------------------------------------------

theorem graph_eq_foldl (hroots : ∀ x ∈ roots, x ∈ s.document.gavs) : s.graph roots =
    ((roots.map (s.discovered roots).idxOf).foldl (·.addFirstLevel ·)
      ((s.reached roots).foldl s.withEdges (withModules (s.reached roots)))).build := by
  have hwired := wired_foldl hroots (List.append_nil (s.reached roots)).symm
  have hdiscovered : ∀ x ∈ roots, x ∈ s.discovered roots := fun x hx =>
    (mem_discovered hroots).mpr ⟨x, hx, reaches_refl⟩
  rw [← hwired.filterMap_node? hdiscovered]
  rfl

theorem wellFormed_graph (hroots : ∀ x ∈ roots, x ∈ s.document.gavs) :
    (s.graph roots).WellFormed := by
  have hwired := wired_foldl hroots (List.append_nil (s.reached roots)).symm
  rw [graph_eq_foldl hroots]
  refine (hwired.consistent.foldl_addFirstLevel fun n hn => ?_).wellFormed
  obtain ⟨x, hx, rfl⟩ := List.mem_map.mp hn
  exact hwired.idxOf_lt ((mem_discovered hroots).mpr ⟨x, hx, reaches_refl⟩)

theorem graph_eq (hroots : ∀ x ∈ roots, x ∈ s.document.gavs) : s.graph roots =
    { modules := ((s.reached roots).map fun e => e.toModule (e.nodes (s.discovered roots))).toArray
      firstLevel := (roots.map (s.discovered roots).idxOf).eraseDups } := by
  have hwired := wired_foldl hroots (List.append_nil (s.reached roots)).symm
  have hmodules := hwired.modules
  rw [List.map_congr_left fun e he => by rw [if_pos he]] at hmodules
  rw [graph_eq_foldl hroots, Builder.foldl_addFirstLevel, Builder.build, hwired.firstLevel,
    foldl_appendNew, ← hmodules, Array.toArray_toList]

theorem module?_graph (hroots : ∀ x ∈ roots, x ∈ s.document.gavs) :
    (s.graph roots).module? i =
      ((s.reached roots)[i]?).map fun e => e.toModule (e.nodes (s.discovered roots)) := by
  rw [graph_eq hroots, Graph.module?, List.getElem?_toArray, List.getElem?_map]

theorem gav?_graph (hroots : ∀ x ∈ roots, x ∈ s.document.gavs) :
    (s.graph roots).gav? i = (s.discovered roots)[i]? := by
  rw [Graph.gav?, module?_graph hroots, Option.map_map, getElem?_discovered]
  rfl

/-- The nodes of several gavs, read back. -/
theorem map_gav?_eraseDups (hroots : ∀ x ∈ roots, x ∈ s.document.gavs) {xs : List String}
    (hxs : ∀ x ∈ xs, x ∈ s.discovered roots) :
    ((xs.map (s.discovered roots).idxOf).eraseDups).map (s.graph roots).gav? =
      xs.eraseDups.map some := by
  have hat : ∀ x ∈ xs, (s.discovered roots)[(s.discovered roots).idxOf x]? = some x :=
    fun x hx => List.getElem?_idxOf (hxs x hx)
  have hinj : ∀ x ∈ xs, ∀ y ∈ xs,
      (s.discovered roots).idxOf x = (s.discovered roots).idxOf y → x = y := by
    intro x hx y hy hxy
    have hx := hat x hx
    rw [hxy, hat y hy] at hx
    exact (Option.some.inj hx).symm
  rw [eraseDups_map hinj, List.map_map]
  refine List.map_congr_left fun x hx => ?_
  rw [Function.comp, gav?_graph hroots]
  exact hat x (List.mem_eraseDups.mp hx)

/-- The graph holds what the first level leads to, each module once and as it
is declared. -/
structure Faithful (s : Snapshot) (roots : List String) (g : Graph) : Prop where
  wellFormed : g.WellFormed
  mem_iff : ∀ x, (∃ n, g.gav? n = some x) ↔ ReachedFrom s.children roots x
  once : ∀ n n' x, g.gav? n = some x → g.gav? n' = some x → n = n'
  module : ∀ n m, g.module? n = some m → ∃ e, s.module? m.coordinates.gav = some e ∧
    m.coordinates = e.coordinates ∧ m.artifacts = e.artifacts ∧
    m.children.map g.gav? = e.children.eraseDups.map some
  firstLevel : g.firstLevel.map g.gav? = roots.eraseDups.map some

theorem faithful_graph (hroots : ∀ x ∈ roots, x ∈ s.document.gavs) :
    s.Faithful roots (s.graph roots) where
  wellFormed := wellFormed_graph hroots
  mem_iff x := by
    simp only [gav?_graph hroots]
    rw [← mem_discovered hroots, List.mem_iff_getElem?]
  once n n' x hn hn' := by
    rw [gav?_graph hroots] at hn hn'
    exact (List.getElem?_inj (List.getElem?_eq_some_iff.mp hn).1 nodup_discovered).mp
      (hn.trans hn'.symm)
  module n m hm := by
    rw [module?_graph hroots] at hm
    obtain ⟨e, he, rfl⟩ := Option.map_eq_some_iff.mp hm
    have hmem := List.mem_of_getElem? he
    exact ⟨e, module?_of_mem_reached hmem, rfl, rfl,
      map_gav?_eraseDups hroots fun x hx => mem_discovered_of_mem_children hroots hmem hx⟩
  firstLevel := by
    have hlevel : (s.graph roots).firstLevel = (roots.map (s.discovered roots).idxOf).eraseDups := by
      rw [graph_eq hroots]
    rw [hlevel]
    exact map_gav?_eraseDups hroots fun x hx => (mem_discovered hroots).mpr ⟨x, hx, reaches_refl⟩

/-- Whatever is looked up while the graph is made is there: the modules that
discovery comes to, and at every point afterwards the nodes of the next module,
of its children and of the first level. -/
structure Unskipped (s : Snapshot) (roots : List String) : Prop where
  modules : ∀ x, ReachedFrom s.children roots x → ∃ e, s.module? x = some e
  nodes : ∀ before after, s.reached roots = before ++ after →
    let b := before.foldl s.withEdges (withModules (s.reached roots))
    (∀ m ∈ after, (∃ n, b.node? m.coordinates = some n) ∧
      ∀ x ∈ m.children, ∃ n, s.node? b x = some n) ∧
    ∀ x ∈ roots, ∃ n, s.node? b x = some n

theorem unskipped (hroots : ∀ x ∈ roots, x ∈ s.document.gavs) : s.Unskipped roots where
  modules x hx := exists_module?_of_discovered ((mem_discovered hroots).mpr hx)
  nodes before after h := by
    have hwired := wired_foldl hroots h
    refine ⟨fun m hm => ?_, fun x hx => ?_⟩
    · have hm : m ∈ s.reached roots := h ▸ List.mem_append_right _ hm
      obtain ⟨i, hi⟩ := List.mem_iff_getElem?.mp hm
      exact ⟨⟨i, hwired.node?_coordinates hi⟩, fun x hx =>
        ⟨_, hwired.node?_eq (mem_discovered_of_mem_children hroots hm hx)⟩⟩
    · exact ⟨_, hwired.node?_eq ((mem_discovered hroots).mpr ⟨x, hx, reaches_refl⟩)⟩

/-- The graph of a configuration is that of its first level, and nothing is
left out of it. -/
theorem graph_faithful {c : ConfigurationEntry} (h : s.configuration? name = some c) :
    ∃ configuration, (s.configuration name).value = some configuration ∧
      s.Faithful c.firstLevel configuration.graph ∧ s.Unskipped c.firstLevel := by
  have hroots : ∀ x ∈ c.firstLevel, x ∈ s.document.gavs :=
    fun x hx => mem_gavs_of_mem_firstLevel h hx
  exact ⟨_, by simp only [configuration, h]; rfl, faithful_graph hroots, unskipped hroots⟩

/-- A circle of two modules, one of which names a child twice and itself, a
module that nothing leads to, and a first level with a repetition. -/
def coiled : Snapshot where
  document := {
    rootProject := "demo"
    modules := [
      { coordinates := ⟨"org.acme", "tool", "2"⟩, children := ["org.acme:json:1"] },
      { coordinates := ⟨"org.acme", "json", "1"⟩, artifacts := [{}],
        children := ["org.acme:api:1", "org.acme:json:1", "org.acme:api:1"] },
      { coordinates := ⟨"org.acme", "api", "1"⟩, artifacts := [{}],
        children := ["org.acme:json:1"] }]
    configurations := [
      { name := "runtimeClasspath", firstLevel := ["org.acme:api:1", "org.acme:api:1"] }] }
  closed := Document.firstFault?_eq_none_iff.mp (by decide)

/-- `tool` stays out, and the first level names `api` once. -/
theorem coiled_faithful : ∃ c, (coiled.configuration "runtimeClasspath").value = some c ∧
    c.graph.firstLevel.map c.graph.gav? = [some "org.acme:api:1"] ∧
    (∃ n, c.graph.gav? n = some "org.acme:json:1") ∧
    ¬ ∃ n, c.graph.gav? n = some "org.acme:tool:2" := by
  have hentry : coiled.configuration? "runtimeClasspath" = some _ := rfl
  obtain ⟨c, hc, hfaithful, _⟩ := graph_faithful hentry
  refine ⟨c, hc, hfaithful.firstLevel, ?_, ?_⟩
  · exact (hfaithful.mem_iff _).mpr ⟨"org.acme:api:1", by decide, .single (by decide)⟩
  · rw [hfaithful.mem_iff]
    rintro ⟨p, hp, hreach⟩
    cases hreach with
    | refl => exact absurd hp (by decide)
    | @tail x _ _ hx =>
      have hnone : ∀ m ∈ coiled.document.modules, "org.acme:tool:2" ∉ m.children := by decide
      cases hm : coiled.module? x with
      | none => simp [children, hm] at hx
      | some m => exact hnone m (mem_of_module? hm) (children_of_module? hm ▸ hx)

end Snapshot

end ServerFractions
