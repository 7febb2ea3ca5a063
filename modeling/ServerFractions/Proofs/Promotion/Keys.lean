import ServerFractions.Proofs.Promotion.Direct
import ServerFractions.Proofs.Promotion.Entries

/-!
# Which entries there are

The keys of a finished resolution are the roots and the fractions that are met
from a root (`resolve_keys`). Nothing in this depends on the order of the first
level or of the children, so rearranging a configuration leaves the keys as
they are. A root has something to package; a fraction is not asked
(`resolve_packages`).
-/

namespace ServerFractions

-- ---------------------------------------------------------------------------
-- Rearranged graphs
-- ---------------------------------------------------------------------------

namespace Graph

variable {g g' : Graph} {n : Node} {m : Module}

/-- The same graph with its first level and all children in another order. -/
structure Rearranges (g g' : Graph) : Prop where
  size : g'.size = g.size
  firstLevel : g'.firstLevel.Perm g.firstLevel
  children : ∀ n, (g'.children n).Perm (g.children n)
  module : ∀ {n m}, g.module? n = some m → ∃ cs, g'.module? n = some { m with children := cs }

theorem Rearranges.symm (h : g.Rearranges g') : g'.Rearranges g where
  size := h.size.symm
  firstLevel := h.firstLevel.symm
  children n := (h.children n).symm
  module {n m'} hm' := by
    obtain ⟨m, hm⟩ := exists_module? (h.size ▸ lt_of_module? hm')
    obtain ⟨cs, hcs⟩ := h.module hm
    cases hm'.symm.trans hcs
    exact ⟨m.children, hm⟩

theorem Rearranges.wellFormed (h : g.Rearranges g') (hg : g.WellFormed) : g'.WellFormed where
  coordinates_inj {i j m m'} hi hj hc := by
    obtain ⟨_, hi'⟩ := h.symm.module hi
    obtain ⟨_, hj'⟩ := h.symm.module hj
    exact hg.coordinates_inj hi' hj' hc
  children {n m} hm := by
    obtain ⟨cs, hcs⟩ := h.symm.module hm
    have hnames := hg.children hcs
    have hperm := h.children n
    rw [children_of_module? hm, children_of_module? hcs] at hperm
    exact ⟨hperm.nodup_iff.mpr hnames.nodup,
      fun x hx => h.size ▸ hnames.lt x (hperm.mem_iff.mp hx)⟩
  firstLevel := ⟨h.firstLevel.nodup_iff.mpr hg.firstLevel.nodup,
    fun x hx => h.size ▸ hg.firstLevel.lt x (h.firstLevel.mem_iff.mp hx)⟩

end Graph

namespace Configuration

open Promotion

variable {c c' : Configuration} {fractions : List ModuleKey} {full : Prop} {n f : Node}
  {m mf : Module} {s : Scope} {d : Descriptor} {t t' : TopLevel} {transitive : Bool}

/-- The same configuration over a rearranged graph. -/
structure Rearranges (c c' : Configuration) : Prop where
  name : c'.name = c.name
  hierarchy : c'.hierarchy = c.hierarchy
  graph : c.graph.Rearranges c'.graph

theorem Rearranges.symm (h : c.Rearranges c') : c'.Rearranges c :=
  ⟨h.name.symm, h.hierarchy.symm, h.graph.symm⟩

theorem Rearranges.scope?_eq (h : c.Rearranges c') : c'.scope? = c.scope? := by
  funext key
  simp only [scope?, h.name, h.hierarchy]

theorem Rearranges.exists_ok (h : c.Rearranges c')
    (hok : ∃ t, (c.resolve fractions transitive).value = .ok t) :
    ∃ t, (c'.resolve fractions transitive).value = .ok t := by
  obtain ⟨hname, hfirst⟩ := exists_resolve_ok.mp hok
  refine exists_resolve_ok.mpr ⟨h.name ▸ hname, fun n hn m hm => ?_⟩
  obtain ⟨cs, hcs⟩ := h.graph.symm.module hm
  obtain ⟨s, hs⟩ := hfirst n (h.graph.firstLevel.mem_iff.mp hn) _ hcs
  exact ⟨s, h.scope?_eq ▸ hs⟩

theorem Rearranges.root (h : c.Rearranges c') (hroot : c.Root n m s) :
    ∃ cs, c'.Root n { m with children := cs } s := by
  obtain ⟨cs, hcs⟩ := h.graph.module hroot.module
  exact ⟨cs, h.graph.firstLevel.mem_iff.mpr hroot.firstLevel, hcs, h.scope?_eq ▸ hroot.scope,
    hroot.imported, hroot.artifacts⟩

theorem Rearranges.plain (h : c.Rearranges c') (hn : c.Plain fractions n) :
    c'.Plain fractions n := by
  obtain ⟨m, hm, hplain⟩ := hn
  obtain ⟨cs, hcs⟩ := h.graph.module hm
  exact ⟨_, hcs, hplain⟩

theorem Rearranges.meets (h : c.Rearranges c') (hmeets : c.Meets fractions n m s f mf) :
    ∃ cs cs', c'.Meets fractions n { m with children := cs } s f { mf with children := cs' } := by
  obtain ⟨cs, hroot⟩ := h.root hmeets.root
  obtain ⟨cs', hcs'⟩ := h.graph.module hmeets.module
  have hvia := (hmeets.via.mono fun _ => h.plain).mono_next
    fun x => (h.graph.children x).symm.subset
  exact ⟨cs, cs', hroot, hvia, hcs', hmeets.fraction⟩

-- ---------------------------------------------------------------------------
-- Keys
-- ---------------------------------------------------------------------------

/-- A root, or a fraction that is met from a root, as a descriptor. -/
inductive Top (c : Configuration) (fractions : List ModuleKey) : Descriptor → Prop
  | root {n : Node} {m : Module} {s : Scope} (h : c.Root n m s) : Top c fractions (m.descriptor s)
  | fraction {n f : Node} {m mf : Module} {s : Scope} (h : c.Meets fractions n m s f mf) :
    Top c fractions (mf.descriptor s)

theorem Rearranges.top (h : c.Rearranges c') (hd : c.Top fractions d) : c'.Top fractions d := by
  cases hd with
  | root hroot =>
    obtain ⟨_, hroot'⟩ := h.root hroot
    have htop : c'.Top fractions _ := .root hroot'
    exact htop
  | fraction hmeets =>
    obtain ⟨_, _, hmeets'⟩ := h.meets hmeets
    have htop : c'.Top fractions _ := .fraction hmeets'
    exact htop

theorem Settled.top_of_mem_keys (h : c.Settled fractions full c.graph.firstLevel t)
    (hd : d ∈ t.keys) : c.Top fractions d := by
  obtain ⟨e, he, rfl⟩ := TopLevel.mem_keys.mp hd
  cases h.origin e he with
  | nest _ hnest => exact hnest.key ▸ .root hnest.root
  | lift _ hmeets he' => exact he' ▸ .fraction hmeets

theorem Settled.mem_keys_iff (h : c.Settled fractions full c.graph.firstLevel t) (hfull : full) :
    d ∈ t.keys ↔ c.Top fractions d := by
  refine ⟨h.top_of_mem_keys, fun hd => ?_⟩
  cases hd with
  | root hroot => exact h.rooted hroot.firstLevel hroot
  | fraction hmeets => exact h.met hfull hmeets.root.firstLevel hmeets

/-- The first level the other way round. -/
def cyclicSwapped : Configuration :=
  { cyclic with graph := { cyclic.graph with firstLevel := [4, 0] } }

theorem cyclic_rearranges : cyclic.Rearranges cyclicSwapped where
  name := rfl
  hierarchy := rfl
  graph := ⟨rfl, .swap 0 4 [], fun _ => .refl _, fun {_ m} hm => ⟨m.children, hm⟩⟩

/-- The keys are the roots and the met fractions, in whatever order the first
level and the children stand. -/
theorem resolve_keys (hb : c.graph.Built) (hok : (c.resolve fractions true).value = .ok t) :
    (∀ d ∈ t.keys, c.Top fractions d) ∧
    (∀ n m s, c.Root n m s → m.descriptor s ∈ t.keys) ∧
    (c.WithinDepth fractions → ∀ n m s f mf, c.Meets fractions n m s f mf →
      mf.descriptor s ∈ t.keys) ∧
    ∀ c', c.Rearranges c' → ∃ t', (c'.resolve fractions true).value = .ok t' ∧
      (c.WithinDepth fractions → c'.WithinDepth fractions → ∀ d, d ∈ t'.keys ↔ d ∈ t.keys) := by
  have h := settled_of_resolve hb.wellFormed hok
  refine ⟨fun d => h.top_of_mem_keys, fun n m s hroot => h.rooted hroot.firstLevel hroot,
    fun hdepth n m s f mf hmeets => h.met hdepth hmeets.root.firstLevel hmeets, ?_⟩
  intro c' hc'
  obtain ⟨t', hok'⟩ := hc'.exists_ok ⟨t, hok⟩
  refine ⟨t', hok', fun hdepth hdepth' d => ?_⟩
  have h' := settled_of_resolve (hc'.graph.wellFormed hb.wellFormed) hok'
  rw [h'.mem_keys_iff hdepth', h.mem_keys_iff hdepth]
  exact ⟨hc'.symm.top, hc'.top⟩

/-- With `tool` first it is `tool` that meets `jaxrs`; the keys stay. -/
theorem cyclic_keys_swap : ∃ t t', (cyclic.resolve cyclicFractions true).value = .ok t ∧
    (cyclicSwapped.resolve cyclicFractions true).value = .ok t' ∧
    .ofArtifact .runtime ⟨"io.thorntail", "jaxrs", "1"⟩ {} ∈ t.keys ∧
    ∀ d, d ∈ t'.keys ↔ d ∈ t.keys := by
  obtain ⟨t, hok⟩ := cyclic_ok
  obtain ⟨_, _, hmet, hkeys⟩ := resolve_keys cyclic_built hok
  obtain ⟨t', hok', hsame⟩ := hkeys _ cyclic_rearranges
  exact ⟨t, t', hok, hok', hmet cyclic_withinDepth _ _ _ _ _ cyclic_meets_jaxrs,
    hsame cyclic_withinDepth (.inl (by decide))⟩

-- ---------------------------------------------------------------------------
-- What there is to package
-- ---------------------------------------------------------------------------

/-- The descriptor stands for a module that has artifacts. -/
def Packages (c : Configuration) (d : Descriptor) : Prop :=
  ∃ n m s, c.graph.module? n = some m ∧ m.artifacts ≠ [] ∧ d = m.descriptor s

theorem not_packages (hg : c.graph.WellFormed) (hm : c.graph.module? n = some m)
    (ha : m.artifacts = []) : ¬ c.Packages (m.descriptor s) := by
  rintro ⟨k, mk, s', hk, hka, hd⟩
  obtain ⟨_, rfl, _⟩ := hg.node_eq_of_identity hm hk (congrArg Descriptor.identity hd)
  exact hka ha

theorem Top.packages (h : c.Top fractions d) : c.Packages d ∨
    ∃ n m s f mf, c.Meets fractions n m s f mf ∧ mf.artifacts = [] ∧ d = mf.descriptor s := by
  cases h with
  | root hroot => exact .inl ⟨_, _, _, hroot.module, hroot.artifacts, rfl⟩
  | @fraction n f m mf s hmeets =>
    by_cases ha : mf.artifacts = []
    · exact .inr ⟨n, m, s, f, mf, hmeets, ha, rfl⟩
    · exact .inl ⟨f, mf, s, hmeets.module, ha, rfl⟩

/-- Every key has something to package, except where promotion meets a fraction
without artifacts. Nothing keeps such a fraction from being a key. -/
theorem resolve_packages (hb : c.graph.Built)
    (hok : (c.resolve fractions transitive).value = .ok t) :
    (∀ d ∈ t.keys, c.Packages d ∨ transitive = true ∧
      ∃ n m s f mf, c.Meets fractions n m s f mf ∧ mf.artifacts = [] ∧ d = mf.descriptor s) ∧
    (transitive = true → c.WithinDepth fractions →
      ∀ n m s f mf, c.Meets fractions n m s f mf → mf.artifacts = [] →
        mf.descriptor s ∈ t.keys ∧ ¬ c.Packages (mf.descriptor s)) := by
  have hg := hb.wellFormed
  cases transitive with
  | true =>
    have h := settled_of_resolve hg hok
    refine ⟨fun d hd => (h.top_of_mem_keys hd).packages.imp_right fun hmeets => ⟨rfl, hmeets⟩, ?_⟩
    intro _ hdepth n m s f mf hmeets ha
    exact ⟨h.met hdepth hmeets.root.firstLevel hmeets, not_packages hg hmeets.module ha⟩
  | false =>
    refine ⟨fun d hd => .inl ?_, by simp⟩
    obtain ⟨e, he, rfl⟩ := TopLevel.mem_keys.mp hd
    obtain ⟨n, _, m, s, hroot, rfl⟩ := (claimed_of_resolve hg hok).mem_iff.mp he
    exact ⟨n, m, s, hroot.module, hroot.artifacts, rfl⟩

/-- All modules of the graph have artifacts, and so all keys do. -/
theorem cyclic_packages : ∃ t, (cyclic.resolve cyclicFractions true).value = .ok t ∧
    ∀ d ∈ t.keys, cyclic.Packages d := by
  obtain ⟨t, hok⟩ := cyclic_ok
  have hall : ∀ m ∈ cyclic.graph.modules, m.artifacts ≠ [] := by decide
  refine ⟨t, hok, fun d hd => ((resolve_packages cyclic_built hok).1 d hd).resolve_right ?_⟩
  rintro ⟨_, _, _, _, _, mf, hmeets, ha, _⟩
  exact hall mf (Array.mem_of_getElem? hmeets.module) ha

/-- A root that leads to a fraction without artifacts. -/
def hollow : Configuration where
  name := "runtimeClasspath"
  hierarchy := [⟨"runtimeClasspath", [.ofParts "org.acme" "app"]⟩]
  graph := {
    modules := #[⟨⟨"org.acme", "app", "1"⟩, [{}], [1]⟩, ⟨⟨"io.thorntail", "bom", "1"⟩, [], []⟩]
    firstLevel := [0] }

theorem hollow_built : hollow.graph.Built :=
  Graph.built_iff_wellFormed.mpr (by decide)

theorem hollow_meets_bom : hollow.Meets [.ofParts "io.thorntail" "bom"] 0
    ⟨⟨"org.acme", "app", "1"⟩, [{}], [1]⟩ .runtime 1 ⟨⟨"io.thorntail", "bom", "1"⟩, [], []⟩ := by
  have hroot : hollow.Root 0 ⟨⟨"org.acme", "app", "1"⟩, [{}], [1]⟩ .runtime :=
    ⟨by simp [hollow], rfl, by decide, by simp, by simp⟩
  exact hroot.meets_child (by decide) (.head _) rfl (.head _)

/-- The fraction is a key all the same. -/
theorem hollow_not_packages : hollow.graph.Built ∧
    ∃ t, (hollow.resolve [.ofParts "io.thorntail" "bom"] true).value = .ok t ∧
      .ofArtifact .runtime ⟨"io.thorntail", "bom", "1"⟩ {} ∈ t.keys ∧
      ¬ hollow.Packages (.ofArtifact .runtime ⟨"io.thorntail", "bom", "1"⟩ {}) := by
  obtain ⟨t, hok⟩ : ∃ t, (hollow.resolve [.ofParts "io.thorntail" "bom"] true).value = .ok t :=
    exists_ok_of_declared (by decide) (by decide)
  have h := settled_of_resolve hollow_built.wellFormed hok
  exact ⟨hollow_built, t, hok, h.met (.inl (by decide)) (by simp [hollow]) hollow_meets_bom,
    not_packages hollow_built.wellFormed hollow_meets_bom.module rfl⟩

end Configuration

end ServerFractions
