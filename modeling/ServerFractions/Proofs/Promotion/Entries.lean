import ServerFractions.Proofs.Promotion.Run

/-!
# What the entries hold

The entries of a finished resolution, one kind at a time: the entry of a root
nests what the root reaches past fractions and earlier roots (`resolve_nest`),
the entry of a fraction holds its whole subtree (`resolve_fraction`), and
together they leave out nothing that some root reaches (`resolve_carries`).
-/

namespace ServerFractions.Configuration

open Promotion

variable {c : Configuration} {fractions : List ModuleKey} {full : Prop}
  {r k f : Node} {m mk mf : Module} {s : Scope} {e : TopLevel.Entry}
  {earlier later : List Node} {children : List Descriptor} {t : TopLevel}

-- ---------------------------------------------------------------------------
-- Entries by their keys
-- ---------------------------------------------------------------------------

section

variable (h : c.Settled fractions full c.graph.firstLevel t) (hg : c.graph.WellFormed)
include h hg

theorem Settled.exists_nest (hfirst : c.graph.firstLevel = earlier ++ r :: later)
    (hroot : c.Root r m s) (hplain : m.coordinates.key ∉ fractions) :
    ∃ e ∈ t.entries, c.Nest fractions full earlier r m s e := by
  obtain ⟨e, he, hkey⟩ := TopLevel.mem_keys.mp (h.rooted hroot.firstLevel hroot)
  cases h.origin e he with
  | @nest _ _ n _ _ hdone hnest =>
    rw [hnest.key] at hkey
    obtain ⟨rfl, rfl, rfl⟩ := hg.node_eq_of_identity hnest.root.module hroot.module
      (congrArg Descriptor.identity hkey)
    -- The first level holds the root once, so both cuts before it are the same.
    obtain ⟨hbefore, hafter⟩ := (hfirst ▸ hg.firstLevel).not_mem_of_append
    rw [hfirst] at hdone
    obtain ⟨rfl, -⟩ := (List.append_cons_inj_of_notMem hbefore hafter).mp hdone
    exact ⟨e, he, hnest⟩
  | lift _ hmeets he' =>
    subst he'
    obtain ⟨rfl, rfl, rfl⟩ := hg.node_eq_of_identity hmeets.module hroot.module
      (congrArg Descriptor.identity hkey)
    exact absurd hmeets.fraction hplain

theorem Settled.eq_lifted (he : e ∈ t.entries) (hf : c.graph.module? f = some mf)
    (hfraction : mf.coordinates.key ∈ fractions)
    (hkey : e.key.identity = (mf.descriptor s).identity) : e = c.lifted s f mf := by
  cases h.origin e he with
  | nest _ hnest =>
    rw [hnest.key] at hkey
    obtain ⟨rfl, rfl, rfl⟩ := hg.node_eq_of_identity hnest.root.module hf hkey
    exact absurd hfraction hnest.plain
  | lift _ hmeets he' =>
    subst he'
    obtain ⟨rfl, rfl, rfl⟩ := hg.node_eq_of_identity hmeets.module hf hkey
    rfl

/-- What a met fraction reaches is its own key or part of its subtree. -/
theorem Settled.carries_of_fraction (hf : c.graph.module? f = some mf)
    (hfraction : mf.coordinates.key ∈ fractions) (hkey : mf.descriptor s ∈ t.keys)
    (hreach : Reaches c.graph.children f k) (hk : c.graph.module? k = some mk)
    (ha : mk.artifacts ≠ []) : t.Carries (mk.descriptor s) := by
  by_cases hkf : k = f
  · subst hkf
    cases hf.symm.trans hk
    exact .inl hkey
  · obtain ⟨e, he, hekey⟩ := TopLevel.mem_keys.mp hkey
    have hlifted := h.eq_lifted hg he hf hfraction (congrArg Descriptor.identity hekey)
    obtain ⟨a, hkeeps, heq⟩ := Module.exists_descriptor_eq ha s
    refine .inr ⟨e, he, ?_⟩
    rw [hlifted]
    exact (Graph.mem_subtree hg (Graph.lt_of_module? hf)).mpr
      ⟨k, mk, a, hkf, hreach, hk, hkeeps, heq⟩

/-- By induction on the number of earlier roots: what cuts a path off is a
fraction or a root that came before. -/
theorem Settled.carries (hfull : full) (hfirst : c.graph.firstLevel = earlier ++ r :: later)
    (hroot : c.Root r m s) (hreach : Reaches c.graph.children r k)
    (hk : c.graph.module? k = some mk) (ha : mk.artifacts ≠ []) :
    t.Carries (mk.descriptor s) := by
  induction hlen : earlier.length using Nat.strongRecOn
    generalizing earlier r m later with | _ len ih
  rcases hreach.cut (c.Clear fractions earlier s) with ⟨hvia, hclear⟩ | ⟨x, hvia, hx, hrest⟩
  · obtain ⟨m', hm', hplain, _⟩ := hvia.start hclear
    cases hroot.module.symm.trans hm'
    obtain ⟨e, he, hnest⟩ := h.exists_nest hg hfirst hroot hplain
    exact .inr ⟨e, he, hnest.complete hfull _ ⟨k, mk, hvia, hclear, hk, ha, rfl⟩⟩
  · obtain ⟨mx, hmx⟩ := Graph.exists_module?
      (hg.reaches_lt hvia.reaches (Graph.lt_of_module? hroot.module))
    by_cases hfraction : mx.coordinates.key ∈ fractions
    · have hmet := h.met hfull hroot.firstLevel
        ⟨hroot, hvia.mono fun _ => Clear.plain, hmx, hfraction⟩
      exact h.carries_of_fraction hg hmx hfraction hmet hrest hk ha
    · obtain ⟨hxe, hxroot⟩ := root_of_not_clear hx hmx hfraction
      obtain ⟨before, between, rfl⟩ := List.append_of_mem hxe
      rw [List.append_assoc, List.cons_append] at hfirst
      exact ih before.length (by simp [← hlen]) hfirst hxroot hrest rfl

end

-- ---------------------------------------------------------------------------
-- A graph with a cycle
-- ---------------------------------------------------------------------------

/-- Two roots. `app` leads to the fraction `jaxrs` and back to itself through
`util`; `tool` leads to `app` and to what `jaxrs` holds. -/
def cyclic : Configuration where
  name := "runtimeClasspath"
  hierarchy := [⟨"runtimeClasspath", [.ofParts "org.acme" "app", .ofParts "org.acme" "tool"]⟩]
  graph := {
    modules := #[
      ⟨⟨"org.acme", "app", "1"⟩, [{}], [1, 2]⟩,
      ⟨⟨"io.thorntail", "jaxrs", "1"⟩, [{}], [3]⟩,
      ⟨⟨"org.acme", "util", "1"⟩, [{}], [0]⟩,
      ⟨⟨"org.acme", "json", "1"⟩, [{}, { classifier := some "tests" }], [1]⟩,
      ⟨⟨"org.acme", "tool", "1"⟩, [{}], [0, 3]⟩]
    firstLevel := [0, 4] }

def cyclicFractions : List ModuleKey := [.ofParts "io.thorntail" "jaxrs"]

theorem cyclic_built : cyclic.graph.Built :=
  Graph.built_iff_wellFormed.mpr (by decide)

theorem cyclic_ok : ∃ t, (cyclic.resolve cyclicFractions true).value = .ok t :=
  exists_ok_of_declared (by decide) (by decide)

theorem cyclic_withinDepth : cyclic.WithinDepth cyclicFractions :=
  .inl (by decide)

theorem cyclic_root_app : cyclic.Root 0 ⟨⟨"org.acme", "app", "1"⟩, [{}], [1, 2]⟩ .runtime :=
  ⟨by simp [cyclic], rfl, by decide, by decide, by simp⟩

theorem cyclic_root_tool : cyclic.Root 4 ⟨⟨"org.acme", "tool", "1"⟩, [{}], [0, 3]⟩ .runtime :=
  ⟨by simp [cyclic], rfl, by decide, by decide, by simp⟩

theorem cyclic_meets_jaxrs : cyclic.Meets cyclicFractions 0 ⟨⟨"org.acme", "app", "1"⟩, [{}], [1, 2]⟩
    .runtime 1 ⟨⟨"io.thorntail", "jaxrs", "1"⟩, [{}], [3]⟩ :=
  cyclic_root_app.meets_child (by decide) (.head _) rfl (.head _)

-- ---------------------------------------------------------------------------
-- Every entry
-- ---------------------------------------------------------------------------

/-- Whatever a root reaches, by any path, is listed. -/
theorem resolve_carries (hb : c.graph.Built) (hok : (c.resolve fractions true).value = .ok t)
    (hdepth : c.WithinDepth fractions) (hroot : c.Root r m s)
    (hreach : Reaches c.graph.children r k) (hk : c.graph.module? k = some mk)
    (ha : mk.artifacts ≠ []) : t.Carries (mk.descriptor s) := by
  have hg := hb.wellFormed
  obtain ⟨earlier, later, hfirst⟩ := List.append_of_mem hroot.firstLevel
  exact (settled_of_resolve hg hok).carries hg hdepth hfirst hroot hreach hk ha

/-- What the fraction holds, from `app`. -/
theorem cyclic_carries_json : ∃ t, (cyclic.resolve cyclicFractions true).value = .ok t ∧
    t.Carries (.ofArtifact .runtime ⟨"org.acme", "json", "1"⟩ {}) := by
  obtain ⟨t, hok⟩ := cyclic_ok
  have hpath : Reaches cyclic.graph.children 0 3 :=
    .tail (b := 1) (.single (by decide)) (by decide)
  have hjson : cyclic.graph.module? 3 =
      some ⟨⟨"org.acme", "json", "1"⟩, [{}, { classifier := some "tests" }], [1]⟩ := rfl
  exact ⟨t, hok, resolve_carries cyclic_built hok cyclic_withinDepth cyclic_root_app hpath hjson
    (by simp)⟩

/-- The entry of a root nests what lies below it, up to fractions and to
earlier roots with the same scope. -/
theorem resolve_nest (hb : c.graph.Built) (hok : (c.resolve fractions true).value = .ok t)
    (hfirst : c.graph.firstLevel = earlier ++ r :: later) (hroot : c.Root r m s)
    (hplain : m.coordinates.key ∉ fractions) :
    ∃ children, t.get? (m.descriptor s) = some children ∧
      (∀ d ∈ children, c.Below fractions earlier s r d) ∧
      (c.WithinDepth fractions → ∀ d, c.Below fractions earlier s r d → d ∈ children) := by
  have hg := hb.wellFormed
  have hsettled := settled_of_resolve hg hok
  obtain ⟨e, he, hnest⟩ := hsettled.exists_nest hg hfirst hroot hplain
  refine ⟨e.children, ?_, hnest.sound, hnest.complete⟩
  rw [← hnest.key]
  exact hsettled.distinct.get?_eq he

/-- The entry of `tool` stops at `app`. -/
theorem cyclic_nest_tool : ∃ t, (cyclic.resolve cyclicFractions true).value = .ok t ∧
    ∃ children, t.get? (.ofArtifact .runtime ⟨"org.acme", "tool", "1"⟩ {}) = some children ∧
      ∀ d, d ∈ children ↔ cyclic.Below cyclicFractions [0] .runtime 4 d := by
  obtain ⟨t, hok⟩ := cyclic_ok
  have hfirst : cyclic.graph.firstLevel = [0] ++ 4 :: [] := rfl
  obtain ⟨children, hchildren, hsound, hcomplete⟩ :=
    resolve_nest cyclic_built hok hfirst cyclic_root_tool (by decide)
  exact ⟨t, hok, children, hchildren, fun d => ⟨hsound d, hcomplete cyclic_withinDepth d⟩⟩

/-- The entry of a fraction holds the artifacts of all other modules that it
reaches, whatever its root and the other roots are, and without a depth limit. -/
theorem resolve_fraction (hb : c.graph.Built) (hok : (c.resolve fractions true).value = .ok t)
    (hf : c.graph.module? f = some mf) (hfraction : mf.coordinates.key ∈ fractions)
    (hentry : t.get? (mf.descriptor s) = some children) :
    (∀ d, d ∈ children ↔ ∃ k m a, k ≠ f ∧ Reaches c.graph.children f k ∧
      c.graph.module? k = some m ∧ m.Keeps a ∧ d = .ofArtifact s m.coordinates a) ∧
    ∀ k m, k ≠ f → Reaches c.graph.children f k → c.graph.module? k = some m →
      ∀ a ∈ m.artifacts, ∃ d ∈ children,
        d.identity = (Descriptor.ofArtifact s m.coordinates a).identity := by
  have hg := hb.wellFormed
  obtain ⟨e, he, hkey, rfl⟩ := TopLevel.exists_of_get?_eq_some hentry
  rw [(settled_of_resolve hg hok).eq_lifted hg he hf hfraction hkey]
  refine ⟨fun d => Graph.mem_subtree hg (Graph.lt_of_module? hf), ?_⟩
  intro k m hne hreach hk a ha
  obtain ⟨b, hb, htype, hclassifier⟩ := Module.exists_keeps ha
  exact ⟨_, (Graph.mem_subtree hg (Graph.lt_of_module? hf)).mpr ⟨k, m, b, hne, hreach, hk, hb, rfl⟩,
    Descriptor.identity_ofArtifact_eq_iff.mpr ⟨rfl, rfl, htype, hclassifier⟩⟩

/-- The second artifact of a module below the fraction is there as well. -/
theorem cyclic_fraction_jaxrs : ∃ t children, (cyclic.resolve cyclicFractions true).value = .ok t ∧
    t.get? (.ofArtifact .runtime ⟨"io.thorntail", "jaxrs", "1"⟩ {}) = some children ∧
    .ofArtifact .runtime ⟨"org.acme", "json", "1"⟩ { classifier := some "tests" } ∈ children := by
  obtain ⟨t, hok⟩ := cyclic_ok
  have hsettled := settled_of_resolve cyclic_built.wellFormed hok
  obtain ⟨e, he, hkey⟩ := TopLevel.mem_keys.mp
    (hsettled.met cyclic_withinDepth (by simp [cyclic]) cyclic_meets_jaxrs)
  have hentry := hsettled.distinct.get?_eq he
  rw [hkey] at hentry
  have hvalue := resolve_fraction cyclic_built hok cyclic_meets_jaxrs.module
    cyclic_meets_jaxrs.fraction hentry
  exact ⟨t, e.children, hok, hentry, (hvalue.1 _).mpr
    ⟨3, _, { classifier := some "tests" }, by decide, .single (by decide), rfl, by decide, rfl⟩⟩

end ServerFractions.Configuration
