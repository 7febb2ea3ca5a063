import ServerFractions.Proofs.Promotion.Direct
import ServerFractions.Proofs.Promotion.Entries

/-!
# The shape of an entry

What all entries have in common, however the walks were cut off and whatever
cycles they met (`resolve_shape`): one scope, given to a root that reaches the
key, and a key among its own children exactly where it is no fraction.
-/

namespace ServerFractions

@[simp] theorem Module.scope_descriptor (m : Module) (s : Scope) : (m.descriptor s).scope = s := rfl

@[simp] theorem Module.key_descriptor (m : Module) (s : Scope) :
    (m.descriptor s).key = m.coordinates.key := rfl

namespace Configuration

variable {c : Configuration} {fractions : List ModuleKey} {full : Prop} {n f : Node}
  {m mf : Module} {s : Scope} {d : Descriptor} {e : TopLevel.Entry} {earlier : List Node}
  {t : TopLevel} {transitive : Bool}

/-- The first-level module at `n` has artifacts, and the last configuration of
the hierarchy that declares it gives it the scope `s`. -/
structure AssignedTo (c : Configuration) (s : Scope) (n : Node) (m : Module) : Prop where
  firstLevel : n ∈ c.graph.firstLevel
  module : c.graph.module? n = some m
  artifacts : m.artifacts ≠ []
  declared : ∃ fallback d, Scope.ofConfiguration? c.name = some fallback ∧
    LastDeclares c.hierarchy m.coordinates.key d ∧ Scope.ofConfiguration d.name fallback = s

theorem Root.assignedTo (h : c.Root n m s) : c.AssignedTo s n m := by
  obtain ⟨fallback, hfallback, d, hd, hs⟩ := scope?_eq_some_iff.mp h.scope
  exact ⟨h.firstLevel, h.module, h.artifacts, fallback, d, hfallback, hd, hs⟩

/-- The shape of an entry. The last two parts are about promotion. -/
structure Shape (c : Configuration) (fractions : List ModuleKey) (transitive : Bool)
    (e : TopLevel.Entry) : Prop where
  scope : ∀ d ∈ e.children, d.scope = e.key.scope
  imported : e.key.scope ≠ .platform
  assigned : ∃ n m k mk, c.AssignedTo e.key.scope n m ∧ Reaches c.graph.children n k ∧
    c.graph.module? k = some mk ∧ e.key = mk.descriptor e.key.scope
  own : transitive = true →
    ((∃ d ∈ e.children, d.identity = e.key.identity) ↔ e.key.key ∉ fractions)
  plain : transitive = true → e.key.key ∉ fractions → ∀ d ∈ e.children, d.key ∉ fractions

theorem Nest.shape (h : c.Nest fractions full earlier n m s e) :
    c.Shape fractions transitive e := by
  have hbelow : ∀ d ∈ e.children, d.scope = s ∧ d.key ∉ fractions := by
    intro d hd
    obtain ⟨k, mk, _, ⟨m', hm', hplain, _⟩, hmk, _, rfl⟩ := h.sound d hd
    cases hmk.symm.trans hm'
    exact ⟨rfl, hplain⟩
  have hkey := h.key
  refine ⟨?_, ?_, ?_, fun _ => ?_, fun _ _ d hd => (hbelow d hd).2⟩
  · simpa [hkey] using fun d hd => (hbelow d hd).1
  · simpa [hkey] using h.root.imported
  · exact ⟨n, m, n, m, by simpa [hkey] using h.root.assignedTo, reaches_refl, h.root.module,
      by simp [hkey]⟩
  · exact iff_of_true ⟨_, h.own, by rw [hkey]⟩ (by simpa [hkey] using h.plain)

theorem Meets.shape (hg : c.graph.WellFormed) (h : c.Meets fractions n m s f mf) :
    c.Shape fractions transitive (c.lifted s f mf) := by
  have hsubtree : ∀ d ∈ (c.lifted s f mf).children, ∃ k mk a, k ≠ f ∧
      c.graph.module? k = some mk ∧ d = .ofArtifact s mk.coordinates a := by
    intro d hd
    obtain ⟨k, mk, a, hne, _, hmk, _, rfl⟩ :=
      (Graph.mem_subtree hg (Graph.lt_of_module? h.module)).mp hd
    exact ⟨k, mk, a, hne, hmk, rfl⟩
  have hfraction : ¬ (c.lifted s f mf).key.key ∉ fractions := not_not.mpr h.fraction
  refine ⟨?_, h.root.imported, ?_, fun _ => ?_, fun _ hplain => absurd hplain hfraction⟩
  · intro d hd
    obtain ⟨_, _, _, _, _, rfl⟩ := hsubtree d hd
    rfl
  · exact ⟨n, m, f, mf, h.root.assignedTo, h.via.reaches, h.module, rfl⟩
  · refine iff_of_false ?_ hfraction
    rintro ⟨d, hd, hsame⟩
    obtain ⟨k, mk, a, hne, hmk, rfl⟩ := hsubtree d hd
    obtain ⟨_, hc, _⟩ := Descriptor.identity_ofArtifact_eq_iff.mp hsame
    exact hne (hg.coordinates_inj hmk h.module hc)

theorem Root.shape_direct (h : c.Root n m s) : c.Shape fractions false (c.direct n m s) := by
  refine ⟨?_, h.imported, ?_, by simp, by simp⟩
  · intro d hd
    have hd := List.mem_of_find?_eq_some (Descriptor.mem_insertAll_nil.mp hd)
    obtain ⟨m', _, rfl⟩ := List.mem_map.mp hd
    rfl
  · exact ⟨n, m, n, m, h.assignedTo, reaches_refl, h.module, rfl⟩

/-- Every entry of a result has its shape, in both modes and at any depth. -/
theorem resolve_shape (hb : c.graph.Built) (hok : (c.resolve fractions transitive).value = .ok t)
    (he : e ∈ t.entries) : c.Shape fractions transitive e := by
  have hg := hb.wellFormed
  cases transitive with
  | true =>
    cases (settled_of_resolve hg hok).origin e he with
    | nest _ hnest => exact hnest.shape
    | lift _ hmeets hlifted => exact hlifted ▸ hmeets.shape hg
  | false =>
    obtain ⟨n, _, m, s, hroot, rfl⟩ := (claimed_of_resolve hg hok).mem_iff.mp he
    exact hroot.shape_direct

/-- `app` is listed below itself, and the fraction that it leads to is not. -/
theorem cyclic_shape_app : ∃ t, (cyclic.resolve cyclicFractions true).value = .ok t ∧
    ∃ e ∈ t.entries, e.key = .ofArtifact .runtime ⟨"org.acme", "app", "1"⟩ {} ∧
      (∃ d ∈ e.children, d.identity = e.key.identity) ∧
      (∀ d ∈ e.children, d.scope = .runtime) ∧ ∀ d ∈ e.children, d.key ∉ cyclicFractions := by
  obtain ⟨t, hok⟩ := cyclic_ok
  obtain ⟨e, he, hkey⟩ := TopLevel.mem_keys.mp <|
    (settled_of_resolve cyclic_built.wellFormed hok).rooted cyclic_root_app.firstLevel
      cyclic_root_app
  have hshape := resolve_shape cyclic_built hok he
  have hplain : e.key.key ∉ cyclicFractions := by
    rw [hkey]
    decide
  refine ⟨t, hok, e, he, hkey, (hshape.own rfl).mpr hplain, ?_, hshape.plain rfl hplain⟩
  simpa [hkey] using hshape.scope

end Configuration

end ServerFractions
