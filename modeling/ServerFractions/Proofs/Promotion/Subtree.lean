import ServerFractions.Promotion
import ServerFractions.Proofs.Descriptor.Collection
import ServerFractions.Proofs.Graph.Builder
import ServerFractions.Proofs.Reach

/-!
# Descriptors of modules and of subtrees

In a well-formed graph the identity of a descriptor tells the node of its
module (`WellFormed.node_eq_of_identity`). `mem_subtree`: what a promoted
fraction holds is exactly the artifacts of the other modules that can be
reached from it, of each type and classifier the first.
-/

namespace ServerFractions

namespace Graph

variable {g : Graph} {n c : Node} {m : Module}

theorem lt_of_module? (h : g.module? n = some m) : n < g.size :=
  (Array.getElem?_eq_some_iff.mp h).1

theorem exists_module? (h : n < g.size) : ∃ m, g.module? n = some m :=
  ⟨_, Array.getElem?_eq_getElem h⟩

theorem children_of_module? (h : g.module? n = some m) : g.children n = m.children := by
  simp [children, h]

theorem WellFormed.children_lt (hg : g.WellFormed) (h : c ∈ g.children n) : c < g.size := by
  cases hm : g.module? n with
  | none => simp [Graph.children, hm] at h
  | some m => exact (hg.children hm).lt c (children_of_module? hm ▸ h)

theorem WellFormed.reaches_lt (hg : g.WellFormed) (h : Reaches g.children n c) (hn : n < g.size) :
    c < g.size := by
  induction h with
  | refl => exact hn
  | tail _ hstep _ => exact hg.children_lt hstep

end Graph

-- ---------------------------------------------------------------------------
-- Descriptors
-- ---------------------------------------------------------------------------

theorem Descriptor.identity_ofArtifact_eq_iff {s s' : Scope} {c c' : Coordinates}
    {a a' : Artifact} : (ofArtifact s c a).identity = (ofArtifact s' c' a').identity ↔
      s = s' ∧ c = c' ∧ a.type = a'.type ∧ a.classifier = a'.classifier := by
  obtain ⟨g, n, v⟩ := c
  obtain ⟨g', n', v'⟩ := c'
  simp only [identity, ofArtifact, Identity.mk.injEq, Coordinates.mk.injEq]
  tauto

namespace Graph

variable {g : Graph} {i j : Node} {m m' : Module} {s s' : Scope}

theorem WellFormed.node_eq_of_identity (hg : g.WellFormed) (hi : g.module? i = some m)
    (hj : g.module? j = some m') (h : (m.descriptor s).identity = (m'.descriptor s').identity) :
    i = j ∧ m = m' ∧ s = s' := by
  obtain ⟨hs, hc, _⟩ := Descriptor.identity_ofArtifact_eq_iff.mp h
  have hij := hg.coordinates_inj hi hj hc
  subst hij
  exact ⟨rfl, Option.some.inj (hi.symm.trans hj), hs⟩

end Graph

-- ---------------------------------------------------------------------------
-- Subtrees
-- ---------------------------------------------------------------------------

/-- `a` is the first artifact of the module with its type and classifier. -/
def Module.Keeps (m : Module) (a : Artifact) : Prop :=
  m.artifacts.find? (fun b => b.type = a.type ∧ b.classifier = a.classifier) = some a

instance (m : Module) (a : Artifact) : Decidable (m.Keeps a) :=
  inferInstanceAs (Decidable (_ = _))

/-- Every artifact has the type and classifier of one that is kept. -/
theorem Module.exists_keeps {m : Module} {a : Artifact} (ha : a ∈ m.artifacts) :
    ∃ b, m.Keeps b ∧ b.type = a.type ∧ b.classifier = a.classifier := by
  obtain ⟨b, hb⟩ : ∃ b, m.artifacts.find?
      (fun b => b.type = a.type ∧ b.classifier = a.classifier) = some b :=
    Option.isSome_iff_exists.mp (List.find?_isSome.mpr ⟨a, ha, by simp⟩)
  have hkind : b.type = a.type ∧ b.classifier = a.classifier := by
    simpa using List.find?_some hb
  exact ⟨b, by simpa only [Keeps, hkind] using hb, hkind⟩

/-- The artifact that stands for a module as a whole is kept. -/
theorem Module.exists_descriptor_eq {m : Module} (h : m.artifacts ≠ []) (s : Scope) :
    ∃ a, m.Keeps a ∧ m.descriptor s = .ofArtifact s m.coordinates a := by
  obtain ⟨a, rest, hcons⟩ := List.exists_cons_of_ne_nil h
  exact ⟨a, by simp [Keeps, hcons], by simp [descriptor, Descriptor.ofModule, hcons]⟩

theorem Module.find?_descriptors {m : Module} {s : Scope} {a : Artifact} :
    (m.descriptors s).find? (Descriptor.ofArtifact s m.coordinates a).same =
      (m.artifacts.find? fun b => b.type = a.type ∧ b.classifier = a.classifier).map
        (.ofArtifact s m.coordinates) := by
  rw [descriptors, List.find?_map]
  congr 2
  funext b
  simp only [Function.comp, Descriptor.same, Bool.beq_eq_decide_eq,
    Descriptor.identity_ofArtifact_eq_iff, true_and, eq_comm]

theorem findSome?_eq_of_unique {α β : Type} {F : α → Option β} {x : α} {xs : List α} (hx : x ∈ xs)
    (h : ∀ y ∈ xs, y ≠ x → F y = none) : xs.findSome? F = F x := by
  induction xs with
  | nil => cases hx
  | cons y ys ih =>
    have hys : ∀ z ∈ ys, z ≠ x → F z = none := fun z hz => h z (List.mem_cons_of_mem _ hz)
    rw [List.findSome?_cons]
    by_cases hy : y = x
    · subst hy
      cases hF : F y with
      | some b => rfl
      | none =>
        refine List.findSome?_eq_none_iff.mpr fun z hz => ?_
        by_cases hzy : z = y
        · rw [hzy, hF]
        · exact hys z hz hzy
    · rw [h y (by simp) hy]
      exact ih ((List.mem_cons.mp hx).resolve_left (Ne.symm hy)) hys

namespace Graph

variable {g : Graph} {f n : Node} {m : Module} {s : Scope} {d : Descriptor} {a : Artifact}

theorem mem_below (hg : g.WellFormed) (hf : f < g.size) :
    n ∈ (preorder g.children g.nodes [f]).filter (· != f) ↔
      n ≠ f ∧ Reaches g.children f n := by
  have hnodes : ∀ a, ∀ b ∈ g.children a, b ∈ g.nodes := fun _ _ hb =>
    List.mem_range.mpr (hg.children_lt hb)
  rw [List.mem_filter, mem_preorder_iff_reaches hnodes (by simpa [nodes] using hf)]
  simp [and_comm]

theorem mem_descendants (hg : g.WellFormed) (hf : f < g.size) : d ∈ g.descendants s f ↔
    ∃ n m, n ≠ f ∧ Reaches g.children f n ∧ g.module? n = some m ∧ d ∈ m.descriptors s := by
  simp only [descendants, List.mem_flatMap, List.mem_filterMap, mem_below hg hf]
  constructor
  · rintro ⟨m, ⟨n, ⟨hne, hn⟩, hm⟩, hd⟩
    exact ⟨n, m, hne, hn, hm, hd⟩
  · rintro ⟨n, m, hne, hn, hm, hd⟩
    exact ⟨m, ⟨n, ⟨hne, hn⟩, hm⟩, hd⟩

/-- What is looked for in a subtree is found in its module or not at all. -/
theorem find?_descendants (hg : g.WellFormed) (hf : f < g.size) (hne : n ≠ f)
    (hn : Reaches g.children f n) (hm : g.module? n = some m) :
    (g.descendants s f).find? (Descriptor.ofArtifact s m.coordinates a).same =
      (m.descriptors s).find? (Descriptor.ofArtifact s m.coordinates a).same := by
  simp only [descendants, List.find?_flatMap]
  refine findSome?_eq_of_unique ?_ ?_
  · exact List.mem_filterMap.mpr ⟨n, (mem_below hg hf).mpr ⟨hne, hn⟩, hm⟩
  · intro m' hm' hother
    obtain ⟨n', _, hn'⟩ := List.mem_filterMap.mp hm'
    refine List.find?_eq_none.mpr fun d hd hsame => hother ?_
    obtain ⟨a', _, rfl⟩ := List.mem_map.mp hd
    have hc := (Descriptor.identity_ofArtifact_eq_iff.mp (Descriptor.same_iff.mp hsame)).2.1
    have hnode := hg.coordinates_inj hn' hm hc.symm
    exact Option.some.inj (hn'.symm.trans (hnode ▸ hm))

/-- The value of a promoted fraction. -/
theorem mem_subtree (hg : g.WellFormed) (hf : f < g.size) :
    d ∈ Descriptor.insertAll (g.descendants s f) [] ↔
      ∃ n m a, n ≠ f ∧ Reaches g.children f n ∧ g.module? n = some m ∧ m.Keeps a ∧
        d = .ofArtifact s m.coordinates a := by
  rw [Descriptor.mem_insertAll_nil]
  constructor
  · intro h
    obtain ⟨n, m, hne, hn, hm, hd⟩ := (mem_descendants hg hf).mp (List.mem_of_find?_eq_some h)
    obtain ⟨a, _, rfl⟩ := List.mem_map.mp hd
    rw [find?_descendants hg hf hne hn hm, Module.find?_descriptors, Option.map_eq_some_iff] at h
    obtain ⟨b, hb, hba⟩ := h
    refine ⟨n, m, b, hne, hn, hm, ?_, hba.symm⟩
    obtain ⟨_, _, htype, hclass⟩ :=
      Descriptor.identity_ofArtifact_eq_iff.mp (congrArg Descriptor.identity hba)
    simpa only [Module.Keeps, htype, hclass] using hb
  · rintro ⟨n, m, a, hne, hn, hm, ha, rfl⟩
    rw [find?_descendants hg hf hne hn hm, Module.find?_descriptors]
    exact Option.map_eq_some_iff.mpr ⟨a, ha, rfl⟩

end Graph

end ServerFractions
