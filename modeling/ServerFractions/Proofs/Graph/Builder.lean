import ServerFractions.Proofs.EraseDups

/-!
# Built graphs are the well-formed ones

`built_iff_wellFormed`: whatever modules, edges and first-level nodes a builder
was given, and in whatever order, the coordinates of a module occur nowhere
else in the graph, and the children of a module and the first level name
modules of the graph, each once. Every such graph can be built.
-/

namespace ServerFractions

/-- The module without its edges. -/
def Module.bare (m : Module) : Module :=
  { m with children := [] }

namespace Graph

variable {g : Graph} {k l n : Nat} {ns : List Node}

/-- Nodes of a graph of `k` modules, each once. -/
structure Names (k : Nat) (ns : List Node) : Prop where
  nodup : ns.Nodup
  lt : ∀ n ∈ ns, n < k

theorem Names.nil : Names k [] := ⟨.nil, by simp⟩

/-- A node stands in such a list once. -/
theorem Names.not_mem_of_append {before after : List Node} (h : Names k (before ++ n :: after)) :
    n ∉ before ∧ n ∉ after := by
  have hnodup := h.nodup
  rw [List.nodup_middle, List.nodup_cons, List.mem_append, not_or] at hnodup
  exact hnodup.1

theorem Names.mono (h : Names k ns) (hle : k ≤ l) : Names l ns :=
  ⟨h.nodup, fun n hn => Nat.lt_of_lt_of_le (h.lt n hn) hle⟩

theorem Names.appendNew (h : Names k ns) (hn : n < k) : Names k (appendNew n ns) where
  nodup := nodup_appendNew h.nodup
  lt i hi := by
    rcases mem_appendNew.mp hi with hi | rfl
    · exact h.lt i hi
    · exact hn

theorem Names.of_append (h : Names k (ns ++ [n])) : Names k ns ∧ n ∉ ns ∧ n < k := by
  have hdisj := List.disjoint_of_nodup_append h.nodup
  exact ⟨⟨h.nodup.of_append_left, fun i hi => h.lt i (by simp [hi])⟩,
    fun hn => hdisj hn (by simp), h.lt n (by simp)⟩

theorem names_iff : Names k ns ↔ ns.Nodup ∧ ∀ n ∈ ns, n < k :=
  ⟨fun h => ⟨h.nodup, h.lt⟩, fun h => ⟨h.1, h.2⟩⟩

instance : Decidable (Names k ns) :=
  decidable_of_iff _ names_iff.symm

/-- Every module has coordinates of its own. Edges and first level stay
within the graph and hold no repetitions. -/
structure WellFormed (g : Graph) : Prop where
  coordinates_inj : ∀ {i j m m'}, g.module? i = some m → g.module? j = some m' →
    m.coordinates = m'.coordinates → i = j
  children : ∀ {n m}, g.module? n = some m → Names g.size m.children
  firstLevel : Names g.size g.firstLevel

theorem wellFormed_iff : g.WellFormed ↔ (g.modules.toList.map (·.coordinates)).Nodup ∧
    (∀ m ∈ g.modules.toList, Names g.size m.children) ∧ Names g.size g.firstLevel := by
  constructor
  · intro h
    refine ⟨List.nodup_iff_injective_getElem.mpr fun i j hij => ?_, fun m hm => ?_, h.firstLevel⟩
    · simp only [List.getElem_map] at hij
      exact Fin.ext (h.coordinates_inj (Array.getElem?_eq_getElem (by simpa using i.2))
        (Array.getElem?_eq_getElem (by simpa using j.2)) (by simpa using hij))
    · obtain ⟨n, hn, rfl⟩ := List.getElem_of_mem hm
      exact h.children (n := n) (by simp [module?])
  · rintro ⟨hnodup, hchildren, hfirst⟩
    refine ⟨fun {i j m m'} hi hj hc => ?_, fun {n m} hm => ?_, hfirst⟩
    · have hlt : i < (g.modules.toList.map (·.coordinates)).length := by
        simpa using (Array.getElem?_eq_some_iff.mp hi).1
      refine (List.getElem?_inj hlt hnodup).mp ?_
      simp only [module?] at hi hj
      simp [hi, hj, hc]
    · exact hchildren m (Array.mem_toList_iff.mpr (Array.mem_of_getElem? hm))

instance : Decidable g.WellFormed :=
  decidable_of_iff _ wellFormed_iff.symm

-- ---------------------------------------------------------------------------
-- Steps of building
-- ---------------------------------------------------------------------------

namespace Builder

/-- The builders that arise from the empty one when edges and first-level
nodes name nodes of modules that were added. -/
inductive Made : Builder → Prop
  | empty : Made .empty
  | addModule {b : Builder} (h : Made b) (c : Coordinates) (as : List Artifact) :
    Made (b.addModule c as).2
  | addChild {b : Builder} {parent child : Node} (h : Made b) (hp : parent < b.modules.size)
    (hc : child < b.modules.size) : Made (b.addChild parent child)
  | addFirstLevel {b : Builder} {n : Node} (h : Made b) (hn : n < b.modules.size) :
    Made (b.addFirstLevel n)

/-- What every step of building keeps: the index knows exactly the modules
that are there. -/
structure Consistent (b : Builder) : Prop where
  index_iff : ∀ {c : Coordinates} {n : Node},
    b.index[c]? = some n ↔ ∃ m, b.modules[n]? = some m ∧ m.coordinates = c
  children : ∀ {n : Node} {m : Module}, b.modules[n]? = some m → Names b.modules.size m.children
  firstLevel : Names b.modules.size b.firstLevel

theorem Consistent.node?_eq_none {b : Builder} {c : Coordinates} (h : b.Consistent)
    (hc : ∀ m ∈ b.modules, m.coordinates ≠ c) : b.node? c = none := by
  cases hn : b.node? c with
  | none => rfl
  | some n =>
    obtain ⟨m, hm, hmc⟩ := h.index_iff.mp hn
    exact absurd hmc (hc m (Array.mem_of_getElem? hm))

theorem Consistent.empty : Consistent .empty where
  index_iff := by simp [Builder.empty]
  children := by simp [Builder.empty]
  firstLevel := .nil

theorem Consistent.addModule {b : Builder} (h : b.Consistent) (c : Coordinates)
    (as : List Artifact) : (b.addModule c as).2.Consistent := by
  unfold Builder.addModule
  split
  · exact h
  · rename_i hnew
    replace hnew : b.index[c]? = none := hnew
    refine ⟨?_, ?_, ?_⟩
    · intro c' n
      simp only [Std.HashMap.getElem?_insert, Array.getElem?_push, beq_iff_eq]
      by_cases hn : n = b.modules.size
      · by_cases hc : c = c'
        · simp [hn, hc]
        · have hold : b.index[c']? ≠ some b.modules.size := by simp [h.index_iff]
          simpa [hn, hc] using hold
      · by_cases hc : c = c'
        · subst hc
          have hold : ¬ ∃ m, b.modules[n]? = some m ∧ m.coordinates = c := by
            simp [← h.index_iff, hnew]
          simpa [hn, Ne.symm hn] using hold
        · simpa [hn, hc] using h.index_iff
    · intro n m hm
      simp only [Array.getElem?_push, Array.size_push] at hm ⊢
      split at hm
      · cases hm
        exact .nil
      · exact (h.children hm).mono (Nat.le_succ _)
    · simpa using h.firstLevel.mono (Nat.le_succ _)

theorem Consistent.addChild {b : Builder} {parent child : Node} (h : b.Consistent)
    (hc : child < b.modules.size) : (b.addChild parent child).Consistent where
  index_iff {c n} := by
    simp only [Builder.addChild, Array.getElem?_modify, h.index_iff]
    split <;> simp
  children {n m} hm := by
    simp only [Builder.addChild, Array.getElem?_modify, Array.size_modify] at hm ⊢
    split at hm
    · obtain ⟨m', hm', rfl⟩ := Option.map_eq_some_iff.mp hm
      exact (h.children hm').appendNew hc
    · exact h.children hm
  firstLevel := by simpa [Builder.addChild] using h.firstLevel

theorem Consistent.addFirstLevel {b : Builder} {n : Node} (h : b.Consistent)
    (hn : n < b.modules.size) : (b.addFirstLevel n).Consistent where
  index_iff := h.index_iff
  children := h.children
  firstLevel := h.firstLevel.appendNew hn

theorem Made.consistent {b : Builder} (h : b.Made) : b.Consistent := by
  induction h with
  | empty => exact .empty
  | addModule _ c as ih => exact ih.addModule c as
  | addChild _ _ hc ih => exact ih.addChild hc
  | addFirstLevel _ hn ih => exact ih.addFirstLevel hn

theorem Consistent.wellFormed {b : Builder} (h : b.Consistent) : b.build.WellFormed where
  coordinates_inj hi hj hc :=
    Option.some.inj <| (h.index_iff.mpr ⟨_, hi, hc⟩).symm.trans (h.index_iff.mpr ⟨_, hj, rfl⟩)
  children := h.children
  firstLevel := h.firstLevel

end Builder

/-- Made by a builder. -/
def Built (g : Graph) : Prop :=
  ∃ b : Builder, b.Made ∧ b.build = g

theorem Built.wellFormed (h : g.Built) : g.WellFormed := by
  obtain ⟨b, hb, rfl⟩ := h
  exact hb.consistent.wellFormed

-- ---------------------------------------------------------------------------
-- Building a given graph
-- ---------------------------------------------------------------------------

section

variable {cs : List Node} {ms : Array Module} {m : Module}

theorem Built.addModule (h : Built ⟨ms, ns⟩) (hm : ∀ m' ∈ ms, m'.coordinates ≠ m.coordinates) :
    Built ⟨ms.push m.bare, ns⟩ := by
  obtain ⟨b, hb, hbuild⟩ := h
  obtain ⟨rfl, rfl⟩ := Graph.mk.inj hbuild
  have hnew := hb.consistent.node?_eq_none hm
  exact ⟨_, hb.addModule m.coordinates m.artifacts,
    by simp [Builder.addModule, hnew, Builder.build, Module.bare]⟩

theorem Built.addChild {c : Node} (h : Built ⟨ms, ns⟩) (hm : ms[n]? = some m) (hc : c < ms.size)
    (hnew : c ∉ m.children) :
    Built ⟨ms.modify n fun m => { m with children := m.children ++ [c] }, ns⟩ := by
  obtain ⟨b, hb, hbuild⟩ := h
  obtain ⟨rfl, rfl⟩ := Graph.mk.inj hbuild
  refine ⟨_, hb.addChild (Array.getElem?_eq_some_iff.mp hm).1 hc, ?_⟩
  have hmodify : (b.modules.modify n fun m => { m with children := appendNew c m.children }) =
      b.modules.modify n fun m => { m with children := m.children ++ [c] } := by
    refine Array.ext_getElem? fun i => ?_
    simp only [Array.getElem?_modify]
    split
    · rename_i hi
      subst hi
      simp [hm, appendNew, hnew]
    · rfl
  rw [Builder.build, Builder.addChild, hmodify]

theorem Built.addChildren (h : Built ⟨ms, ns⟩) (hm : ms[n]? = some m)
    (hcs : Names ms.size (m.children ++ cs)) :
    Built ⟨ms.modify n fun m => { m with children := m.children ++ cs }, ns⟩ := by
  induction cs using List.reverseRecOn with
  | nil =>
    have hsame : (ms.modify n fun m => { m with children := m.children ++ [] }) = ms :=
      Array.ext_getElem? fun i => by simp [Array.getElem?_modify]
    rwa [hsame]
  | append_singleton cs c ih =>
    rw [← List.append_assoc] at hcs
    obtain ⟨hcs, hnew, hc⟩ := hcs.of_append
    have hm' : (ms.modify n fun m => { m with children := m.children ++ cs })[n]? =
        some { m with children := m.children ++ cs } := by simp [Array.getElem?_modify, hm]
    have hmore := (ih hcs).addChild hm' (by simpa using hc) hnew
    have hmodify : ((ms.modify n fun m => { m with children := m.children ++ cs }).modify n
        fun m => { m with children := m.children ++ [c] }) =
          ms.modify n fun m => { m with children := m.children ++ (cs ++ [c]) } := by
      refine Array.ext_getElem? fun i => ?_
      simp only [Array.getElem?_modify]
      split <;> simp only [Option.map_map, Function.comp_def, List.append_assoc]
    rwa [hmodify] at hmore

theorem Built.addFirstLevel (h : Built ⟨ms, []⟩) (hns : Names ms.size ns) : Built ⟨ms, ns⟩ := by
  induction ns using List.reverseRecOn with
  | nil => exact h
  | append_singleton ns n ih =>
    obtain ⟨hns, hnew, hn⟩ := hns.of_append
    obtain ⟨b, hb, hbuild⟩ := ih hns
    obtain ⟨rfl, rfl⟩ := Graph.mk.inj hbuild
    exact ⟨_, hb.addFirstLevel hn, by simp [Builder.build, Builder.addFirstLevel, appendNew, hnew]⟩

theorem built_bare (h : (ms.toList.map (·.coordinates)).Nodup) :
    Built ⟨ms.map Module.bare, []⟩ := by
  obtain ⟨ms⟩ := ms
  induction ms using List.reverseRecOn with
  | nil => exact ⟨.empty, .empty, by simp [Builder.empty, Builder.build]⟩
  | append_singleton ms m ih =>
    simp only [List.map_append, List.map_cons, List.map_nil] at h
    have hother : ∀ m' ∈ (⟨ms⟩ : Array Module).map Module.bare, m'.coordinates ≠ m.coordinates := by
      intro m' hm' hc
      obtain ⟨m'', hm'', rfl⟩ := Array.mem_map.mp hm'
      have hmem : m.coordinates ∈ ms.map (·.coordinates) :=
        List.mem_map.mpr ⟨m'', by simpa using hm'', hc⟩
      exact List.disjoint_of_nodup_append h hmem (by simp)
    simpa using (ih h.of_append_left).addModule hother

/-- The modules of the graph with the edges of the first `k` only. -/
def edgesBelow (g : Graph) (k : Nat) : Array Module :=
  g.modules.mapIdx fun i m => if i < k then m else m.bare

theorem edgesBelow_zero : g.edgesBelow 0 = g.modules.map Module.bare :=
  Array.ext_getElem? fun i => by simp [edgesBelow]

theorem edgesBelow_size : g.edgesBelow g.size = g.modules := by
  refine Array.ext_getElem? fun i => ?_
  by_cases hi : i < g.modules.size <;> simp [edgesBelow, size, hi]

theorem edgesBelow_succ (hm : g.module? k = some m) : g.edgesBelow (k + 1) =
    (g.edgesBelow k).modify k fun m' => { m' with children := m'.children ++ m.children } := by
  have hm : g.modules[k]? = some m := hm
  refine Array.ext_getElem? fun i => ?_
  simp only [edgesBelow, Array.getElem?_modify, Array.getElem?_mapIdx]
  by_cases hik : k = i
  · subst hik
    simp [hm, Module.bare]
  · have hlt : i < k + 1 ↔ i < k := by omega
    simp [hik, hlt]

/-- The edges can be added one module after the other. -/
theorem WellFormed.built_edgesBelow (hg : g.WellFormed) (hk : k ≤ g.size) :
    Built ⟨g.edgesBelow k, []⟩ := by
  induction k with
  | zero =>
    rw [edgesBelow_zero]
    exact built_bare (wellFormed_iff.mp hg).1
  | succ k ih =>
    obtain ⟨m, hm⟩ : ∃ m, g.modules[k]? = some m := ⟨_, Array.getElem?_eq_getElem hk⟩
    rw [edgesBelow_succ hm]
    refine (ih (Nat.le_of_succ_le hk)).addChildren (m := m.bare) (by simp [edgesBelow, hm]) ?_
    simpa [edgesBelow, Module.bare, size] using hg.children hm

/-- Built graphs are exactly the well-formed ones. -/
theorem built_iff_wellFormed : g.Built ↔ g.WellFormed := by
  refine ⟨Built.wellFormed, fun h => Built.addFirstLevel ?_ h.firstLevel⟩
  rw [← edgesBelow_size]
  exact h.built_edgesBelow (Nat.le_refl _)

end

end Graph

end ServerFractions
