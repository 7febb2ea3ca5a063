import ServerFractions.Proofs.Promotion.Run

/-!
# Direct mode

Without promotion every root has one entry, with its direct children, and
there is no other entry (`claimed_of_resolve`). No claim is ever refused, since
the first level names each module once.
-/

namespace ServerFractions.Configuration

open Promotion

variable {c : Configuration} {fractions : List ModuleKey} {n x : Node} {m mx : Module}
  {s s' : Scope} {e : TopLevel.Entry} {done : List Node} {t : TopLevel}

/-- The entry of a root with its direct children. -/
def direct (c : Configuration) (n : Node) (m : Module) (s : Scope) : TopLevel.Entry :=
  ⟨m.descriptor s, Descriptor.insertAll (c.graph.directChildren s n) []⟩

/-- One entry per root among the first-level modules `done`. -/
structure Claimed (c : Configuration) (done : List Node) (t : TopLevel) : Prop where
  distinct : t.Distinct
  mem_iff : ∀ {e}, e ∈ t.entries ↔ ∃ n ∈ done, ∃ m s, c.Root n m s ∧ e = c.direct n m s

theorem Claimed.empty : c.Claimed [] .empty where
  distinct := by simp [TopLevel.empty, TopLevel.Distinct]
  mem_iff := by simp [TopLevel.empty]

theorem Claimed.skip (h : c.Claimed done t) (hskip : ∀ m s, ¬ c.Root n m s) :
    c.Claimed (done ++ [n]) t where
  distinct := h.distinct
  mem_iff {e} := by
    rw [h.mem_iff]
    constructor
    · rintro ⟨k, hk, hroot⟩
      exact ⟨k, List.mem_append_left _ hk, hroot⟩
    · rintro ⟨k, hk, m, s, hroot, he⟩
      rcases List.mem_append.mp hk with hk | hk
      · exact ⟨k, hk, m, s, hroot, he⟩
      · exact absurd (List.mem_singleton.mp hk ▸ hroot) (hskip m s)

/-- The key of a root that was not taken yet is free. -/
theorem Claimed.contains_eq_false (h : c.Claimed done t) (hg : c.graph.WellFormed)
    (hn : n ∉ done) (hroot : c.Root n m s) : t.contains (m.descriptor s) = false := by
  refine TopLevel.contains_eq_false_iff.mpr fun e he hkey => hn ?_
  obtain ⟨k, hk, mk, sk, hrootk, rfl⟩ := h.mem_iff.mp he
  obtain ⟨rfl, _⟩ := hg.node_eq_of_identity hrootk.module hroot.module hkey
  exact hk

theorem Claimed.claim (h : c.Claimed done t) (hg : c.graph.WellFormed) (hn : n ∉ done)
    (hroot : c.Root n m s) :
    c.Claimed (done ++ [n]) (t.claim (m.descriptor s) (c.graph.directChildren s n)).2 where
  distinct := h.distinct.claim
  mem_iff {e} := by
    rw [TopLevel.mem_claim, h.mem_iff]
    constructor
    · rintro (⟨k, hk, hrootk⟩ | ⟨_, rfl⟩)
      · exact ⟨k, List.mem_append_left _ hk, hrootk⟩
      · exact ⟨n, by simp, m, s, hroot, rfl⟩
    · rintro ⟨k, hk, mk, sk, hrootk, rfl⟩
      rcases List.mem_append.mp hk with hk | hk
      · exact .inl ⟨k, hk, mk, sk, hrootk, rfl⟩
      · cases List.mem_singleton.mp hk
        obtain ⟨rfl, rfl⟩ := hroot.eq hrootk
        exact .inr ⟨h.contains_eq_false hg hn hroot, rfl⟩

theorem Root.value_resolveRoot_direct (h : c.Root n m s) :
    (resolveRoot c.graph fractions false s n m t).value =
      (t.claim (m.descriptor s) (c.graph.directChildren s n)).2 := by
  simp [resolveRoot, h.imported, h.artifacts]

theorem claimed_of_resolveRoots (hg : c.graph.WellFormed) (hdone : done <+: c.graph.firstLevel)
    (hok : (resolveRoots c.graph c.scope? fractions false done .empty).value = .ok t) :
    c.Claimed done t := by
  refine resolveRoots_induction (I := c.Claimed) hg Claimed.skip ?_ Claimed.empty hdone
    (List.Subset.refl _) hok
  intro done n rest m s t hlist h hroot _
  have hn : n ∉ done := (hlist ▸ hg.firstLevel).not_mem_of_append.1
  rw [hroot.value_resolveRoot_direct]
  exact h.claim hg hn hroot

theorem claimed_of_resolve (hg : c.graph.WellFormed)
    (hok : (c.resolve fractions false).value = .ok t) : c.Claimed c.graph.firstLevel t := by
  obtain ⟨_, hname⟩ := exists_scope_of_ok hok
  rw [resolve_eq hname] at hok
  exact claimed_of_resolveRoots hg List.prefix_rfl hok

end ServerFractions.Configuration
