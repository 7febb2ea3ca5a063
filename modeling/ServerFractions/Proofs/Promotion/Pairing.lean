import ServerFractions.Proofs.Promotion.Owner
import ServerFractions.Proofs.Promotion.Proper
import ServerFractions.Proofs.TopLevel.Sorted

/-!
# Roots and entries in pairs

In direct mode each root has one entry, with its direct children that carry
artifacts, and each entry has one root. No claim is ever refused, and neither
the fractions nor the order of the first level have a part in the result
(`resolve_direct`). All of it rests on the graph: a module stands in it once, so
its descriptor tells which one it is although the file is no part of its
identity.
-/

namespace ServerFractions

namespace Graph

variable {g : Graph} {n : Node} {m : Module} {s : Scope} {d : Descriptor}

theorem mem_directChildren (hm : g.module? n = some m) : d ∈ g.directChildren s n ↔
    ∃ k ∈ m.children, ∃ mk, g.module? k = some mk ∧ mk.artifacts ≠ [] ∧ d = mk.descriptor s := by
  simp only [directChildren, children_of_module? hm, List.mem_map, List.mem_filter,
    List.mem_filterMap, Bool.not_eq_true', List.isEmpty_eq_false_iff]
  constructor
  · rintro ⟨mk, ⟨⟨k, hk, hmk⟩, ha⟩, rfl⟩
    exact ⟨k, hk, mk, hmk, ha, rfl⟩
  · rintro ⟨k, hk, mk, hmk, ha, rfl⟩
    exact ⟨mk, ⟨⟨k, hk, hmk⟩, ha⟩, rfl⟩

theorem WellFormed.directChildren_inj (hg : g.WellFormed) (hm : g.module? n = some m) :
    ∀ d ∈ g.directChildren s n, ∀ e ∈ g.directChildren s n, d.identity = e.identity → d = e := by
  intro d hd e he hsame
  obtain ⟨k, _, mk, hmk, _, rfl⟩ := (mem_directChildren hm).mp hd
  obtain ⟨l, _, ml, hml, _, rfl⟩ := (mem_directChildren hm).mp he
  obtain ⟨_, rfl, _⟩ := hg.node_eq_of_identity hmk hml hsame
  rfl

end Graph

namespace Promotion

variable {g : Graph} {scopeOf : ModuleKey → Option Scope} {fractions fractions' : List ModuleKey}
  {transitive : Bool} {s : Scope} {n : Node} {m : Module} {ns : List Node} {t : TopLevel}
  {event : Event}

theorem resolveRoot_direct_congr :
    resolveRoot g fractions false s n m t = resolveRoot g fractions' false s n m t := by
  simp [resolveRoot]

theorem resolveRoots_direct_congr : resolveRoots g scopeOf fractions false ns t =
    resolveRoots g scopeOf fractions' false ns t := by
  induction ns generalizing t with
  | nil => rfl
  | cons n ns ih =>
    have hroot {s m} : resolveRoot g fractions false s n m t =
        resolveRoot g fractions' false s n m t := resolveRoot_direct_congr
    simp only [resolveRoots, ih, hroot]

/-- An event comes from one of the first-level modules, at its turn. -/
theorem exists_of_mem_events
    (h : event ∈ (resolveRoots g scopeOf fractions transitive ns t).events) :
    ∃ done n rest m s t₁, ns = done ++ n :: rest ∧
      (resolveRoots g scopeOf fractions transitive done t).value = .ok t₁ ∧
      g.module? n = some m ∧ scopeOf m.coordinates.key = some s ∧
      event ∈ (resolveRoot g fractions transitive s n m t₁).events := by
  induction ns generalizing t with
  | nil => simp [resolveRoots] at h
  | cons n ns ih =>
    cases hm : g.module? n with
    | none =>
      simp only [resolveRoots, hm] at h
      obtain ⟨done, k, rest, mk, s, t₁, rfl, hdone, hk⟩ := ih h
      exact ⟨n :: done, k, rest, mk, s, t₁, rfl, by simpa only [resolveRoots, hm] using hdone, hk⟩
    | some m =>
      cases hs : scopeOf m.coordinates.key with
      | none => simp [resolveRoots, hm, hs] at h
      | some s =>
        simp only [resolveRoots, hm, hs, Logged.events_bind, List.mem_append] at h
        rcases h with h | h
        · exact ⟨[], n, ns, m, s, t, rfl, rfl, hm, hs, h⟩
        · obtain ⟨done, k, rest, mk, s', t₁, rfl, hdone, hk⟩ := ih h
          refine ⟨n :: done, k, rest, mk, s', t₁, rfl, ?_, hk⟩
          simpa only [resolveRoots, hm, hs, Logged.value_bind] using hdone

end Promotion

namespace Configuration

open Promotion

variable {c : Configuration} {fractions fractions' : List ModuleKey} {n n' : Node} {m : Module}
  {s : Scope} {ns done rest : List Node} {e : TopLevel.Entry} {t t' : TopLevel}

-- ---------------------------------------------------------------------------
-- Pairs
-- ---------------------------------------------------------------------------

/-- The entry of a root: its direct children with artifacts, and nothing else. -/
def Heads (c : Configuration) (n : Node) (e : TopLevel.Entry) : Prop :=
  ∃ m s, c.Root n m s ∧ e.key = m.descriptor s ∧ ∀ d, d ∈ e.children ↔
    ∃ k ∈ m.children, ∃ mk, c.graph.module? k = some mk ∧ mk.artifacts ≠ [] ∧ d = mk.descriptor s

theorem Root.heads_direct (h : c.Root n m s) (hg : c.graph.WellFormed) :
    c.Heads n (c.direct n m s) := by
  refine ⟨m, s, h, rfl, fun d => ?_⟩
  rw [← Graph.mem_directChildren h.module]
  exact Descriptor.mem_insertAll_nil_of_inj (hg.directChildren_inj h.module)

theorem Heads.node_eq (h : c.Heads n e) (h' : c.Heads n' e) (hg : c.graph.WellFormed) :
    n = n' := by
  obtain ⟨m, s, hroot, hkey, _⟩ := h
  obtain ⟨m', s', hroot', hkey', _⟩ := h'
  have hsame := congrArg Descriptor.identity (hkey.symm.trans hkey')
  exact (hg.node_eq_of_identity hroot.module hroot'.module hsame).1

theorem Heads.key_eq {e' : TopLevel.Entry} (h : c.Heads n e) (h' : c.Heads n e') :
    e.key = e'.key := by
  obtain ⟨m, s, hroot, hkey, _⟩ := h
  obtain ⟨m', s', hroot', hkey', _⟩ := h'
  obtain ⟨rfl, rfl⟩ := hroot.eq hroot'
  exact hkey.trans hkey'.symm

section

variable (h : c.Claimed c.graph.firstLevel t) (hg : c.graph.WellFormed)
include h hg

theorem Claimed.existsUnique_root (he : e ∈ t.entries) : ∃! n, c.Heads n e := by
  obtain ⟨n, _, m, s, hroot, rfl⟩ := h.mem_iff.mp he
  have hheads := hroot.heads_direct hg
  exact ⟨n, hheads, fun _ hother => hother.node_eq hheads hg⟩

theorem Claimed.existsUnique_entry (hroot : c.Root n m s) :
    ∃! e, e ∈ t.entries ∧ c.Heads n e := by
  have he : c.direct n m s ∈ t.entries :=
    h.mem_iff.mpr ⟨n, hroot.firstLevel, m, s, hroot, rfl⟩
  have hheads := hroot.heads_direct hg
  refine ⟨_, ⟨he, hheads⟩, ?_⟩
  rintro e' ⟨he', hheads'⟩
  have hkey := congrArg Descriptor.identity (hheads'.key_eq hheads)
  exact List.inj_on_of_nodup_map h.distinct he' he hkey

end

-- ---------------------------------------------------------------------------
-- Claims
-- ---------------------------------------------------------------------------

/-- Each root finds its key free when its turn comes. -/
def NeverRefuses (c : Configuration) (fractions : List ModuleKey) : Prop :=
  ∀ done n rest m s, c.graph.firstLevel = done ++ n :: rest → c.Root n m s →
    ∃ t, (resolveRoots c.graph c.scope? fractions false done .empty).value = .ok t ∧
      (t.claim (m.descriptor s) (c.graph.directChildren s n)).1 = true

/-- The key is free after whatever was resolved before. -/
theorem Root.claim_of_resolveRoots (h : c.Root n m s) (hg : c.graph.WellFormed)
    (hcut : c.graph.firstLevel = done ++ n :: rest)
    (hok : (resolveRoots c.graph c.scope? fractions false done .empty).value = .ok t) :
    (t.claim (m.descriptor s) (c.graph.directChildren s n)).1 = true := by
  have hdone : done <+: c.graph.firstLevel := ⟨n :: rest, hcut.symm⟩
  have hn : n ∉ done := (hcut ▸ hg.firstLevel).not_mem_of_append.1
  have hfree := (claimed_of_resolveRoots hg hdone hok).contains_eq_false hg hn h
  simp [TopLevel.claim, hfree]

theorem neverRefuses_of_resolve (hg : c.graph.WellFormed)
    (hok : (c.resolve fractions false).value = .ok t) : c.NeverRefuses fractions := by
  obtain ⟨_, hname⟩ := exists_scope_of_ok hok
  intro done n rest m s hcut hroot
  rw [resolve_eq hname, hcut] at hok
  obtain ⟨t₁, hok₁, _⟩ := exists_resolveRoots_prefix hok
  exact ⟨t₁, hok₁, hroot.claim_of_resolveRoots hg hcut hok₁⟩

theorem not_mem_events_of_resolve (hg : c.graph.WellFormed)
    (hok : (c.resolve fractions false).value = .ok t) (x : Coordinates) :
    .alreadyTopLevel x ∉ (c.resolve fractions false).events := by
  obtain ⟨_, hname⟩ := exists_scope_of_ok hok
  rw [resolve_eq hname]
  intro hevent
  obtain ⟨done, n, rest, m, s, t₁, hcut, hok₁, hm, hs, hevent⟩ := exists_of_mem_events hevent
  unfold resolveRoot at hevent
  split at hevent
  · simp at hevent
  · rename_i hkept
    simp only [Bool.or_eq_true, beq_iff_eq, List.isEmpty_iff, not_or] at hkept
    have hroot : c.Root n m s := ⟨by simp [hcut], hm, hs, hkept.1, hkept.2⟩
    have hclaim := hroot.claim_of_resolveRoots hg hcut hok₁
    simp [hclaim] at hevent

-- ---------------------------------------------------------------------------
-- Order and fractions
-- ---------------------------------------------------------------------------

theorem resolve_direct_congr : c.resolve fractions' false = c.resolve fractions false := by
  unfold resolve
  split
  · rfl
  · exact resolveRoots_direct_congr

theorem rearranges_only (hns : ns.Perm c.graph.firstLevel) : c.Rearranges (c.only ns) where
  name := rfl
  hierarchy := rfl
  graph := ⟨rfl, hns, fun _ => .refl _, fun {_ m} hm => ⟨m.children, hm⟩⟩

theorem root_only_iff (hns : ns.Perm c.graph.firstLevel) :
    (c.only ns).Root n m s ↔ c.Root n m s := by
  constructor
  · intro h
    exact ⟨hns.mem_iff.mp h.firstLevel, h.module, h.scope, h.imported, h.artifacts⟩
  · intro h
    exact ⟨hns.mem_iff.mpr h.firstLevel, h.module, h.scope, h.imported, h.artifacts⟩

theorem Claimed.nodup (h : c.Claimed done t) : t.entries.Nodup :=
  .of_map _ h.distinct

/-- Both results have the same entries, each of them once. -/
theorem Claimed.perm (h : c.Claimed c.graph.firstLevel t) (h' : (c.only ns).Claimed ns t')
    (hns : ns.Perm c.graph.firstLevel) : t'.entries.Perm t.entries := by
  rw [List.perm_ext_iff_of_nodup h'.nodup h.nodup]
  intro e
  rw [h'.mem_iff, h.mem_iff]
  simp only [root_only_iff hns, hns.mem_iff]
  rfl

/-- Each root has one entry and each entry one root; no claim is refused, the
fractions are not asked, and the order of the first level decides nothing but
the order of the entries. -/
theorem resolve_direct (hb : c.graph.Built) (hok : (c.resolve fractions false).value = .ok t) :
    (t.Proper ∧ (∀ e ∈ t.entries, ∃! n, c.Heads n e) ∧
      ∀ n m s, c.Root n m s → ∃! e, e ∈ t.entries ∧ c.Heads n e) ∧
    (c.NeverRefuses fractions ∧ ∀ x, .alreadyTopLevel x ∉ (c.resolve fractions false).events) ∧
    ∀ fractions', c.resolve fractions' false = c.resolve fractions false ∧
      ∀ ns, ns.Perm c.graph.firstLevel →
        ∃ t', ((c.only ns).resolve fractions' false).value = .ok t' ∧
          t'.entries.Perm t.entries ∧ t'.sorted = t.sorted := by
  have hg := hb.wellFormed
  have h := claimed_of_resolve hg hok
  refine ⟨⟨proper_of_resolve hok, fun _ he => h.existsUnique_root hg he,
    fun _ _ _ hroot => h.existsUnique_entry hg hroot⟩,
    ⟨neverRefuses_of_resolve hg hok, not_mem_events_of_resolve hg hok⟩,
    fun fractions' => ⟨resolve_direct_congr, fun ns hns => ?_⟩⟩
  have hrearranges := rearranges_only hns
  have hresolve : (c.only ns).resolve fractions' false = (c.only ns).resolve fractions false :=
    resolve_direct_congr
  rw [hresolve]
  obtain ⟨t', hok'⟩ := hrearranges.exists_ok ⟨t, hok⟩
  have hperm : t'.entries.Perm t.entries :=
    h.perm (claimed_of_resolve (hrearranges.graph.wellFormed hg) hok') hns
  have hsame : t.Rearranges t' :=
    ⟨t.entries, List.forall₂_same.mpr fun _ _ => ⟨rfl, .refl _⟩, hperm.symm⟩
  exact ⟨t', hok', hperm, hsame.sorted_eq (proper_of_resolve hok)⟩

/-- Two roots that are children of each other, the first one of itself as well.
It also leads to a platform, and the second one to a library. -/
def entangled : Configuration where
  name := "runtimeClasspath"
  hierarchy := [⟨"runtimeClasspath", [.ofParts "org.acme" "app", .ofParts "org.acme" "tool"]⟩]
  graph := {
    modules := #[
      ⟨⟨"org.acme", "app", "1"⟩, [{}], [0, 1, 2]⟩,
      ⟨⟨"org.acme", "tool", "1"⟩, [{}], [0, 3]⟩,
      ⟨⟨"org.acme", "bom", "1"⟩, [], []⟩,
      ⟨⟨"org.acme", "util", "1"⟩, [{}], []⟩]
    firstLevel := [0, 1] }

/-- The entry of `app` lists `app` and `tool`, which is a fraction here, and not
the platform. With `tool` first the canonical view is the same. -/
theorem entangled_direct : ∃ t,
    (entangled.resolve [.ofParts "org.acme" "tool"] false).value = .ok t ∧
    (∃ e ∈ t.entries, e.key = .ofArtifact .runtime ⟨"org.acme", "app", "1"⟩ {} ∧
      ∀ d, d ∈ e.children ↔ d = .ofArtifact .runtime ⟨"org.acme", "app", "1"⟩ {} ∨
        d = .ofArtifact .runtime ⟨"org.acme", "tool", "1"⟩ {}) ∧
    ∃ t', ((entangled.only [1, 0]).resolve [] false).value = .ok t' ∧ t'.sorted = t.sorted := by
  have hb : entangled.graph.Built := Graph.built_iff_wellFormed.mpr (by decide)
  obtain ⟨t, hok⟩ :
      ∃ t, (entangled.resolve [.ofParts "org.acme" "tool"] false).value = .ok t :=
    exists_ok_of_declared (by decide) (by decide)
  obtain ⟨⟨_, _, hentry⟩, _, hsame⟩ := resolve_direct hb hok
  have hroot : entangled.Root 0 ⟨⟨"org.acme", "app", "1"⟩, [{}], [0, 1, 2]⟩ .runtime :=
    ⟨by simp [entangled], rfl, by decide, by decide, by simp⟩
  obtain ⟨e, ⟨he, m, s, hroot', hkey, hchildren⟩, _⟩ := hentry _ _ _ hroot
  obtain ⟨rfl, rfl⟩ := hroot.eq hroot'
  obtain ⟨t', hok', _, hsorted⟩ := (hsame []).2 [1, 0] (.swap 0 1 [])
  refine ⟨t, hok, ⟨e, he, hkey, fun d => ?_⟩, t', hok', hsorted⟩
  rw [hchildren]
  simp [entangled, Graph.module?, Module.descriptor, Descriptor.ofModule]

end Configuration

end ServerFractions
