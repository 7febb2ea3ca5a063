import ServerFractions.Proofs.Promotion.Keys

/-!
# Who makes the entry of a fraction

Of the roots with one scope the earliest that meets a fraction makes its entry,
and later ones leave it as it is. Roots with another scope do not see that
entry, since a key has a scope: they make one more for the same module
(`split_not_oncePerModule`). So a result has one entry for each module exactly
when no fraction is met with two scopes (`resolve_owner`).
-/

namespace ServerFractions

/-- No two entries stand for the same module, whatever their scopes. -/
def TopLevel.OncePerModule (t : TopLevel) : Prop :=
  ∀ e ∈ t.entries, ∀ e' ∈ t.entries, e.key.coordinates = e'.key.coordinates → e = e'

-- ---------------------------------------------------------------------------
-- Shorter first levels
-- ---------------------------------------------------------------------------

/-- The graph with `ns` as its first level. -/
def Graph.only (g : Graph) (ns : List Node) : Graph :=
  { g with firstLevel := ns }

namespace Promotion

variable {g : Graph} {scopeOf : ModuleKey → Option Scope} {fractions : List ModuleKey}
  {transitive : Bool} {s : Scope} {d : Descriptor} {n : Node} {m : Module} {ns rest : List Node}
  {steps : Nat} {st : State} {t t' : TopLevel}

/-- A walk does not look at the first level. -/
theorem Walk.visit_only : (Walk.mk (g.only ns) fractions s d).visit steps n st =
    (Walk.mk g fractions s d).visit steps n st := by
  induction steps generalizing n st with
  | zero => rfl
  | succ steps ih =>
    simp only [visit, ih]
    rfl

theorem resolveRoot_only : resolveRoot (g.only ns) fractions transitive s n m t =
    resolveRoot g fractions transitive s n m t := by
  simp only [resolveRoot, Walk.visit_only]
  rfl

theorem resolveRoots_only : resolveRoots (g.only ns) scopeOf fractions transitive rest t =
    resolveRoots g scopeOf fractions transitive rest t := by
  induction rest generalizing t with
  | nil => rfl
  | cons n rest ih =>
    simp only [resolveRoots, ih, resolveRoot_only]
    rfl

/-- What comes first goes well, and reports nothing that the whole does not. -/
theorem exists_resolveRoots_prefix
    (hok : (resolveRoots g scopeOf fractions transitive (ns ++ rest) t).value = .ok t') :
    ∃ t₁, (resolveRoots g scopeOf fractions transitive ns t).value = .ok t₁ ∧
      (resolveRoots g scopeOf fractions transitive ns t).events ⊆
        (resolveRoots g scopeOf fractions transitive (ns ++ rest) t).events := by
  induction ns generalizing t with
  | nil => exact ⟨t, rfl, by simp [resolveRoots]⟩
  | cons n ns ih =>
    rw [List.cons_append] at hok ⊢
    cases hm : g.module? n with
    | none =>
      simp only [resolveRoots, hm] at hok ⊢
      exact ih hok
    | some m =>
      cases hscope : scopeOf m.coordinates.key with
      | none => simp [resolveRoots, hm, hscope] at hok
      | some s =>
        simp only [resolveRoots, hm, hscope, Logged.value_bind, Logged.events_bind] at hok ⊢
        obtain ⟨t₁, ht₁, hevents⟩ := ih hok
        exact ⟨t₁, ht₁, List.append_subset.mpr ⟨List.subset_append_left _ _,
          List.subset_append_of_subset_right _ hevents⟩⟩

end Promotion

namespace Configuration

open Promotion

variable {c : Configuration} {fractions : List ModuleKey} {full : Prop} {n n' f : Node}
  {m m' mf : Module} {s s' : Scope} {done : List Node} {e : TopLevel.Entry} {t : TopLevel}

/-- The configuration with `done` as its first level. -/
def only (c : Configuration) (done : List Node) : Configuration :=
  { c with graph := c.graph.only done }

theorem Meets.only (h : c.Meets fractions n m s f mf) (hn : n ∈ done) :
    (c.only done).Meets fractions n m s f mf where
  root := ⟨hn, h.root.module, h.root.scope, h.root.imported, h.root.artifacts⟩
  via := h.via
  module := h.module
  fraction := h.fraction

theorem Meets.of_only (h : (c.only done).Meets fractions n m s f mf)
    (hdone : done ⊆ c.graph.firstLevel) : c.Meets fractions n m s f mf where
  root := ⟨hdone h.root.firstLevel, h.root.module, h.root.scope, h.root.imported, h.root.artifacts⟩
  via := h.via
  module := h.module
  fraction := h.fraction

theorem wellFormed_only (hg : c.graph.WellFormed) (hdone : done <+: c.graph.firstLevel) :
    (c.only done).graph.WellFormed where
  coordinates_inj := hg.coordinates_inj
  children := hg.children
  firstLevel := ⟨hg.firstLevel.nodup.sublist hdone.sublist,
    fun x hx => hg.firstLevel.lt x (hdone.subset hx)⟩

theorem exists_only_ok (hok : (c.resolve fractions true).value = .ok t)
    (hdone : done <+: c.graph.firstLevel) :
    ∃ t₁, ((c.only done).resolve fractions true).value = .ok t₁ ∧
      (c.WithinDepth fractions → (c.only done).WithinDepth fractions) := by
  obtain ⟨rest, hrest⟩ := hdone
  obtain ⟨_, hname⟩ := exists_scope_of_ok hok
  have hfewer : (c.only done).resolve fractions true =
      resolveRoots c.graph c.scope? fractions true done .empty :=
    (resolve_eq (c := c.only done) hname true).trans resolveRoots_only
  rw [resolve_eq hname, ← hrest] at hok
  obtain ⟨t₁, hok₁, hevents⟩ := exists_resolveRoots_prefix hok
  refine ⟨t₁, by rw [hfewer, hok₁], fun hdepth => ?_⟩
  rw [WithinDepth, resolve_eq hname, ← hrest] at hdepth
  rw [WithinDepth, hfewer]
  exact hdepth.mono hevents

-- ---------------------------------------------------------------------------
-- The entries of fractions
-- ---------------------------------------------------------------------------

/-- No fraction is met with two scopes. -/
def OneScopeEach (c : Configuration) (fractions : List ModuleKey) : Prop :=
  ∀ {n n' m m' s s' f mf}, c.Meets fractions n m s f mf → c.Meets fractions n' m' s' f mf → s = s'

/-- The root `n` meets the fraction, and no root with its scope among `earlier`
has met it. -/
structure MeetsFirst (c : Configuration) (fractions : List ModuleKey) (earlier : List Node)
    (n : Node) (m : Module) (s : Scope) (f : Node) (mf : Module) : Prop
    extends c.Meets fractions n m s f mf where
  first : ∀ k ∈ earlier, ∀ mk, ¬ c.Meets fractions k mk s f mf

/-- Every entry is that of a root which is no fraction, or of a fraction that is met. -/
theorem Origin.stands (h : c.Origin fractions full done e) : ∃ n m s,
    c.graph.module? n = some m ∧ e.key = m.descriptor s ∧
      (c.Root n m s ∧ m.coordinates.key ∉ fractions ∨ ∃ k mk, c.Meets fractions k mk s n m) := by
  cases h with
  | nest _ h => exact ⟨_, _, _, h.root.module, h.key, .inl ⟨h.root, h.plain⟩⟩
  | lift _ h he => exact ⟨_, _, _, h.module, congrArg (·.key) he, .inr ⟨_, _, h⟩⟩

section

variable (h : c.Settled fractions full c.graph.firstLevel t) (hg : c.graph.WellFormed)
include h hg

/-- The entry of a fraction is the same whichever root makes it. -/
theorem Settled.lifted_mem (hfull : full) (hmeets : c.Meets fractions n m s f mf) :
    c.lifted s f mf ∈ t.entries := by
  obtain ⟨e, he, hkey⟩ := TopLevel.mem_keys.mp (h.met hfull hmeets.root.firstLevel hmeets)
  exact h.eq_lifted hg he hmeets.module hmeets.fraction (congrArg Descriptor.identity hkey) ▸ he

theorem Settled.exists_meets (hf : c.graph.module? f = some mf)
    (hfraction : mf.coordinates.key ∈ fractions)
    (hcontains : t.contains (mf.descriptor s) = true) : ∃ n m, c.Meets fractions n m s f mf := by
  obtain ⟨e, he, hsame⟩ := TopLevel.contains_iff.mp hcontains
  obtain ⟨n, m, s', hm, hkey, horigin⟩ := (h.origin e he).stands
  rw [hkey] at hsame
  obtain ⟨rfl, rfl, rfl⟩ := hg.node_eq_of_identity hm hf hsame
  exact horigin.resolve_left fun hroot => hroot.2 hfraction

theorem Settled.oncePerModule (hone : c.OneScopeEach fractions) : t.OncePerModule := by
  intro e he e' he' hsame
  obtain ⟨n, m, s, hm, hkey, horigin⟩ := (h.origin e he).stands
  obtain ⟨n', m', s', hm', hkey', horigin'⟩ := (h.origin e' he').stands
  rw [hkey, hkey'] at hsame
  obtain rfl := hg.coordinates_inj hm hm' hsame
  cases hm.symm.trans hm'
  have hscope : s = s' := by
    rcases horigin with ⟨hroot, hplain⟩ | ⟨_, _, hmeets⟩
    · rcases horigin' with ⟨hroot', _⟩ | ⟨_, _, hmeets'⟩
      · exact (hroot.eq hroot').2
      · exact absurd hmeets'.fraction hplain
    · rcases horigin' with ⟨_, hplain'⟩ | ⟨_, _, hmeets'⟩
      · exact absurd hmeets.fraction hplain'
      · exact hone hmeets hmeets'
  subst hscope
  exact List.inj_on_of_nodup_map h.distinct he he' (by rw [hkey, hkey'])

theorem Settled.oneScopeEach (hfull : full) (honce : t.OncePerModule) :
    c.OneScopeEach fractions := by
  intro n n' m m' s s' f mf hmeets hmeets'
  have heq := honce _ (h.lifted_mem hg hfull hmeets) _ (h.lifted_mem hg hfull hmeets') rfl
  exact congrArg (·.key.scope) heq

end

/-- A result has one entry for each module exactly when no fraction is met with
two scopes. For each scope the entry of a fraction is there once the first root
with that scope that meets it was taken, and it stays as it is. -/
theorem resolve_owner (hb : c.graph.Built) (hok : (c.resolve fractions true).value = .ok t) :
    (c.OneScopeEach fractions → t.OncePerModule) ∧
    (c.WithinDepth fractions → t.OncePerModule → c.OneScopeEach fractions) ∧
    (c.WithinDepth fractions → ∀ earlier n later m s f mf,
      c.graph.firstLevel = earlier ++ n :: later → c.MeetsFirst fractions earlier n m s f mf →
      ∃ t₁ t₂, ((c.only earlier).resolve fractions true).value = .ok t₁ ∧
        ((c.only (earlier ++ [n])).resolve fractions true).value = .ok t₂ ∧
        t₁.contains (mf.descriptor s) = false ∧ c.lifted s f mf ∈ t₂.entries ∧
        c.lifted s f mf ∈ t.entries) := by
  have hg := hb.wellFormed
  have h := settled_of_resolve hg hok
  refine ⟨h.oncePerModule hg, fun hdepth => h.oneScopeEach hg hdepth, ?_⟩
  intro hdepth earlier n later m s f mf hfirst hmeets
  have hbefore : earlier <+: c.graph.firstLevel := ⟨n :: later, hfirst.symm⟩
  have hafter : earlier ++ [n] <+: c.graph.firstLevel := ⟨later, by simp [hfirst]⟩
  obtain ⟨t₁, hok₁, _⟩ := exists_only_ok hok hbefore
  obtain ⟨t₂, hok₂, hdepth₂⟩ := exists_only_ok hok hafter
  have h₁ := settled_of_resolve (wellFormed_only hg hbefore) hok₁
  have h₂ := settled_of_resolve (wellFormed_only hg hafter) hok₂
  refine ⟨t₁, t₂, hok₁, hok₂, ?_, ?_, h.lifted_mem hg hdepth hmeets.toMeets⟩
  · rw [← Bool.not_eq_true]
    intro hcontains
    obtain ⟨k, mk, hk⟩ :=
      h₁.exists_meets (wellFormed_only hg hbefore) hmeets.module hmeets.fraction hcontains
    exact hmeets.first k hk.root.firstLevel mk (hk.of_only hbefore.subset)
  · exact h₂.lifted_mem (wellFormed_only hg hafter) (hdepth₂ hdepth)
      (hmeets.toMeets.only (by simp))

/-- Both roots of `cyclic` meet `jaxrs`, with the same scope: `app` makes the
entry. -/
theorem cyclic_owner : ∃ t t₁ t₂, (cyclic.resolve cyclicFractions true).value = .ok t ∧
    ((cyclic.only []).resolve cyclicFractions true).value = .ok t₁ ∧
    ((cyclic.only [0]).resolve cyclicFractions true).value = .ok t₂ ∧
    t.OncePerModule ∧
    t₁.contains (.ofArtifact .runtime ⟨"io.thorntail", "jaxrs", "1"⟩ {}) = false ∧
    ∃ e ∈ t₂.entries, e ∈ t.entries ∧
      e.key = .ofArtifact .runtime ⟨"io.thorntail", "jaxrs", "1"⟩ {} := by
  obtain ⟨t, hok⟩ := cyclic_ok
  have hruntime : ∀ n m s, cyclic.Root n m s → s = .runtime := by
    intro n m s hroot
    have hn : n ∈ [0, 4] := hroot.firstLevel
    rcases List.mem_pair.mp hn with rfl | rfl
    · exact (hroot.eq cyclic_root_app).2
    · exact (hroot.eq cyclic_root_tool).2
  obtain ⟨honce, _, hfirst⟩ := resolve_owner cyclic_built hok
  obtain ⟨t₁, t₂, hok₁, hok₂, hnew, hmade, hkept⟩ :=
    hfirst cyclic_withinDepth [] 0 [4] _ _ _ _ rfl ⟨cyclic_meets_jaxrs, by simp⟩
  refine ⟨t, t₁, t₂, hok, hok₁, hok₂, honce ?_, hnew, _, hmade, hkept, rfl⟩
  intro n n' m m' s s' f mf hmeets hmeets'
  rw [hruntime _ _ _ hmeets.root, hruntime _ _ _ hmeets'.root]

/-- Two roots with different scopes that lead to the same fraction. -/
def split : Configuration where
  name := "runtimeClasspath"
  hierarchy := [⟨"runtimeClasspath", [.ofParts "org.acme" "first"]⟩,
    ⟨"compileOnly", [.ofParts "org.acme" "second"]⟩]
  graph := {
    modules := #[
      ⟨⟨"org.acme", "first", "1"⟩, [{}], [2]⟩,
      ⟨⟨"org.acme", "second", "1"⟩, [{}], [2]⟩,
      ⟨⟨"io.thorntail", "cdi", "1"⟩, [{}], []⟩]
    firstLevel := [0, 1] }

theorem split_built : split.graph.Built :=
  Graph.built_iff_wellFormed.mpr (by decide)

theorem split_root_first : split.Root 0 ⟨⟨"org.acme", "first", "1"⟩, [{}], [2]⟩ .runtime :=
  ⟨by simp [split], rfl, by decide, by simp, by simp⟩

theorem split_root_second : split.Root 1 ⟨⟨"org.acme", "second", "1"⟩, [{}], [2]⟩ .provided :=
  ⟨by simp [split], rfl, by decide, by simp, by simp⟩

/-- `first` makes an entry of `cdi` as a runtime dependency, and `second` one
more of it as a provided dependency. -/
theorem split_not_oncePerModule : split.graph.Built ∧
    ∃ t, (split.resolve [.ofParts "io.thorntail" "cdi"] true).value = .ok t ∧
      ¬ t.OncePerModule := by
  obtain ⟨t, hok⟩ : ∃ t, (split.resolve [.ofParts "io.thorntail" "cdi"] true).value = .ok t :=
    exists_ok_of_declared (by decide) (by decide)
  have h := settled_of_resolve split_built.wellFormed hok
  refine ⟨split_built, t, hok, fun honce => ?_⟩
  have hcdi : split.graph.module? 2 = some ⟨⟨"io.thorntail", "cdi", "1"⟩, [{}], []⟩ := rfl
  have hone : split.OneScopeEach [.ofParts "io.thorntail" "cdi"] :=
    h.oneScopeEach split_built.wellFormed (.inl (by decide)) honce
  have hsame : Scope.runtime = .provided :=
    hone (split_root_first.meets_child (by decide) (.head _) hcdi (.head _))
      (split_root_second.meets_child (by decide) (.head _) hcdi (.head _))
  cases hsame

end Configuration

end ServerFractions
