import ServerFractions.Proofs.Configuration
import ServerFractions.Proofs.Promotion.Depth

/-!
# All first-level dependencies

`Settled` says what the entries are after the first-level modules `done`, and
each further one keeps it (`Settled.skip`, `Settled.walked`): where every entry
comes from and which entries there must be. What a walk left out because it
was an entry already was put there by an earlier walk with the same scope.
`settled_of_resolve` says it of a finished resolution.
-/

namespace ServerFractions.Configuration

open Promotion

variable {c : Configuration} {fractions : List ModuleKey} {full : Prop}
  {n x f : Node} {m m' mx mf : Module} {s s' : Scope} {d : Descriptor} {e : TopLevel.Entry}
  {earlier done rest : List Node} {t t' : TopLevel}

-- ---------------------------------------------------------------------------
-- Roots and paths
-- ---------------------------------------------------------------------------

/-- The scope of a dependency that some configuration of the hierarchy declares. -/
def scope? (c : Configuration) (key : ModuleKey) : Option Scope :=
  (Scope.ofConfiguration? c.name).bind (assignedScope c.hierarchy · key)

theorem scope?_eq_some_iff {key : ModuleKey} : c.scope? key = some s ↔
    ∃ fallback, Scope.ofConfiguration? c.name = some fallback ∧
      ∃ d, LastDeclares c.hierarchy key d ∧ Scope.ofConfiguration d.name fallback = s := by
  simp only [scope?, Option.bind_eq_some_iff, assignedScope_eq_some_iff]

/-- A first-level module that is not skipped, with its scope. -/
structure Root (c : Configuration) (n : Node) (m : Module) (s : Scope) : Prop where
  firstLevel : n ∈ c.graph.firstLevel
  module : c.graph.module? n = some m
  scope : c.scope? m.coordinates.key = some s
  imported : s ≠ .platform
  artifacts : m.artifacts ≠ []

/-- The module at `n` is no fraction. -/
def Plain (c : Configuration) (fractions : List ModuleKey) (n : Node) : Prop :=
  ∃ m, c.graph.module? n = some m ∧ m.coordinates.key ∉ fractions

/-- The module at `n` is no fraction, and no root with scope `s` among `earlier`. -/
def Clear (c : Configuration) (fractions : List ModuleKey) (earlier : List Node) (s : Scope)
    (n : Node) : Prop :=
  ∃ m, c.graph.module? n = some m ∧ m.coordinates.key ∉ fractions ∧
    ¬ (n ∈ earlier ∧ c.Root n m s)

theorem Clear.plain (h : c.Clear fractions earlier s n) : c.Plain fractions n := by
  obtain ⟨m, hm, hplain, _⟩ := h
  exact ⟨m, hm, hplain⟩

theorem root_of_not_clear (h : ¬ c.Clear fractions earlier s n) (hm : c.graph.module? n = some m)
    (hplain : m.coordinates.key ∉ fractions) : n ∈ earlier ∧ c.Root n m s := by
  by_contra hnone
  exact h ⟨m, hm, hplain, hnone⟩

theorem Root.eq (h : c.Root n m s) (h' : c.Root n m' s') : m = m' ∧ s = s' := by
  cases h.module.symm.trans h'.module
  exact ⟨rfl, Option.some.inj (h.scope.symm.trans h'.scope)⟩

-- ---------------------------------------------------------------------------
-- Entries
-- ---------------------------------------------------------------------------

/-- A module with artifacts that a path of clear modules leads to, as a descriptor. -/
def Below (c : Configuration) (fractions : List ModuleKey) (earlier : List Node) (s : Scope)
    (n : Node) (d : Descriptor) : Prop :=
  ∃ k m, ReachesVia c.graph.children (c.Clear fractions earlier s) n k ∧
    c.Clear fractions earlier s k ∧ c.graph.module? k = some m ∧ m.artifacts ≠ [] ∧
    d = m.descriptor s

/-- The entry of a root that is no fraction, where the roots `earlier` came
before it. With `full` nothing is missing from it. -/
structure Nest (c : Configuration) (fractions : List ModuleKey) (full : Prop)
    (earlier : List Node) (n : Node) (m : Module) (s : Scope) (e : TopLevel.Entry) : Prop where
  root : c.Root n m s
  plain : m.coordinates.key ∉ fractions
  key : e.key = m.descriptor s
  own : m.descriptor s ∈ e.children
  sound : ∀ d ∈ e.children, c.Below fractions earlier s n d
  complete : full → ∀ d, c.Below fractions earlier s n d → d ∈ e.children

/-- The fraction `f` as it is met from the root `n`. -/
structure Meets (c : Configuration) (fractions : List ModuleKey) (n : Node) (m : Module)
    (s : Scope) (f : Node) (mf : Module) : Prop where
  root : c.Root n m s
  via : ReachesVia c.graph.children (c.Plain fractions) n f
  module : c.graph.module? f = some mf
  fraction : mf.coordinates.key ∈ fractions

theorem Root.meets_child (h : c.Root n m s) (hplain : m.coordinates.key ∉ fractions)
    (hchild : f ∈ m.children) (hf : c.graph.module? f = some mf)
    (hfraction : mf.coordinates.key ∈ fractions) : c.Meets fractions n m s f mf where
  root := h
  via := .single ⟨⟨m, h.module, hplain⟩, Graph.children_of_module? h.module ▸ hchild⟩
  module := hf
  fraction := hfraction

/-- The entry of a fraction. -/
def lifted (c : Configuration) (s : Scope) (f : Node) (mf : Module) : TopLevel.Entry :=
  ⟨mf.descriptor s, Descriptor.insertAll (c.graph.descendants s f) []⟩

/-- Where an entry comes from when the first-level modules `done` were taken. -/
inductive Origin (c : Configuration) (fractions : List ModuleKey) (full : Prop)
    (done : List Node) (e : TopLevel.Entry) : Prop
  | nest {earlier later : List Node} {n : Node} {m : Module} {s : Scope}
    (hdone : done = earlier ++ n :: later) (h : c.Nest fractions full earlier n m s e)
  | lift {n f : Node} {m mf : Module} {s : Scope} (hn : n ∈ done)
    (h : c.Meets fractions n m s f mf) (he : e = c.lifted s f mf)

/-- The entries after the first-level modules `done`. -/
structure Settled (c : Configuration) (fractions : List ModuleKey) (full : Prop)
    (done : List Node) (t : TopLevel) : Prop where
  distinct : t.Distinct
  origin : ∀ e ∈ t.entries, c.Origin fractions full done e
  rooted : ∀ {n m s}, n ∈ done → c.Root n m s → m.descriptor s ∈ t.keys
  met : full → ∀ {n m s f mf}, n ∈ done → c.Meets fractions n m s f mf → mf.descriptor s ∈ t.keys

theorem Settled.empty : c.Settled fractions full [] .empty where
  distinct := by simp [TopLevel.empty, TopLevel.Distinct]
  origin := by simp [TopLevel.empty]
  rooted := by simp
  met := by simp

theorem Origin.append (h : c.Origin fractions full done e) :
    c.Origin fractions full (done ++ rest) e := by
  cases h with
  | nest hdone h => exact .nest (by rw [hdone, List.append_assoc, List.cons_append]) h
  | lift hn h he => exact .lift (List.mem_append_left _ hn) h he

/-- The identity of a key tells which module and which scope it stands for. -/
theorem Origin.key_eq (h : c.Origin fractions full done e) (hg : c.graph.WellFormed)
    (hx : c.graph.module? x = some mx) (hkey : e.key.identity = (mx.descriptor s).identity) :
    e.key = mx.descriptor s ∧ ((x ∈ done ∧ c.Root x mx s) ∨ mx.coordinates.key ∈ fractions) := by
  cases h with
  | nest hdone h =>
    rw [h.key] at hkey
    obtain ⟨rfl, rfl, rfl⟩ := hg.node_eq_of_identity h.root.module hx hkey
    exact ⟨h.key, .inl ⟨by simp [hdone], h.root⟩⟩
  | lift hn h he =>
    subst he
    obtain ⟨rfl, rfl, rfl⟩ := hg.node_eq_of_identity h.module hx hkey
    exact ⟨rfl, .inr h.fraction⟩

theorem Settled.mem_keys_of_contains (h : c.Settled fractions full done t)
    (hg : c.graph.WellFormed) (hx : c.graph.module? x = some mx)
    (hcontains : t.contains (mx.descriptor s) = true) : mx.descriptor s ∈ t.keys := by
  obtain ⟨e, he, hkey⟩ := TopLevel.contains_iff.mp hcontains
  exact TopLevel.mem_keys.mpr ⟨e, he, ((h.origin e he).key_eq hg hx hkey).1⟩

/-- Of the modules that are no fractions, exactly the roots stop a later walk. -/
theorem Settled.contains_iff_root (h : c.Settled fractions full done t) (hg : c.graph.WellFormed)
    (hx : c.graph.module? x = some mx) (hplain : mx.coordinates.key ∉ fractions) :
    t.contains (mx.descriptor s) = true ↔ x ∈ done ∧ c.Root x mx s := by
  constructor
  · intro hcontains
    obtain ⟨e, he, hkey⟩ := TopLevel.contains_iff.mp hcontains
    exact ((h.origin e he).key_eq hg hx hkey).2.resolve_right hplain
  · exact fun hroot => TopLevel.contains_of_mem_keys (h.rooted hroot.1 hroot.2)

-- ---------------------------------------------------------------------------
-- One step: a further first-level module
-- ---------------------------------------------------------------------------

/-- The walk from a root. -/
def walk (c : Configuration) (fractions : List ModuleKey) (m : Module) (s : Scope) : Walk where
  graph := c.graph
  fractions := fractions
  scope := s
  root := m.descriptor s

/-- The state after the walk from a root. -/
def walked (c : Configuration) (fractions : List ModuleKey) (n : Node) (m : Module) (s : Scope)
    (t : TopLevel) : State :=
  (c.walk fractions m s).visit depthLimit n { result := t }

theorem Root.resolveRoot_eq (h : c.Root n m s) :
    resolveRoot c.graph fractions true s n m t =
      ⟨(c.walked fractions n m s t).result, (c.walked fractions n m s t).events⟩ := by
  simp [resolveRoot, h.imported, h.artifacts, walked, walk]

theorem Settled.open_iff (h : c.Settled fractions full done t) (hg : c.graph.WellFormed) :
    (c.walk fractions m s).Open t x ↔ c.Clear fractions done s x := by
  constructor
  · rintro ⟨mx, hx, hfresh, hplain⟩
    refine ⟨mx, hx, hplain, fun hroot => ?_⟩
    have := (h.contains_iff_root hg hx hplain).mpr hroot
    simp_all [walk]
  · rintro ⟨mx, hx, hplain, hroot⟩
    refine ⟨mx, hx, ?_, hplain⟩
    rw [← Bool.not_eq_true]
    exact fun hc => hroot ((h.contains_iff_root hg hx hplain).mp hc)

theorem Settled.skip (h : c.Settled fractions full done t) (hskip : ∀ m s, ¬ c.Root n m s) :
    c.Settled fractions full (done ++ [n]) t where
  distinct := h.distinct
  origin e he := (h.origin e he).append
  rooted {k m s} hk hroot := by
    rcases List.mem_append.mp hk with hk | hk
    · exact h.rooted hk hroot
    · exact absurd (List.mem_singleton.mp hk ▸ hroot) (hskip m s)
  met hfull {k m s f mf} hk hmeets := by
    rcases List.mem_append.mp hk with hk | hk
    · exact h.met hfull hk hmeets
    · exact absurd (List.mem_singleton.mp hk ▸ hmeets.root) (hskip m s)

section

variable (h : c.Settled fractions full done t) (hg : c.graph.WellFormed) (hroot : c.Root n m s)
include h hg hroot

theorem Settled.starts : (c.walk fractions m s).Starts t n m :=
  ⟨hg, h.distinct, hroot.module, rfl⟩

theorem Settled.inv_walked : (c.walk fractions m s).Inv t n (c.walked fractions n m s t) :=
  (h.starts hg hroot).inv_final

theorem Settled.origin_walked
    (hall : full → Untruncated c.graph (c.walked fractions n m s t).events)
    (he : e ∈ (c.walked fractions n m s t).result.entries) :
    c.Origin fractions full (done ++ [n]) e := by
  have hs := h.starts hg hroot
  have hinv := h.inv_walked hg hroot
  rcases hinv.holds.origin e he with hold | ⟨⟨_, hopen⟩, hnest⟩ | ⟨f, hf, mf, hlift, rfl⟩
  · exact (h.origin e hold).append
  · obtain ⟨m', hm'⟩ := hopen
    cases hroot.module.symm.trans hm'.module
    have hown : m.descriptor s ∈ e.children :=
      (hnest.children _).mpr ⟨n, hs.root_mem, m, hm', hroot.artifacts, rfl⟩
    refine .nest rfl ⟨hroot, hm'.plain, hnest.key, hown, fun d hd => ?_, fun hfull d hd => ?_⟩
    · obtain ⟨k, hk, mk, hmk, ha, rfl⟩ := (hnest.children d).mp hd
      exact ⟨k, mk, (hinv.trail.via k hk).mono fun _ => (h.open_iff hg).mp,
        (h.open_iff hg).mp ⟨mk, hmk⟩, hmk.module, ha, rfl⟩
    · obtain ⟨k, mk, hvia, hclear, hmk, ha, rfl⟩ := hd
      obtain ⟨mk', hopens⟩ := (h.open_iff hg).mpr hclear
      cases hmk.symm.trans hopens.module
      have hk := hs.mem_of_via (hall hfull) (hvia.mono fun _ => (h.open_iff hg).mpr)
      exact (hnest.children _).mpr ⟨k, hk, mk, hopens, ha, rfl⟩
  · have hvia : ReachesVia c.graph.children (c.Plain fractions) n f :=
      (hinv.trail.via f hf).mono fun _ hx => ((h.open_iff hg).mp hx).plain
    exact .lift (by simp) ⟨hroot, hvia, hlift.module, hlift.fraction⟩ rfl

theorem Settled.key_walked : m.descriptor s ∈ (c.walked fractions n m s t).result.keys := by
  have hs := h.starts hg hroot
  have hinv := h.inv_walked hg hroot
  cases hfresh : t.contains (m.descriptor s) with
  | true => exact hinv.holds.mem_keys (h.mem_keys_of_contains hg hroot.module hfresh)
  | false =>
    by_cases hfraction : m.coordinates.key ∈ fractions
    · exact TopLevel.mem_keys.mpr ⟨_, hinv.holds.lifted n hs.root_mem _
        ⟨m, ⟨hroot.module, hfresh, hfraction⟩, rfl⟩, rfl⟩
    · exact hinv.holds.nested n hs.root_mem _
        ⟨m, ⟨hroot.module, hfresh, hfraction⟩, hroot.artifacts, rfl⟩

/-- A fraction is an entry after the walk that meets it. Where the walk was cut
off before, an earlier root with the same scope has met it. -/
theorem Settled.met_walked (hfull : full)
    (hall : Untruncated c.graph (c.walked fractions n m s t).events)
    (hmeets : c.Meets fractions n m s f mf) :
    mf.descriptor s ∈ (c.walked fractions n m s t).result.keys := by
  have hs := h.starts hg hroot
  have hinv := h.inv_walked hg hroot
  rcases hmeets.via.split ((c.walk fractions m s).Open t) with hvia | ⟨x, _, hclosed, hplain, hvia⟩
  · cases hfresh : t.contains (mf.descriptor s) with
    | true => exact hinv.holds.mem_keys (h.mem_keys_of_contains hg hmeets.module hfresh)
    | false =>
      exact TopLevel.mem_keys.mpr ⟨_, hinv.holds.lifted f (hs.mem_of_via hall hvia) _
        ⟨mf, ⟨hmeets.module, hfresh, hmeets.fraction⟩, rfl⟩, rfl⟩
  · obtain ⟨mx, hx, hplain⟩ := hplain
    have hclosed : ¬ c.Clear fractions done s x := mt (h.open_iff hg).mpr hclosed
    obtain ⟨hearlier, hroot'⟩ := root_of_not_clear hclosed hx hplain
    exact hinv.holds.mem_keys
      (h.met hfull hearlier ⟨hroot', hvia, hmeets.module, hmeets.fraction⟩)

theorem Settled.walked (hall : full → Untruncated c.graph (c.walked fractions n m s t).events) :
    c.Settled fractions full (done ++ [n]) (c.walked fractions n m s t).result where
  distinct := (h.inv_walked hg hroot).holds.distinct
  origin _ he := h.origin_walked hg hroot hall he
  rooted {k m' s'} hk hk' := by
    rcases List.mem_append.mp hk with hk | hk
    · exact (h.inv_walked hg hroot).holds.mem_keys (h.rooted hk hk')
    · cases List.mem_singleton.mp hk
      obtain ⟨rfl, rfl⟩ := hroot.eq hk'
      exact h.key_walked hg hroot
  met hfull {k m' s' f mf} hk hmeets := by
    rcases List.mem_append.mp hk with hk | hk
    · exact (h.inv_walked hg hroot).holds.mem_keys (h.met hfull hk hmeets)
    · cases List.mem_singleton.mp hk
      obtain ⟨rfl, rfl⟩ := hroot.eq hmeets.root
      exact h.met_walked hg hroot hfull (hall hfull) hmeets

end

-- ---------------------------------------------------------------------------
-- The whole resolution
-- ---------------------------------------------------------------------------

/-- What holds of the entries after the first-level modules `done`, and is kept
by each further one, holds after any number of them. -/
theorem resolveRoots_induction {transitive : Bool} {I : List Node → TopLevel → Prop}
    {events : List Event} (hg : c.graph.WellFormed)
    (hskip : ∀ {done n t}, I done t → (∀ m s, ¬ c.Root n m s) → I (done ++ [n]) t)
    (hroot : ∀ {done n rest m s t}, done ++ n :: rest = c.graph.firstLevel → I done t →
      c.Root n m s → (resolveRoot c.graph fractions transitive s n m t).events ⊆ events →
      I (done ++ [n]) (resolveRoot c.graph fractions transitive s n m t).value)
    (h : I done t) (hlist : done ++ rest <+: c.graph.firstLevel)
    (hevents : (resolveRoots c.graph c.scope? fractions transitive rest t).events ⊆ events)
    (hok : (resolveRoots c.graph c.scope? fractions transitive rest t).value = .ok t') :
    I (done ++ rest) t' := by
  induction rest generalizing done t with
  | nil =>
    cases hok
    simpa using h
  | cons n rest ih =>
    have hn : n ∈ c.graph.firstLevel := hlist.subset (by simp)
    have hcut : ∃ later, done ++ n :: later = c.graph.firstLevel := by
      obtain ⟨later, hlater⟩ := hlist
      exact ⟨rest ++ later, by simpa using hlater⟩
    obtain ⟨_, hcut⟩ := hcut
    obtain ⟨m, hm⟩ := Graph.exists_module? (hg.firstLevel.lt n hn)
    cases hscope : c.scope? m.coordinates.key with
    | none => simp [resolveRoots, hm, hscope] at hok
    | some s =>
      simp only [resolveRoots, hm, hscope, Logged.value_bind, Logged.events_bind,
        List.append_subset] at hok hevents
      have hstep : I (done ++ [n]) (resolveRoot c.graph fractions transitive s n m t).value := by
        by_cases hr : c.Root n m s
        · exact hroot hcut h hr hevents.1
        · have hkeep : s = .platform ∨ m.artifacts = [] := by
            by_contra hkeep
            rw [not_or] at hkeep
            exact hr ⟨hn, hm, hscope, hkeep.1, hkeep.2⟩
          have hsame : (resolveRoot c.graph fractions transitive s n m t).value = t := by
            simp [resolveRoot, hkeep]
          rw [hsame]
          refine hskip h fun m' s' hroot' => hr ?_
          cases hm.symm.trans hroot'.module
          cases hscope.symm.trans hroot'.scope
          exact hroot'
      rw [List.append_cons] at hlist ⊢
      exact ih hstep hlist hevents.2 hok

theorem Settled.run (hg : c.graph.WellFormed) (h : c.Settled fractions full done t)
    (hlist : done ++ rest = c.graph.firstLevel)
    (hall : full → Untruncated c.graph
      (resolveRoots c.graph c.scope? fractions true rest t).events)
    (hok : (resolveRoots c.graph c.scope? fractions true rest t).value = .ok t') :
    c.Settled fractions full (done ++ rest) t' := by
  refine resolveRoots_induction hg Settled.skip ?_ h (hlist ▸ List.prefix_rfl)
    (List.Subset.refl _) hok
  intro done n rest m s t _ h hroot hevents
  rw [hroot.resolveRoot_eq] at hevents ⊢
  exact h.walked hg hroot fun hfull => (hall hfull).mono hevents

/-- The resolution loses nothing to the depth limit. -/
def WithinDepth (c : Configuration) (fractions : List ModuleKey) : Prop :=
  Untruncated c.graph (c.resolve fractions true).events

theorem resolve_eq {fallback : Scope} (h : Scope.ofConfiguration? c.name = some fallback)
    (transitive : Bool) : c.resolve fractions transitive =
      resolveRoots c.graph c.scope? fractions transitive c.graph.firstLevel .empty := by
  have hscope : c.scope? = assignedScope c.hierarchy fallback := by
    funext key
    simp [scope?, h]
  simp [resolve, h, hscope]

theorem exists_scope_of_ok {transitive : Bool}
    (hok : (c.resolve fractions transitive).value = .ok t) :
    ∃ fallback, Scope.ofConfiguration? c.name = some fallback := by
  cases hname : Scope.ofConfiguration? c.name with
  | none => simp [resolve, hname] at hok
  | some fallback => exact ⟨fallback, rfl⟩

theorem settled_of_resolve (hg : c.graph.WellFormed)
    (hok : (c.resolve fractions true).value = .ok t) :
    c.Settled fractions (c.WithinDepth fractions) c.graph.firstLevel t := by
  obtain ⟨_, hname⟩ := exists_scope_of_ok hok
  rw [resolve_eq hname] at hok
  refine Settled.empty.run hg rfl (fun hfull => ?_) hok
  rwa [WithinDepth, resolve_eq hname] at hfull

-- ---------------------------------------------------------------------------
-- When there is a result
-- ---------------------------------------------------------------------------

theorem exists_resolveRoots_ok {g : Graph} {scopeOf : ModuleKey → Option Scope}
    {transitive : Bool} {ns : List Node} {t : TopLevel} :
    (∃ t', (resolveRoots g scopeOf fractions transitive ns t).value = .ok t') ↔
      ∀ n ∈ ns, ∀ m, g.module? n = some m → ∃ s, scopeOf m.coordinates.key = some s := by
  induction ns generalizing t with
  | nil => simp [resolveRoots]
  | cons n ns ih =>
    rw [List.forall_mem_cons, resolveRoots]
    cases hm : g.module? n with
    | none => simpa using ih
    | some m =>
      cases hscope : scopeOf m.coordinates.key with
      | none => simp [hscope]
      | some s => simpa [hscope] using ih

/-- There is a result exactly when the configuration has a scope and the
hierarchy declares the whole first level. -/
theorem exists_resolve_ok {transitive : Bool} :
    (∃ t, (c.resolve fractions transitive).value = .ok t) ↔
      (∃ s, Scope.ofConfiguration? c.name = some s) ∧
      ∀ n ∈ c.graph.firstLevel, ∀ m, c.graph.module? n = some m →
        ∃ s, c.scope? m.coordinates.key = some s := by
  cases hname : Scope.ofConfiguration? c.name with
  | none => simp [resolve, hname]
  | some fallback =>
    rw [resolve_eq hname, exists_resolveRoots_ok]
    simp

/-- The same as a check of a given configuration. -/
theorem exists_ok_of_declared {transitive : Bool}
    (hname : (Scope.ofConfiguration? c.name).isSome)
    (hfirst : ∀ n ∈ c.graph.firstLevel,
      (c.graph.module? n).all fun m => (c.scope? m.coordinates.key).isSome) :
    ∃ t, (c.resolve fractions transitive).value = .ok t := by
  refine exists_resolve_ok.mpr ⟨Option.isSome_iff_exists.mp hname, fun n hn m hm => ?_⟩
  have hall := hfirst n hn
  rw [hm] at hall
  exact Option.isSome_iff_exists.mp hall

end ServerFractions.Configuration
