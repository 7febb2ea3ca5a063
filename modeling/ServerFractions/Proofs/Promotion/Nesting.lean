import ServerFractions.Decimal
import ServerFractions.Proofs.Promotion.Depth
import ServerFractions.Proofs.Promotion.Entries

/-!
# What stays out of an entry

A root that is no fraction nests what it reaches past fractions, with two
exceptions. Where an earlier root with the same scope stands on the way, it
takes over what lies below it (`resolve_nest_or_earlier`). And where a way down
is as long as the depth limit, what lies below its end may be missed, also when
there is a shorter way to it (`resolve_nest_or_deep`).
-/

namespace ServerFractions.Configuration

open Promotion

variable {c : Configuration} {fractions : List ModuleKey} {full : Prop}
  {r n k : Node} {m mk : Module} {s : Scope} {e : TopLevel.Entry}
  {earlier later done : List Node} {t : TopLevel}

-- ---------------------------------------------------------------------------
-- Earlier roots
-- ---------------------------------------------------------------------------

/-- Every root that is no fraction nests all that it reaches past fractions. -/
def NestsAll (c : Configuration) (fractions : List ModuleKey) : Prop :=
  ∀ t, (c.resolve fractions true).value = .ok t →
    ∀ r m s k mk, c.Root r m s → ReachesVia c.graph.children (c.Plain fractions) r k →
      c.Plain fractions k → c.graph.module? k = some mk → mk.artifacts ≠ [] →
      ∃ children, t.get? (m.descriptor s) = some children ∧ mk.descriptor s ∈ children

/-- Two roots, of which the later one leads to the earlier one. -/
def shared : Configuration where
  name := "runtimeClasspath"
  hierarchy := [⟨"runtimeClasspath", [.ofParts "org.acme" "lib", .ofParts "org.acme" "app"]⟩]
  graph := {
    modules := #[⟨⟨"org.acme", "lib", "1"⟩, [{}], []⟩, ⟨⟨"org.acme", "app", "1"⟩, [{}], [0]⟩]
    firstLevel := [0, 1] }

theorem shared_built : shared.graph.Built :=
  Graph.built_iff_wellFormed.mpr (by decide)

theorem shared_root_lib : shared.Root 0 ⟨⟨"org.acme", "lib", "1"⟩, [{}], []⟩ .runtime :=
  ⟨by simp [shared], rfl, by decide, by decide, by simp⟩

theorem shared_root_app : shared.Root 1 ⟨⟨"org.acme", "app", "1"⟩, [{}], [0]⟩ .runtime :=
  ⟨by simp [shared], rfl, by decide, by decide, by simp⟩

theorem shared_ok : ∃ t, (shared.resolve [] true).value = .ok t :=
  exists_ok_of_declared (by decide) (by decide)

/-- `lib` is an entry before `app` is taken, and so `app` goes without it. -/
theorem shared_not_nestsAll : shared.graph.Built ∧ shared.graph.size ≤ depthLimit ∧
    ¬ shared.NestsAll [] := by
  refine ⟨shared_built, by decide, fun hall => ?_⟩
  obtain ⟨t, hok⟩ := shared_ok
  have hplain : ∀ n m, shared.graph.module? n = some m → shared.Plain [] n :=
    fun n m hm => ⟨m, hm, List.not_mem_nil⟩
  obtain ⟨children, hchildren, hmem⟩ := hall t hok 1 _ _ 0 _ shared_root_app
    (.single ⟨hplain 1 _ rfl, by decide⟩) (hplain 0 _ rfl) shared_root_lib.module (by simp)
  have hsettled := settled_of_resolve shared_built.wellFormed hok
  have hfirst : shared.graph.firstLevel = [0] ++ 1 :: [] := rfl
  obtain ⟨e, he, hnest⟩ := hsettled.exists_nest shared_built.wellFormed hfirst shared_root_app
    List.not_mem_nil
  have hentry := hsettled.distinct.get?_eq he
  rw [hnest.key, hchildren, Option.some.injEq] at hentry
  obtain ⟨k, mk, _, ⟨mk', hmk', _, hearlier⟩, hmk, _, hd⟩ := hnest.sound _ (hentry ▸ hmem)
  obtain ⟨rfl, -⟩ := shared_built.wellFormed.node_eq_of_identity shared_root_lib.module hmk
    (congrArg Descriptor.identity hd)
  cases shared_root_lib.module.symm.trans hmk'
  exact hearlier ⟨by simp, shared_root_lib⟩

/-- By induction on the number of earlier roots: where one of them stands on the
way, it nests the rest of the way or hands it on. -/
theorem Settled.nests (h : c.Settled fractions full c.graph.firstLevel t)
    (hg : c.graph.WellFormed) (hfull : full) (hfirst : c.graph.firstLevel = earlier ++ r :: later)
    (hroot : c.Root r m s) (hvia : ReachesVia c.graph.children (c.Plain fractions) r k)
    (hplain : c.Plain fractions k) (hk : c.graph.module? k = some mk) (ha : mk.artifacts ≠ []) :
    ∃ q mq, (q = r ∨ q ∈ earlier) ∧ c.Root q mq s ∧
      ReachesVia c.graph.children (c.Plain fractions) r q ∧
      ReachesVia c.graph.children (c.Plain fractions) q k ∧
      ∃ e ∈ t.entries, e.key = mq.descriptor s ∧ mk.descriptor s ∈ e.children := by
  induction hlen : earlier.length using Nat.strongRecOn
    generalizing earlier r m later with | _ len ih
  -- Either the whole way is clear, or its first module that is not is an earlier root.
  have hcut : (ReachesVia c.graph.children (c.Clear fractions earlier s) r k ∧
      c.Clear fractions earlier s k) ∨ ∃ x, ReachesVia c.graph.children (c.Plain fractions) r x ∧
        ¬ c.Clear fractions earlier s x ∧ c.Plain fractions x ∧
        ReachesVia c.graph.children (c.Plain fractions) x k := by
    rcases hvia.split (c.Clear fractions earlier s) with hclear | ⟨x, hrx, hx, hxplain, hxk⟩
    · by_cases hkclear : c.Clear fractions earlier s k
      · exact .inl ⟨hclear, hkclear⟩
      · exact .inr ⟨k, hvia, hkclear, hplain, .refl⟩
    · exact .inr ⟨x, hrx.mono fun _ => Clear.plain, hx, hxplain, hxk⟩
  rcases hcut with ⟨hclear, hkclear⟩ | ⟨x, hrx, hx, ⟨mx, hmx, hxplain⟩, hxk⟩
  · obtain ⟨m', hm', hrplain, _⟩ := hclear.start hkclear
    cases hroot.module.symm.trans hm'
    obtain ⟨e, he, hnest⟩ := h.exists_nest hg hfirst hroot hrplain
    exact ⟨r, m, .inl rfl, hroot, .refl, hvia, e, he, hnest.key,
      hnest.complete hfull _ ⟨k, mk, hclear, hkclear, hk, ha, rfl⟩⟩
  · obtain ⟨hxe, hxroot⟩ := root_of_not_clear hx hmx hxplain
    obtain ⟨before, between, rfl⟩ := List.append_of_mem hxe
    rw [List.append_assoc, List.cons_append] at hfirst
    obtain ⟨q, mq, hq, hqroot, hxq, hqk, hentry⟩ :=
      ih before.length (by simp [← hlen]) hfirst hxroot hxk rfl
    refine ⟨q, mq, .inr ?_, hqroot, hrx.trans hxq, hqk, hentry⟩
    rcases hq with rfl | hq
    · exact hxe
    · exact List.mem_append_left _ hq

/-- What a root reaches past fractions is nested below it, unless earlier roots
with the same scope stand on every way; one of these nests it then. -/
theorem resolve_nest_or_earlier (hb : c.graph.Built) (hdepth : c.WithinDepth fractions)
    (hok : (c.resolve fractions true).value = .ok t)
    (hfirst : c.graph.firstLevel = earlier ++ r :: later) (hroot : c.Root r m s)
    (hvia : ReachesVia c.graph.children (c.Plain fractions) r k) (hplain : c.Plain fractions k)
    (hk : c.graph.module? k = some mk) (ha : mk.artifacts ≠ []) :
    (ReachesVia c.graph.children (c.Clear fractions earlier s) r k →
      c.Clear fractions earlier s k →
      ∃ children, t.get? (m.descriptor s) = some children ∧ mk.descriptor s ∈ children) ∧
    ∃ q mq children, (q = r ∨ q ∈ earlier) ∧ c.Root q mq s ∧
      ReachesVia c.graph.children (c.Plain fractions) r q ∧
      ReachesVia c.graph.children (c.Plain fractions) q k ∧
      t.get? (mq.descriptor s) = some children ∧ mk.descriptor s ∈ children := by
  have hg := hb.wellFormed
  have h := settled_of_resolve hg hok
  refine ⟨fun hclear hkclear => ?_, ?_⟩
  · obtain ⟨m', hm', hrplain, _⟩ := hclear.start hkclear
    cases hroot.module.symm.trans hm'
    obtain ⟨e, he, hnest⟩ := h.exists_nest hg hfirst hroot hrplain
    exact ⟨e.children, hnest.key ▸ h.distinct.get?_eq he,
      hnest.complete hdepth _ ⟨k, mk, hclear, hkclear, hk, ha, rfl⟩⟩
  · obtain ⟨q, mq, hq, hqroot, hrq, hqk, e, he, hkey, hmem⟩ :=
      h.nests hg hdepth hfirst hroot hvia hplain hk ha
    exact ⟨q, mq, e.children, hq, hqroot, hrq, hqk, hkey ▸ h.distinct.get?_eq he, hmem⟩

/-- The way from `tool` to `json` past the earlier `app` is clear, and `util`
below `app` is nested once more or by `app`. -/
theorem cyclic_nest_json : ∃ t, (cyclic.resolve cyclicFractions true).value = .ok t ∧
    (∃ children, t.get? (.ofArtifact .runtime ⟨"org.acme", "tool", "1"⟩ {}) = some children ∧
      .ofArtifact .runtime ⟨"org.acme", "json", "1"⟩ {} ∈ children) ∧
    ∃ q mq children, (q = 4 ∨ q ∈ [0]) ∧ cyclic.Root q mq .runtime ∧
      t.get? (mq.descriptor .runtime) = some children ∧
      .ofArtifact .runtime ⟨"org.acme", "util", "1"⟩ {} ∈ children := by
  obtain ⟨t, hok⟩ := cyclic_ok
  have hfirst : cyclic.graph.firstLevel = [0] ++ 4 :: [] := rfl
  have hjson : cyclic.graph.module? 3 =
      some ⟨⟨"org.acme", "json", "1"⟩, [{}, { classifier := some "tests" }], [1]⟩ := rfl
  have hutil : cyclic.graph.module? 2 = some ⟨⟨"org.acme", "util", "1"⟩, [{}], [0]⟩ := rfl
  have happ : cyclic.Plain cyclicFractions 0 := ⟨_, cyclic_root_app.module, by decide⟩
  have htool : cyclic.Plain cyclicFractions 4 := ⟨_, cyclic_root_tool.module, by decide⟩
  have hclear : cyclic.Clear cyclicFractions [0] .runtime 4 :=
    ⟨_, cyclic_root_tool.module, by decide, fun hold => absurd hold.1 (by decide)⟩
  have hway : ReachesVia cyclic.graph.children (cyclic.Plain cyclicFractions) 4 2 :=
    .tail (b := 0) (.single ⟨htool, by decide⟩) happ (by decide)
  obtain ⟨hnest, _⟩ := resolve_nest_or_earlier cyclic_built cyclic_withinDepth hok hfirst
    cyclic_root_tool (.single ⟨htool, by decide⟩) ⟨_, hjson, by decide⟩ hjson (by simp)
  obtain ⟨_, q, mq, children, hq, hroot, _, _, hentry, hmem⟩ :=
    resolve_nest_or_earlier cyclic_built cyclic_withinDepth hok hfirst cyclic_root_tool hway
      ⟨_, hutil, by decide⟩ hutil (by simp)
  exact ⟨t, hok, hnest (.single ⟨hclear, by decide⟩)
    ⟨_, hjson, by decide, fun hold => absurd hold.1 (by decide)⟩, q, mq, children, hq, hroot,
    hentry, hmem⟩

-- ---------------------------------------------------------------------------
-- The depth limit
-- ---------------------------------------------------------------------------

/-- A way down from the root `n` to `x`, along clear modules, that has as many
edges as there are levels. -/
def TooDeep (c : Configuration) (fractions : List ModuleKey) (earlier : List Node) (s : Scope)
    (n x : Node) : Prop :=
  Deep c.graph.children (c.Clear fractions earlier s) depthLimit n x

/-- What is missing from the entry of the root `n` lies at or below a module that
is too deep. -/
def MissesDeepOnly (c : Configuration) (fractions : List ModuleKey) (earlier : List Node)
    (s : Scope) (n : Node) (children : List Descriptor) : Prop :=
  ∀ k m, ReachesVia c.graph.children (c.Clear fractions earlier s) n k →
    c.Clear fractions earlier s k → c.graph.module? k = some m → m.artifacts ≠ [] →
    m.descriptor s ∈ children ∨ ∃ x, c.TooDeep fractions earlier s n x ∧
      ReachesVia c.graph.children (c.Clear fractions earlier s) x k

theorem Settled.exists_nest_walked (h : c.Settled fractions full done t) (hg : c.graph.WellFormed)
    (hroot : c.Root n m s) (hn : n ∉ done) (hplain : m.coordinates.key ∉ fractions) :
    ∃ e ∈ (c.walked fractions n m s t).result.entries, e.key = m.descriptor s ∧
      (c.walk fractions m s).Nest t (c.walked fractions n m s t).visited e := by
  have hclear : c.Clear fractions done s n := ⟨m, hroot.module, hplain, fun hold => hn hold.1⟩
  obtain ⟨m', hopens⟩ := (h.open_iff (m := m) hg).mpr hclear
  cases hroot.module.symm.trans hopens.module
  obtain ⟨e, he, hkey⟩ := TopLevel.mem_keys.mp (h.key_walked hg hroot)
  exact ⟨e, he, hkey, (h.inv_walked hg hroot).holds.nest_of_key (h.starts hg hroot) hopens he
    (congrArg Descriptor.identity hkey)⟩

/-- The entry that a walk makes. -/
theorem Settled.missesDeepOnly_walked (h : c.Settled fractions full done t)
    (hg : c.graph.WellFormed) (hroot : c.Root n m s)
    (hnest : (c.walk fractions m s).Nest t (c.walked fractions n m s t).visited e) :
    c.MissesDeepOnly fractions done s n e.children := by
  intro k mk hvia hclear hk ha
  have hopen : ∀ x, (c.walk fractions m s).Open t x ↔ c.Clear fractions done s x :=
    fun _ => h.open_iff hg
  rcases (h.starts hg hroot).mem_or_deep (hvia.mono fun x => (hopen x).mpr) with hmem | ⟨x, hx, hxk⟩
  · obtain ⟨mk', hopens⟩ := (hopen k).mpr hclear
    cases hk.symm.trans hopens.module
    exact .inl ((hnest.children _).mpr ⟨k, hmem, mk, hopens, ha, rfl⟩)
  · obtain ⟨path, hlength, hdown⟩ := hx
    exact .inr ⟨x, ⟨path, hlength, hdown.mono fun y => (hopen y).mp⟩,
      hxk.mono fun y => (hopen y).mp⟩

/-- The entries of the roots among `done` miss nothing but what is too deep. -/
def AllMissDeepOnly (c : Configuration) (fractions : List ModuleKey) (done : List Node)
    (t : TopLevel) : Prop :=
  ∀ earlier r m s, earlier ++ [r] <+: done → c.Root r m s → m.coordinates.key ∉ fractions →
    ∃ e ∈ t.entries, e.key = m.descriptor s ∧ c.MissesDeepOnly fractions earlier s r e.children

theorem AllMissDeepOnly.skip (h : c.AllMissDeepOnly fractions done t)
    (hskip : ∀ m s, ¬ c.Root n m s) : c.AllMissDeepOnly fractions (done ++ [n]) t := by
  intro earlier r m s hbegins hroot hplain
  rcases List.prefix_concat_iff.mp hbegins with heq | hbegins
  · obtain ⟨_, hr⟩ := List.append_inj' heq rfl
    cases hr
    exact absurd hroot (hskip m s)
  · exact h earlier r m s hbegins hroot hplain

/-- The step: the walk makes one more entry, and leaves the others as they are. -/
theorem AllMissDeepOnly.walked (h : c.AllMissDeepOnly fractions done t)
    (hsettled : c.Settled fractions full done t) (hg : c.graph.WellFormed) (hroot : c.Root n m s)
    (hn : n ∉ done) :
    c.AllMissDeepOnly fractions (done ++ [n]) (c.walked fractions n m s t).result := by
  intro earlier r m' s' hbegins hroot' hplain
  rcases List.prefix_concat_iff.mp hbegins with heq | hbegins
  · obtain ⟨rfl, hr⟩ := List.append_inj' heq rfl
    cases hr
    obtain ⟨rfl, rfl⟩ := hroot.eq hroot'
    obtain ⟨e, he, hkey, hnest⟩ := hsettled.exists_nest_walked hg hroot hn hplain
    exact ⟨e, he, hkey, hsettled.missesDeepOnly_walked hg hroot hnest⟩
  · obtain ⟨e, he, hmisses⟩ := h earlier r m' s' hbegins hroot' hplain
    exact ⟨e, (hsettled.inv_walked hg hroot).holds.kept e he, hmisses⟩

/-- The run. -/
theorem allMissDeepOnly_of_resolve (hg : c.graph.WellFormed)
    (hok : (c.resolve fractions true).value = .ok t) :
    c.AllMissDeepOnly fractions c.graph.firstLevel t := by
  obtain ⟨_, hname⟩ := exists_scope_of_ok hok
  rw [resolve_eq hname] at hok
  have hlist : [] ++ c.graph.firstLevel <+: c.graph.firstLevel := List.prefix_rfl
  have hempty : c.AllMissDeepOnly fractions [] .empty := fun _ _ _ _ hbegins => by
    simp at hbegins
  refine (resolveRoots_induction
    (I := fun done t => c.Settled fractions False done t ∧ c.AllMissDeepOnly fractions done t)
    hg ?_ ?_ ⟨.empty, hempty⟩ hlist (List.Subset.refl _) hok).2
  · rintro done n t ⟨h, hdone⟩ hskip
    exact ⟨h.skip hskip, hdone.skip hskip⟩
  · rintro done n rest m s t hlist ⟨h, hdone⟩ hroot _
    have hn : n ∉ done := (hlist ▸ hg.firstLevel).not_mem_of_append.1
    rw [hroot.resolveRoot_eq]
    exact ⟨h.walked hg hroot False.elim, hdone.walked h hg hroot hn⟩

/-- The depth limit keeps nothing from the entry of a root but what lies at or
below the end of a way down that is as long as the limit. -/
theorem resolve_nest_or_deep (hb : c.graph.Built) (hok : (c.resolve fractions true).value = .ok t)
    (hfirst : c.graph.firstLevel = earlier ++ r :: later) (hroot : c.Root r m s)
    (hplain : m.coordinates.key ∉ fractions) :
    ∃ children, t.get? (m.descriptor s) = some children ∧
      c.MissesDeepOnly fractions earlier s r children := by
  have hbegins : earlier ++ [r] <+: c.graph.firstLevel := ⟨later, by simp [hfirst]⟩
  obtain ⟨e, he, hkey, hmisses⟩ :=
    allMissDeepOnly_of_resolve hb.wellFormed hok earlier r m s hbegins hroot hplain
  refine ⟨e.children, ?_, hmisses⟩
  rw [← hkey]
  exact (settled_of_resolve hb.wellFormed hok).distinct.get?_eq he

theorem cyclic_nest_tool_or_deep : ∃ t, (cyclic.resolve cyclicFractions true).value = .ok t ∧
    ∃ children, t.get? (.ofArtifact .runtime ⟨"org.acme", "tool", "1"⟩ {}) = some children ∧
      cyclic.MissesDeepOnly cyclicFractions [0] .runtime 4 children := by
  obtain ⟨t, hok⟩ := cyclic_ok
  have hfirst : cyclic.graph.firstLevel = [0] ++ 4 :: [] := rfl
  exact ⟨t, hok, resolve_nest_or_deep cyclic_built hok hfirst cyclic_root_tool (by decide)⟩

/-- With a single root the result is that of one walk. -/
theorem Root.value_resolve_of_alone (hroot : c.Root n m s) (hfirst : c.graph.firstLevel = [n]) :
    (c.resolve fractions true).value = .ok (c.walked fractions n m s .empty).result := by
  obtain ⟨fallback, hname, _⟩ := scope?_eq_some_iff.mp hroot.scope
  simp [resolve_eq hname, hfirst, resolveRoots, hroot.module, hroot.scope, hroot.resolveRoot_eq]

/-- The children in a graph with a long way from the root to module 255, and a
short one. -/
def detourNext (n : Nat) : List Node :=
  if n = 0 then [1, 255] else if n < 256 then [n + 1] else []

def detourModule (n : Nat) : Module :=
  ⟨⟨"org.acme", "n" ++ toString n, "1"⟩, [{}], detourNext n⟩

def detour : Configuration where
  name := "runtimeClasspath"
  hierarchy := [⟨"runtimeClasspath", [.ofParts "org.acme" "n0"]⟩]
  graph := {
    modules := (Array.range 257).map detourModule
    firstLevel := [0] }

theorem detour_module? {n : Nat} (h : n < 257) :
    detour.graph.module? n = some (detourModule n) := by
  simp [Graph.module?, detour, h]

theorem eq_of_detour_module? {n : Nat} (h : detour.graph.module? n = some m) :
    n < 257 ∧ m = detourModule n := by
  have hn : n < 257 := by simpa [Graph.size, detour] using Graph.lt_of_module? h
  exact ⟨hn, Option.some.inj (h.symm.trans (detour_module? hn))⟩

theorem detour_children : detour.graph.children = detourNext := by
  refine funext fun (n : Nat) => ?_
  by_cases hn : n < 257
  · exact Graph.children_of_module? (detour_module? hn)
  · have hnone : detour.graph.module? n = none := by simp [Graph.module?, detour, hn]
    simp only [Graph.children, hnone, Option.elim_none, detourNext]
    rw [if_neg (by omega), if_neg (by omega)]

theorem detour_built : detour.graph.Built := by
  refine Graph.built_iff_wellFormed.mpr
    ⟨fun {i j m m'} hi hj hc => ?_, fun {n : Nat} {m} hm => ?_, ?_⟩
  · obtain ⟨_, rfl⟩ := eq_of_detour_module? hi
    obtain ⟨_, rfl⟩ := eq_of_detour_module? hj
    have hdigits : Nat.toDigits 10 i = Nat.toDigits 10 j := by
      simpa [detourModule, toString, Nat.repr, String.ofList_inj] using hc
    rw [← Decimal.ofDigits_toDigits (n := i), hdigits, Decimal.ofDigits_toDigits]
  · obtain ⟨hn, rfl⟩ := eq_of_detour_module? hm
    have hsize : detour.graph.size = 257 := by simp [Graph.size, detour]
    rw [hsize]
    simp only [detourModule, detourNext]
    split_ifs
    · decide
    · exact ⟨List.nodup_singleton _, List.forall_mem_singleton.mpr (Nat.succ_lt_succ ‹n < 256›)⟩
    · exact ⟨.nil, by simp⟩
  · exact ⟨List.nodup_singleton _, List.forall_mem_singleton.mpr (by simp [Graph.size, detour])⟩

theorem detour_root : detour.Root 0 (detourModule 0) .runtime where
  firstLevel := by simp [detour]
  module := detour_module? (by decide)
  scope := by decide
  imported := by decide
  artifacts := by simp [detourModule]

theorem detour_missed : 256 ∉ comeTo detourNext (· < 257) depthLimit 0 [] := by
  decide +kernel

/-- Every root that is no fraction nests what it reaches on some way with fewer
edges than there are levels, past fractions and past all other roots. -/
def NestsShort (c : Configuration) (fractions : List ModuleKey) : Prop :=
  ∀ t, (c.resolve fractions true).value = .ok t →
    ∀ r m s k mk path, c.Root r m s → path.length < depthLimit →
      Descends c.graph.children
        (fun n => c.Plain fractions n ∧ (n = r ∨ n ∉ c.graph.firstLevel)) r path k →
      c.Plain fractions k → (k = r ∨ k ∉ c.graph.firstLevel) →
      c.graph.module? k = some mk → mk.artifacts ≠ [] →
      ∃ children, t.get? (m.descriptor s) = some children ∧ mk.descriptor s ∈ children

/-- The walk comes to module 255 on the long way first, with no level left for
module 256, and on the short way it finds module 255 visited. -/
theorem detour_not_nestsShort : detour.graph.Built ∧ ¬ detour.NestsShort [] := by
  refine ⟨detour_built, fun hall => ?_⟩
  have hg := detour_built.wellFormed
  have hok : (detour.resolve [] true).value = .ok _ := detour_root.value_resolve_of_alone rfl
  have hplain : ∀ {n : Nat}, n < 257 → detour.Plain [] n := fun hn =>
    ⟨_, detour_module? hn, List.not_mem_nil⟩
  have hway : Descends detour.graph.children
      (fun n => detour.Plain [] n ∧ (n = 0 ∨ n ∉ detour.graph.firstLevel)) 0 [255, 0] 256 := by
    rw [detour_children]
    exact .step (.step .start ⟨hplain (by decide), by decide⟩ (by decide) (by decide))
      ⟨hplain (by decide), by decide⟩ (by decide) (by decide)
  obtain ⟨children, hchildren, hmem⟩ := hall _ hok 0 _ _ 256 _ _ detour_root (by decide) hway
    (hplain (by decide)) (by decide) (detour_module? (by decide)) (by simp [detourModule])
  have hempty : detour.Settled [] False [] .empty := .empty
  obtain ⟨e, he, hkey, hnest⟩ :=
    hempty.exists_nest_walked hg detour_root List.not_mem_nil List.not_mem_nil
  have hentry := (settled_of_resolve hg hok).distinct.get?_eq he
  rw [hkey, hchildren, Option.some.injEq] at hentry
  obtain ⟨n, hvisited, mn, hopens, _, hd⟩ := (hnest.children _).mp (hentry ▸ hmem)
  obtain ⟨rfl, -⟩ := hg.node_eq_of_identity (detour_module? (by decide)) hopens.module
    (congrArg Descriptor.identity hd)
  -- No module is a fraction and no entry came before, so the walk goes on everywhere.
  have hopen : ∀ n : Nat, decide (n < 257) = true ↔
      (detour.walk [] (detourModule 0) .runtime).Open .empty n := by
    intro n
    rw [decide_eq_true_iff, hempty.open_iff hg]
    exact ⟨fun hn => ⟨_, detour_module? hn, List.not_mem_nil, fun hold => by simp at hold⟩,
      fun ⟨_, hm, _⟩ => (eq_of_detour_module? hm).1⟩
  rw [walked, (hempty.starts hg detour_root).visited_visit hopen] at hvisited
  exact detour_missed (detour_children ▸ hvisited)

end ServerFractions.Configuration
