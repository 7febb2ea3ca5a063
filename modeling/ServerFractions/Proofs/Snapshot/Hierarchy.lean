import Mathlib.Data.List.Nodup
import ServerFractions.Proofs.Promotion.Run
import ServerFractions.Proofs.Snapshot.Lookup

/-!
# Hierarchies are sorted

Where no configuration extends itself, each one stands before all that it
extends, directly or through others (`hierarchy_sorted`), so a declaration is
overridden from above and by nothing else. A configuration may move to the end
many times on the way: `precedes_climb` is about the last time, after which all
that it extends moves behind it. Nothing is said about the order of two
configurations neither of which extends the other.
-/

namespace ServerFractions

-- ---------------------------------------------------------------------------
-- Standing before
-- ---------------------------------------------------------------------------

section

variable {α : Type} {order as bs : List α} {a b : α}

/-- `a` stands before `b`. -/
def Precedes (order : List α) (a b : α) : Prop :=
  [a, b].Sublist order

theorem Precedes.mem_left (h : Precedes order a b) : a ∈ order :=
  h.subset (by simp)

theorem precedes_append (ha : a ∈ as) (hb : b ∈ bs) : Precedes (as ++ bs) a b :=
  (List.singleton_sublist.mpr ha).append (List.singleton_sublist.mpr hb)

/-- Where nothing is repeated, all that `a` stands before is behind it. -/
theorem Precedes.mem_after (h : Precedes (as ++ a :: bs) a b) (hnodup : (as ++ a :: bs).Nodup) :
    b ∈ bs := by
  induction as with
  | nil =>
    rcases List.cons_sublist_cons'.mp h with h | ⟨_, h⟩
    · exact absurd (h.subset (by simp)) (List.nodup_cons.mp hnodup).1
    · exact List.singleton_sublist.mp h
  | cons x as ih =>
    rw [List.cons_append, List.nodup_cons] at hnodup
    rcases List.cons_sublist_cons'.mp h with h | ⟨rfl, _⟩
    · exact ih h hnodup.2
    · simp at hnodup

end

namespace Snapshot

-- ---------------------------------------------------------------------------
-- One move
-- ---------------------------------------------------------------------------

section

variable {parents : String → List String} {free order pending rest : List String}
  {through a b p x y : String}

theorem mem_moveToEnd : a ∈ moveToEnd p order ↔ a ∈ order ∨ a = p := by
  by_cases h : a = p <;> simp [moveToEnd, h]

theorem nodup_moveToEnd (h : order.Nodup) : (moveToEnd p order).Nodup :=
  (h.filter _).append (List.nodup_singleton p) (by simp)

theorem precedes_moveToEnd_self (ha : a ∈ order) (hap : a ≠ p) :
    Precedes (moveToEnd p order) a p :=
  precedes_append (by simp [ha, hap]) (by simp)

/-- A move leaves behind `a` what was there, unless `a` itself moves. -/
theorem precedes_moveToEnd (h : Precedes order a b) (ha : a ≠ p) :
    Precedes (moveToEnd p order) a b := by
  by_cases hb : b = p
  · subst hb
    exact precedes_moveToEnd_self h.mem_left ha
  · have hpair : [a, b].filter (· != p) = [a, b] := by simp [ha, hb]
    have hfilter := h.filter (· != p)
    rw [hpair] at hfilter
    exact hfilter.trans (List.sublist_append_left _ _)

-- ---------------------------------------------------------------------------
-- The climb
-- ---------------------------------------------------------------------------

theorem mem_climb_of_mem (h : a ∈ order) :
    a ∈ (climb parents free order through pending).value := by
  fun_induction climb parents free order through pending with
  | case1 => exact h
  | case2 free order through p rest _ ihAbove ihRest =>
    exact ihRest _ (ihAbove (mem_moveToEnd.mpr (.inl h)))
  | case3 free order through p rest _ ih => exact ih h

theorem mem_or_reachedFrom_of_mem_climb
    (h : a ∈ (climb parents free order through pending).value) :
    a ∈ order ∨ ReachedFrom parents pending a := by
  fun_induction climb parents free order through pending with
  | case1 => exact .inl h
  | case2 free order through p rest _ ihAbove ihRest =>
    rw [reachedFrom_cons, reaches_iff]
    rcases ihRest _ h with h | hrest
    · rcases ihAbove h with h | habove
      · rcases mem_moveToEnd.mp h with hold | hp
        · exact .inl hold
        · exact .inr (.inl (.inl hp.symm))
      · exact .inr (.inl (.inr habove))
    · exact .inr (.inr hrest)
  | case3 free order through p rest _ ih =>
    exact (ih h).imp_right fun hrest => reachedFrom_cons.mpr (.inr hrest)

theorem nodup_climb (h : order.Nodup) :
    (climb parents free order through pending).value.Nodup := by
  fun_induction climb parents free order through pending with
  | case1 => exact h
  | case2 free order through p rest _ ihAbove ihRest => exact ihRest _ (ihAbove (nodup_moveToEnd h))
  | case3 free order through p rest _ ih => exact ih h

/-- Only what the pending configurations lead to moves. -/
theorem precedes_climb_of_precedes (h : Precedes order a b)
    (ha : ¬ ReachedFrom parents pending a) :
    Precedes (climb parents free order through pending).value a b := by
  fun_induction climb parents free order through pending with
  | case1 => exact h
  | case2 free order through p rest _ ihAbove ihRest =>
    rw [reachedFrom_cons, reaches_iff, not_or, not_or] at ha
    obtain ⟨⟨hp, habove⟩, hrest⟩ := ha
    exact ihRest _ (ihAbove (precedes_moveToEnd h (Ne.symm hp)) habove) hrest
  | case3 free order through p rest _ ih =>
    exact ih h fun hrest => ha (reachedFrom_cons.mpr (.inr hrest))

/-- What the pending configurations lead to is off the path, and never leads
back to itself. -/
structure Unblocked (parents : String → List String) (free pending : List String) : Prop where
  free : ∀ x, ReachedFrom parents pending x → x ∈ free
  acyclic : ∀ x, ReachedFrom parents pending x → ¬ ReachedFrom parents (parents x) x

theorem Unblocked.tail (h : Unblocked parents free (p :: rest)) : Unblocked parents free rest where
  free x hx := h.free x (reachedFrom_cons.mpr (.inr hx))
  acyclic x hx := h.acyclic x (reachedFrom_cons.mpr (.inr hx))

theorem Unblocked.head_mem (h : Unblocked parents free (p :: rest)) : p ∈ free :=
  h.free p (reachedFrom_cons.mpr (.inl reaches_refl))

theorem Unblocked.head_acyclic (h : Unblocked parents free (p :: rest)) :
    ¬ ReachedFrom parents (parents p) p :=
  h.acyclic p (reachedFrom_cons.mpr (.inl reaches_refl))

theorem Unblocked.above (h : Unblocked parents free (p :: rest)) :
    Unblocked parents (free.erase p) (parents p) where
  free x hx := by
    have hxp : x ≠ p := by
      rintro rfl
      exact h.head_acyclic hx
    have hfree := h.free x (reachedFrom_cons.mpr (.inl (reaches_iff.mpr (.inr hx))))
    exact (List.mem_erase_of_ne hxp).mpr hfree
  acyclic x hx := h.acyclic x (reachedFrom_cons.mpr (.inl (reaches_iff.mpr (.inr hx))))

/-- What does not move comes to stand before all that the climb meets. -/
theorem precedes_climb_of_not_reached (h : Unblocked parents free pending) (ha : a ∈ order)
    (hnot : ¬ ReachedFrom parents pending a) (hy : ReachedFrom parents pending y) :
    Precedes (climb parents free order through pending).value a y := by
  fun_induction climb parents free order through pending with
  | case1 => exact absurd hy not_reachedFrom_nil
  | case2 free order through p rest _ ihAbove ihRest =>
    rw [reachedFrom_cons, reaches_iff, not_or, not_or] at hnot
    obtain ⟨⟨hp, habove⟩, hrest⟩ := hnot
    have hmem : a ∈ moveToEnd p order := mem_moveToEnd.mpr (.inl ha)
    rcases reachedFrom_cons.mp hy with hy | hy
    · refine precedes_climb_of_precedes ?_ hrest
      rcases reaches_iff.mp hy with rfl | hy
      · exact precedes_climb_of_precedes (precedes_moveToEnd_self ha (Ne.symm hp)) habove
      · exact ihAbove h.above hmem habove hy
    · exact ihRest _ h.tail (mem_climb_of_mem hmem) hrest hy
  | case3 free order through p rest hp ih => exact absurd h.head_mem hp

/-- Whatever the order was before, the climb sorts all that it meets. Where `x`
is met again later on, that later time decides; else its last move is behind
it, and what it extends has been met since. -/
theorem precedes_climb (h : Unblocked parents free pending) (hx : ReachedFrom parents pending x)
    (hy : ReachedFrom parents (parents x) y) :
    Precedes (climb parents free order through pending).value x y := by
  fun_induction climb parents free order through pending with
  | case1 => exact absurd hx not_reachedFrom_nil
  | case2 free order through p rest _ ihAbove ihRest =>
    by_cases hrest : ReachedFrom parents rest x
    · exact ihRest _ h.tail hrest
    · refine precedes_climb_of_precedes ?_ hrest
      rcases reaches_iff.mp ((reachedFrom_cons.mp hx).resolve_right hrest) with rfl | habove
      · exact precedes_climb_of_not_reached h.above (mem_moveToEnd.mpr (.inr rfl))
          h.head_acyclic hy
      · exact ihAbove h.above habove
  | case3 free order through p rest hp ih => exact absurd h.head_mem hp

end

-- ---------------------------------------------------------------------------
-- Hierarchies of a snapshot
-- ---------------------------------------------------------------------------

variable {s : Snapshot} {c : Configuration} {name x y : String} {d : DeclaredConfiguration}
  {key : ModuleKey}

/-- The configuration of a name as it stands in a hierarchy. -/
def declared? (s : Snapshot) (name : String) : Option DeclaredConfiguration :=
  (s.configuration? name).map (·.declared)

/-- The configuration `x` declares the key. -/
def Declares (s : Snapshot) (x : String) (key : ModuleKey) : Prop :=
  ∃ d, s.declared? x = some d ∧ key ∈ d.dependencies

/-- The configuration `x` extends `y`, directly or through others. -/
def Extends (s : Snapshot) (x y : String) : Prop :=
  Relation.TransGen (fun x y => y ∈ s.parents x) x y

/-- Nothing that can be reached from the configuration extends itself. -/
def Acyclic (s : Snapshot) (name : String) : Prop :=
  ∀ x, Reaches s.parents name x → ¬ s.Extends x x

theorem acyclic_of_rank (rank : String → Nat)
    (h : ∀ e ∈ s.document.configurations, ∀ p ∈ e.extendsFrom, rank p < rank e.name) :
    s.Acyclic name := by
  have hstep : ∀ x y, y ∈ s.parents x → rank y < rank x := by
    intro x y hy
    cases hx : s.configuration? x with
    | none => simp [parents, hx] at hy
    | some e =>
      rw [parents_of_configuration? hx] at hy
      simpa [name_of_configuration? hx] using h e (mem_of_configuration? hx) y hy
  have hextends : ∀ x y, s.Extends x y → rank y < rank x := by
    intro x y hxy
    induction hxy with
    | single hy => exact hstep _ _ hy
    | tail _ hy ih => exact Nat.lt_trans (hstep _ _ hy) ih
  exact fun x _ hx => Nat.lt_irrefl _ (hextends x x hx)

theorem extends_iff : s.Extends x y ↔ ReachedFrom s.parents (s.parents x) y :=
  Relation.TransGen.head'_iff

theorem name_of_declared? (h : s.declared? x = some d) : d.name = x := by
  obtain ⟨e, he, rfl⟩ := Option.map_eq_some_iff.mp h
  exact name_of_configuration? he

theorem hierarchy_eq_bind : s.hierarchy name = do
    return (← s.hierarchyNames name).filterMap s.declared? := by
  simp only [hierarchy, List.map_filterMap]
  rfl

theorem value_hierarchy :
    (s.hierarchy name).value = (s.hierarchyNames name).value.filterMap s.declared? := by
  rw [hierarchy_eq_bind]
  rfl

theorem mem_hierarchy : d ∈ (s.hierarchy name).value ↔
    d.name ∈ (s.hierarchyNames name).value ∧ s.declared? d.name = some d := by
  rw [value_hierarchy, List.mem_filterMap]
  constructor
  · rintro ⟨x, hx, hd⟩
    obtain rfl := name_of_declared? hd
    exact ⟨hx, hd⟩
  · rintro ⟨hx, hd⟩
    exact ⟨d.name, hx, hd⟩

theorem reaches_of_mem_hierarchyNames (h : x ∈ (s.hierarchyNames name).value) :
    Reaches s.parents name x := by
  rcases mem_or_reachedFrom_of_mem_climb h with hx | hx
  · exact List.mem_singleton.mp hx ▸ reaches_refl
  · exact reaches_iff.mpr (.inr hx)

theorem nodup_hierarchyNames : (s.hierarchyNames name).value.Nodup :=
  nodup_climb (List.nodup_singleton name)

theorem map_name_hierarchy (hname : name ∈ s.document.configurationNames) :
    (s.hierarchy name).value.map (·.name) = (s.hierarchyNames name).value := by
  rw [value_hierarchy, List.map_filterMap]
  refine Eq.trans (List.filterMap_congr (g := some) fun x hx => ?_) List.filterMap_some
  obtain ⟨e, he⟩ := exists_configuration?_iff.mpr
    (mem_configurationNames_of_reaches hname (reaches_of_mem_hierarchyNames hx))
  simp [declared?, he, ConfigurationEntry.declared, name_of_configuration? he]

theorem Acyclic.unblocked (h : s.Acyclic name) (hname : name ∈ s.document.configurationNames) :
    Unblocked s.parents (s.document.configurationNames.erase name) (s.parents name) where
  free x hx := by
    have hxn : x ≠ name := by
      rintro rfl
      exact h x reaches_refl (extends_iff.mpr hx)
    have hmem := mem_configurationNames_of_reaches hname (reaches_iff.mpr (.inr hx))
    exact (List.mem_erase_of_ne hxn).mpr hmem
  acyclic x hx := mt extends_iff.mpr (h x (reaches_iff.mpr (.inr hx)))

/-- By the climb from `name`, and for `name` itself because it never moves. -/
theorem Acyclic.precedes_hierarchyNames (h : s.Acyclic name)
    (hname : name ∈ s.document.configurationNames) (hx : Reaches s.parents name x)
    (hxy : s.Extends x y) : Precedes (s.hierarchyNames name).value x y := by
  have hunblocked := h.unblocked hname
  rw [extends_iff] at hxy
  rcases reaches_iff.mp hx with rfl | hx
  · have hself := mt extends_iff.mpr (h name reaches_refl)
    exact precedes_climb_of_not_reached hunblocked (List.mem_singleton_self name) hself hxy
  · exact precedes_climb hunblocked hx hxy

theorem Acyclic.precedes_hierarchy (h : s.Acyclic name)
    (hname : name ∈ s.document.configurationNames) (hd : d ∈ (s.hierarchy name).value)
    (hy : s.Extends d.name y) : Precedes ((s.hierarchy name).value.map (·.name)) d.name y := by
  rw [map_name_hierarchy hname]
  exact h.precedes_hierarchyNames hname (reaches_of_mem_hierarchyNames (mem_hierarchy.mp hd).1) hy

/-- What the last configuration to declare a key extends does not declare it. -/
theorem Acyclic.not_declares_of_last (h : s.Acyclic name)
    (hname : name ∈ s.document.configurationNames)
    (hlast : LastDeclares (s.hierarchy name).value key d) (hy : s.Extends d.name y) :
    ¬ s.Declares y key := by
  obtain ⟨before, after, hlist, _, hafter⟩ := hlast
  have hnodup : ((s.hierarchy name).value.map (·.name)).Nodup :=
    map_name_hierarchy hname ▸ nodup_hierarchyNames
  have hbefore := h.precedes_hierarchy hname (d := d) (by simp [hlist]) hy
  rw [hlist, List.map_append, List.map_cons] at hbefore hnodup
  obtain ⟨e, he, rfl⟩ := List.mem_map.mp (hbefore.mem_after hnodup)
  rintro ⟨e', he', hkey⟩
  have hmem : e ∈ (s.hierarchy name).value := by simp [hlist, he]
  cases he'.symm.trans (mem_hierarchy.mp hmem).2
  exact hafter e he hkey

theorem hierarchy_of_configuration (h : (s.configuration name).value = some c) :
    name ∈ s.document.configurationNames ∧ c.name = name ∧
      c.hierarchy = (s.hierarchy name).value := by
  cases hname : s.configuration? name with
  | none => simp [configuration, hname] at h
  | some e =>
    simp only [configuration, hname, Logged.value_bind, Logged.value_pure] at h
    cases h
    exact ⟨exists_configuration?_iff.mp ⟨e, hname⟩, rfl, rfl⟩

/-- Each configuration stands before all that it extends. So the scope of a
declared dependency is that of a configuration that declares it and extends
none that does. -/
theorem hierarchy_sorted (hc : (s.configuration name).value = some c) (hacyclic : s.Acyclic name) :
    ((c.hierarchy.map (·.name)).Nodup ∧
      ∀ d ∈ c.hierarchy, ∀ y, s.Extends d.name y → Precedes (c.hierarchy.map (·.name)) d.name y) ∧
    ∀ fallback, Scope.ofConfiguration? name = some fallback →
      ∀ key, (∃ d ∈ c.hierarchy, key ∈ d.dependencies) →
        ∃ d ∈ c.hierarchy, s.Declares d.name key ∧
          (∀ y, s.Extends d.name y → ¬ s.Declares y key) ∧
          c.scope? key = some (Scope.ofConfiguration d.name fallback) := by
  obtain ⟨hname, hcname, hhierarchy⟩ := hierarchy_of_configuration hc
  refine ⟨⟨?_, ?_⟩, ?_⟩
  · rw [hhierarchy, map_name_hierarchy hname]
    exact nodup_hierarchyNames
  · intro d hd y hy
    rw [hhierarchy] at hd ⊢
    exact hacyclic.precedes_hierarchy hname hd hy
  · intro fallback hfallback key hdeclared
    obtain ⟨d, hlast⟩ := exists_lastDeclares hdeclared
    refine ⟨d, hlast.mem, ?_, fun y hy => ?_, ?_⟩
    · exact ⟨d, (mem_hierarchy.mp (hhierarchy ▸ hlast.mem)).2, hlast.declares⟩
    · exact hacyclic.not_declares_of_last hname (hhierarchy ▸ hlast) hy
    · exact Configuration.scope?_eq_some_iff.mpr ⟨fallback, hcname ▸ hfallback, d, hlast, rfl⟩

/-- Two configurations extend a shared one, which declares what one of them
declares as well. -/
def diamond : Snapshot where
  document := {
    rootProject := "demo"
    modules := [
      { coordinates := ⟨"org.acme", "api", "1"⟩, artifacts := [{}],
        children := ["org.acme:json:1"] },
      { coordinates := ⟨"org.acme", "json", "1"⟩, artifacts := [{}] }]
    configurations := [
      { name := "compileOnly", dependencies := ["org.acme:api"] },
      { name := "implementation", extendsFrom := ["compileOnly"] },
      { name := "runtimeOnly", extendsFrom := ["compileOnly"], dependencies := ["org.acme:api"] },
      { name := "runtimeClasspath", extendsFrom := ["implementation", "runtimeOnly"],
        firstLevel := ["org.acme:api:1"] }] }
  closed := Document.firstFault?_eq_none_iff.mp (by decide)

theorem diamond_acyclic : diamond.Acyclic "runtimeClasspath" :=
  acyclic_of_rank ["compileOnly", "runtimeOnly", "implementation"].idxOf (by decide)

theorem name_of_diamond_declares (h : diamond.Declares x (.ofParts "org.acme" "api")) :
    x = "compileOnly" ∨ x = "runtimeOnly" := by
  obtain ⟨d, hd, hkey⟩ := h
  obtain ⟨e, he, rfl⟩ := Option.map_eq_some_iff.mp hd
  have hmem := mem_of_configuration? he
  rw [← name_of_configuration? he]
  simp only [diamond, List.mem_cons, List.not_mem_nil, or_false] at hmem
  rcases hmem with rfl | rfl | rfl | rfl
  all_goals revert hkey; decide

theorem diamond_extends : diamond.Extends "runtimeOnly" "compileOnly" :=
  .single (by decide)

theorem diamond_declares : diamond.Declares "compileOnly" (.ofParts "org.acme" "api") :=
  ⟨_, rfl, by decide⟩

/-- `compileOnly` stands behind `runtimeOnly` and decides. -/
theorem diamond_sorted : ∃ c, (diamond.configuration "runtimeClasspath").value = some c ∧
    Precedes (c.hierarchy.map (·.name)) "runtimeOnly" "compileOnly" ∧
    c.scope? (.ofParts "org.acme" "api") = some .provided := by
  have hnames : (diamond.hierarchyNames "runtimeClasspath").value =
      ["runtimeClasspath", "implementation", "runtimeOnly", "compileOnly"] := by cbv
  have hc : (diamond.configuration "runtimeClasspath").value = some
      { name := "runtimeClasspath"
        hierarchy := (diamond.hierarchy "runtimeClasspath").value
        graph := diamond.graph ["org.acme:api:1"] } := rfl
  obtain ⟨⟨_, hsorted⟩, hscope⟩ := hierarchy_sorted hc diamond_acyclic
  have hmem : ⟨"runtimeOnly", [.ofParts "org.acme" "api"]⟩ ∈
      (diamond.hierarchy "runtimeClasspath").value :=
    mem_hierarchy.mpr ⟨by simp [hnames], rfl⟩
  obtain ⟨d, _, hd, hnone, hscope⟩ := hscope .runtime rfl
    (.ofParts "org.acme" "api") ⟨_, hmem, by simp⟩
  refine ⟨_, hc, hsorted _ hmem _ diamond_extends, ?_⟩
  rcases name_of_diamond_declares hd with hname | hname
  · rw [hscope, hname]
    rfl
  · exact absurd diamond_declares (hnone _ (hname ▸ diamond_extends))

end Snapshot

end ServerFractions
