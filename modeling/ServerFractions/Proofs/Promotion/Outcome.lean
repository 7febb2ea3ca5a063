import ServerFractions.Proofs.FirstWithout
import ServerFractions.Proofs.Promotion.Entries

/-!
# When there is no result

A configuration whose name has no scope is refused by that name, and any other
one by the earliest key of its first level that the hierarchy does not declare
(`resolve_outcome`). Modules that are skipped have to be declared like all
others. Entries that were made before the missing key is met are dropped with
the refusal, so the mode, the fractions and what lies below the first level
have no part in it.
-/

namespace ServerFractions

namespace Graph

/-- The keys of the modules at the given nodes. Places without a module, which
a built graph does not name, have none. -/
def keys (g : Graph) (ns : List Node) : List ModuleKey :=
  (ns.filterMap g.module?).map (·.coordinates.key)

theorem mem_keys {g : Graph} {ns : List Node} {key : ModuleKey} :
    key ∈ g.keys ns ↔ ∃ n ∈ ns, ∃ m, g.module? n = some m ∧ m.coordinates.key = key := by
  simp only [keys, List.mem_map, List.mem_filterMap]
  constructor
  · rintro ⟨m, ⟨n, hn, hm⟩, hkey⟩
    exact ⟨n, hn, m, hm, hkey⟩
  · rintro ⟨n, hn, m, hm, hkey⟩
    exact ⟨m, ⟨n, hn, hm⟩, hkey⟩

end Graph

namespace Configuration

open Promotion

variable {c c' : Configuration} {fractions fractions' : List ModuleKey} {transitive transitive' : Bool}
  {f : Fault} {key : ModuleKey} {fallback : Scope}

-- ---------------------------------------------------------------------------
-- The first level against the hierarchy
-- ---------------------------------------------------------------------------

/-- The keys of the first level, in its order. -/
def firstKeys (c : Configuration) : List ModuleKey :=
  c.graph.keys c.graph.firstLevel

/-- Some configuration of the hierarchy declares the key. -/
def Declares (c : Configuration) (key : ModuleKey) : Prop :=
  ∃ d ∈ c.hierarchy, key ∈ d.dependencies

/-- The first-level modules are taken up to the first one without a scope, and
that one is named. -/
theorem resolveRoots_eq_error_iff {g : Graph} {scopeOf : ModuleKey → Option Scope}
    {ns : List Node} {t : TopLevel} :
    (resolveRoots g scopeOf fractions transitive ns t).value = .error f ↔
      ∃ key, FirstWithout (fun key => ∃ s, scopeOf key = some s) (g.keys ns) key ∧
        f = .undeclared key.text := by
  induction ns generalizing t with
  | nil => simp [resolveRoots, Graph.keys, FirstWithout]
  | cons n ns ih =>
    rw [resolveRoots]
    cases hm : g.module? n with
    | none => simpa [Graph.keys, hm] using ih
    | some m =>
      have hkeys : g.keys (n :: ns) = m.coordinates.key :: g.keys ns := by simp [Graph.keys, hm]
      rw [hkeys]
      cases hscope : scopeOf m.coordinates.key with
      | none => simp [firstWithout_cons, hscope, eq_comm]
      | some s => simpa [firstWithout_cons, hscope] using ih

theorem exists_scope?_iff (hname : Scope.ofConfiguration? c.name = some fallback) :
    (∃ s, c.scope? key = some s) ↔ c.Declares key := by
  simp only [scope?, hname, Option.bind_some]
  exact exists_assignedScope_iff

-- ---------------------------------------------------------------------------
-- Refusals
-- ---------------------------------------------------------------------------

/-- Why a configuration has no result. -/
inductive Refused (c : Configuration) : Fault → Prop
  | unknown (hname : Scope.ofConfiguration? c.name = none) :
    Refused c (.unknownConfiguration c.name)
  | undeclared {s : Scope} {key : ModuleKey} (hname : Scope.ofConfiguration? c.name = some s)
    (hkey : FirstWithout c.Declares c.firstKeys key) : Refused c (.undeclared key.text)

theorem resolve_eq_error_iff :
    (c.resolve fractions transitive).value = .error f ↔ c.Refused f := by
  cases hname : Scope.ofConfiguration? c.name with
  | none =>
    have hvalue : (c.resolve fractions transitive).value =
        .error (.unknownConfiguration c.name) := by simp [resolve, hname]
    rw [hvalue]
    constructor
    · rintro ⟨⟩
      exact .unknown hname
    · rintro (_ | ⟨hsome, _⟩)
      · rfl
      · rw [hname] at hsome
        cases hsome
  | some fallback =>
    rw [resolve_eq hname, resolveRoots_eq_error_iff]
    simp only [exists_scope?_iff hname]
    constructor
    · rintro ⟨key, hkey, rfl⟩
      exact .undeclared hname hkey
    · rintro (hnone | ⟨_, hkey⟩)
      · rw [hname] at hnone
        cases hnone
      · exact ⟨_, hkey, rfl⟩

theorem exists_ok_iff : (∃ t, (c.resolve fractions transitive).value = .ok t) ↔
    (∃ s, Scope.ofConfiguration? c.name = some s) ∧ ∀ key ∈ c.firstKeys, c.Declares key := by
  rw [exists_resolve_ok]
  refine and_congr_right fun ⟨fallback, hname⟩ => ?_
  simp only [exists_scope?_iff hname, firstKeys, Graph.mem_keys]
  constructor
  · rintro h _ ⟨n, hn, m, hm, rfl⟩
    exact h n hn m hm
  · exact fun h n hn m hm => h _ ⟨n, hn, m, hm, rfl⟩

-- ---------------------------------------------------------------------------
-- What has no part in it
-- ---------------------------------------------------------------------------

/-- The same name and hierarchy, and the same keys on the first level. Whatever
else the graphs hold may differ. -/
structure SameFirstLevel (c c' : Configuration) : Prop where
  name : c'.name = c.name
  hierarchy : c'.hierarchy = c.hierarchy
  firstKeys : c'.firstKeys = c.firstKeys

/-- That there is a result, or else the fault. -/
def verdict (c : Configuration) (fractions : List ModuleKey) (transitive : Bool) :
    Except Fault Unit :=
  (c.resolve fractions transitive).value.map fun _ => ()

theorem verdict_eq_error_iff : c.verdict fractions transitive = .error f ↔ c.Refused f := by
  have hresolve : (c.resolve fractions transitive).value = .error f ↔ c.Refused f :=
    resolve_eq_error_iff
  rw [← hresolve, verdict]
  cases (c.resolve fractions transitive).value with
  | error f' => simp [Except.map]
  | ok t => simp [Except.map]

theorem SameFirstLevel.symm (h : c.SameFirstLevel c') : c'.SameFirstLevel c :=
  ⟨h.name.symm, h.hierarchy.symm, h.firstKeys.symm⟩

theorem SameFirstLevel.refused (h : c.SameFirstLevel c') (hf : c.Refused f) : c'.Refused f := by
  have hdeclares : c'.Declares = c.Declares := by
    funext key
    simp only [Declares, h.hierarchy]
  cases hf with
  | unknown hname => exact h.name ▸ .unknown (h.name ▸ hname)
  | undeclared hname hkey =>
    rw [← hdeclares, ← h.firstKeys] at hkey
    exact .undeclared (h.name ▸ hname) hkey

theorem SameFirstLevel.verdict_eq (h : c.SameFirstLevel c') :
    c'.verdict fractions' transitive' = c.verdict fractions transitive := by
  have hsame : ∀ f, c'.verdict fractions' transitive' = .error f ↔
      c.verdict fractions transitive = .error f := by
    intro f
    rw [verdict_eq_error_iff, verdict_eq_error_iff]
    exact ⟨h.symm.refused, h.refused⟩
  cases hv : c.verdict fractions transitive with
  | error f => exact (hsame f).mpr hv
  | ok =>
    cases hv' : c'.verdict fractions' transitive' with
    | error f => exact absurd ((hsame f).mp hv') (by simp [hv])
    | ok => rfl

/-- Whether there is a result, and what a refusal names. -/
theorem resolve_outcome (c : Configuration) (fractions : List ModuleKey) (transitive : Bool) :
    (∀ f, (c.resolve fractions transitive).value = .error f ↔ c.Refused f) ∧
    ((∃ t, (c.resolve fractions transitive).value = .ok t) ↔
      (∃ s, Scope.ofConfiguration? c.name = some s) ∧ ∀ key ∈ c.firstKeys, c.Declares key) ∧
    ∀ c' fractions' transitive', c.SameFirstLevel c' →
      c'.verdict fractions' transitive' = c.verdict fractions transitive :=
  ⟨fun _ => resolve_eq_error_iff, exists_ok_iff, fun _ _ _ h => h.verdict_eq⟩

/-- A declared module that leads to a fraction, and a platform behind it that
is not declared. -/
def late : Configuration where
  name := "runtimeClasspath"
  hierarchy := [⟨"runtimeClasspath", [.ofParts "org.acme" "app"]⟩]
  graph := {
    modules := #[
      ⟨⟨"org.acme", "app", "1"⟩, [{}], [1]⟩,
      ⟨⟨"io.thorntail", "jaxrs", "1"⟩, [{}], []⟩,
      ⟨⟨"org.acme", "bom", "1"⟩, [], [0]⟩]
    firstLevel := [0, 2] }

/-- In both modes the platform is named, which has no artifacts, and the
entries of `app` and `jaxrs` are gone. Without its last module the first level
has a result. -/
theorem late_outcome : late.graph.Built ∧
    (∀ transitive, (late.resolve cyclicFractions transitive).value =
      .error (.undeclared "org.acme:bom")) ∧
    ∀ transitive, ∃ t, (Configuration.resolve
      { late with graph := { late.graph with firstLevel := [0] } } cyclicFractions
      transitive).value = .ok t := by
  have hundeclared : FirstWithout late.Declares late.firstKeys (.ofParts "org.acme" "bom") :=
    ⟨[.ofParts "org.acme" "app"], [], rfl, by simp [Declares, late], by simp [Declares, late]; decide⟩
  refine ⟨Graph.built_iff_wellFormed.mpr (by decide), fun transitive => ?_, fun transitive => ?_⟩
  · exact ((resolve_outcome late _ transitive).1 _).mpr (.undeclared rfl hundeclared)
  · refine (resolve_outcome _ _ transitive).2.1.mpr ⟨⟨.runtime, rfl⟩, ?_⟩
    simp [firstKeys, Graph.keys, Graph.module?, Declares, late, Coordinates.key]

end Configuration

end ServerFractions
