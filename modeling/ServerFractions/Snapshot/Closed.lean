import ServerFractions.Snapshot.Document

/-!
# Closed documents

A document is closed when everything it refers to exists: modules have
distinct gavs and known children, configurations have distinct names, extend
known configurations, declare `group:artifact` keys and list known modules.
`firstFault?` finds the earliest violation: all modules before all
configurations, repetitions before references. Main statement:
`firstFault?_eq_none_iff`, no fault is found exactly in closed documents.
-/

namespace ServerFractions.Snapshot

inductive SnapshotFault where
  | repeatedModule (gav : String)
  | unknownChild (module child : String)
  | repeatedConfiguration (name : String)
  | unknownParent (configuration parent : String)
  | malformedKey (configuration dependency : String)
  | unknownModule (configuration gav : String)
  deriving DecidableEq, Repr

def SnapshotFault.message : SnapshotFault → String
  | .repeatedModule gav => s!"module '{gav}' is listed twice"
  | .unknownChild module child => s!"module '{module}' references unknown child '{child}'"
  | .repeatedConfiguration name => s!"configuration '{name}' is listed twice"
  | .unknownParent configuration parent =>
    s!"configuration '{configuration}' extends unknown configuration '{parent}'"
  | .malformedKey configuration dependency =>
    s!"configuration '{configuration}' declares '{dependency}', expected 'group:artifact'"
  | .unknownModule configuration gav =>
    s!"configuration '{configuration}' lists unknown module '{gav}'"

/-- The first element that stands in `seen` or occurred before. -/
def firstRepeated? {α : Type} [DecidableEq α] (seen : List α) : List α → Option α
  | [] => none
  | a :: as => if a ∈ seen then some a else firstRepeated? (a :: seen) as

namespace Document

structure ConfigurationClosed (d : Document) (c : ConfigurationEntry) : Prop where
  parents : ∀ p ∈ c.extendsFrom, p ∈ d.configurationNames
  keys : ∀ k ∈ c.dependencies, (ModuleKey.parse? k).isSome
  firstLevel : ∀ g ∈ c.firstLevel, g ∈ d.gavs

structure Closed (d : Document) : Prop where
  modules_distinct : d.gavs.Nodup
  children_known : ∀ m ∈ d.modules, ∀ c ∈ m.children, c ∈ d.gavs
  configurations_distinct : d.configurationNames.Nodup
  configurations_closed : ∀ c ∈ d.configurations, d.ConfigurationClosed c

def moduleFault? (d : Document) (m : ModuleEntry) : Option SnapshotFault :=
  (m.children.find? (· ∉ d.gavs)).map (.unknownChild m.gav)

def configurationFault? (d : Document) (c : ConfigurationEntry) : Option SnapshotFault :=
  ((c.extendsFrom.find? (· ∉ d.configurationNames)).map (.unknownParent c.name)).or <|
  ((c.dependencies.find? (ModuleKey.parse? · |>.isNone)).map (.malformedKey c.name)).or <|
  (c.firstLevel.find? (· ∉ d.gavs)).map (.unknownModule c.name)

def firstFault? (d : Document) : Option SnapshotFault :=
  ((firstRepeated? [] d.gavs).map .repeatedModule).or <|
  (d.modules.findSome? d.moduleFault?).or <|
  ((firstRepeated? [] d.configurationNames).map .repeatedConfiguration).or <|
  d.configurations.findSome? d.configurationFault?

end Document

-- ---------------------------------------------------------------------------
-- Faults and closedness
-- ---------------------------------------------------------------------------

theorem firstRepeated?_eq_none_iff {α : Type} [DecidableEq α] {seen as : List α} :
    firstRepeated? seen as = none ↔ as.Nodup ∧ ∀ a ∈ as, a ∉ seen := by
  induction as generalizing seen with
  | nil => simp [firstRepeated?]
  | cons a as ih =>
    by_cases h : a ∈ seen
    · simp [firstRepeated?, h]
    · simp only [firstRepeated?, h, if_false, ih, List.nodup_cons, List.mem_cons, not_or]
      grind

theorem Document.configurationFault?_eq_none_iff {d : Document} {c : ConfigurationEntry} :
    d.configurationFault? c = none ↔ d.ConfigurationClosed c := by
  simp only [configurationFault?, Option.or_eq_none_iff, Option.map_eq_none_iff,
    List.find?_eq_none, decide_eq_true_eq, Classical.not_not, Option.isNone_iff_eq_none]
  constructor
  · rintro ⟨p, k, f⟩
    exact ⟨p, fun x hx => Option.isSome_iff_ne_none.2 (k x hx), f⟩
  · rintro ⟨p, k, f⟩
    exact ⟨p, fun x hx => Option.isSome_iff_ne_none.1 (k x hx), f⟩

theorem Document.firstFault?_eq_none_iff {d : Document} : d.firstFault? = none ↔ d.Closed := by
  simp only [firstFault?, moduleFault?, Option.or_eq_none_iff, Option.map_eq_none_iff,
    firstRepeated?_eq_none_iff, List.findSome?_eq_none_iff, List.find?_eq_none,
    decide_eq_true_eq, Classical.not_not, Document.configurationFault?_eq_none_iff]
  constructor
  · rintro ⟨⟨m, _⟩, c, ⟨n, _⟩, k⟩
    exact ⟨m, c, n, k⟩
  · rintro ⟨m, c, n, k⟩
    exact ⟨⟨m, by simp⟩, c, ⟨n, by simp⟩, k⟩

end ServerFractions.Snapshot
