import ServerFractions.Proofs.Coordinates
import ServerFractions.Proofs.FirstWithout
import ServerFractions.Snapshot.Basic

/-!
# Loading decides closedness

A document loads exactly when it is closed, and else its earliest violation is
named (`load_decides`). `EarliestFault` says which one that is in terms of the
document: repeated modules come before unknown children, those before repeated
configurations, and those before the references of a configuration.
-/

namespace ServerFractions.Snapshot

open ModuleKey (IsKey)

-- ---------------------------------------------------------------------------
-- The first repetition
-- ---------------------------------------------------------------------------

section

variable {α : Type} {a : α} {as seen : List α}

/-- `a` is the first of the elements that occurred before. -/
def FirstRepeated (as : List α) (a : α) : Prop :=
  ∃ before after, as = before ++ a :: after ∧ before.Nodup ∧ a ∈ before

theorem firstRepeated?_eq_some_iff_of_seen [DecidableEq α] :
    firstRepeated? seen as = some a ↔ ∃ before after, as = before ++ a :: after ∧ before.Nodup ∧
      (∀ b ∈ before, b ∉ seen) ∧ (a ∈ seen ∨ a ∈ before) := by
  induction as generalizing seen with
  | nil => simp [firstRepeated?]
  | cons x as ih =>
    by_cases hx : x ∈ seen
    · simp only [firstRepeated?, hx, if_true]
      constructor
      · rintro ⟨⟩
        exact ⟨[], as, rfl, .nil, by simp, .inl hx⟩
      · rintro ⟨before, after, hlist, _, hbefore, _⟩
        cases before with
        | nil => grind
        | cons y before => grind
    · simp only [firstRepeated?, hx, if_false, ih]
      constructor
      · rintro ⟨before, after, rfl, hnodup, hbefore, ha⟩
        refine ⟨x :: before, after, rfl, ?_, ?_, ?_⟩
        all_goals grind
      · rintro ⟨before, after, hlist, hnodup, hbefore, ha⟩
        cases before with
        | nil => grind
        | cons y before =>
          refine ⟨before, after, ?_, ?_, ?_, ?_⟩
          all_goals grind

theorem firstRepeated?_eq_some_iff [DecidableEq α] :
    firstRepeated? [] as = some a ↔ FirstRepeated as a := by
  simp [firstRepeated?_eq_some_iff_of_seen, FirstRepeated]

end

-- ---------------------------------------------------------------------------
-- Messages
-- ---------------------------------------------------------------------------

/-- The text has the names one after the other, each between quotation marks. -/
def Quotes : String → List String → Prop
  | _, [] => True
  | text, name :: names =>
    ∃ before after, text = before ++ "'" ++ name ++ "'" ++ after ∧ Quotes after names

/-- What is to be found in the document where a fault is. -/
def SnapshotFault.names : SnapshotFault → List String
  | .repeatedModule gav => [gav]
  | .unknownChild module child => [module, child]
  | .repeatedConfiguration name => [name]
  | .unknownParent configuration parent => [configuration, parent]
  | .malformedKey configuration dependency => [configuration, dependency]
  | .unknownModule configuration gav => [configuration, gav]

theorem quotes_one (start name rest : String) :
    Quotes (start ++ "'" ++ name ++ ("'" ++ rest)) [name] :=
  ⟨start, rest, by simp only [String.append_assoc], trivial⟩

theorem quotes_two (start name middle name' rest : String) :
    Quotes (start ++ "'" ++ name ++ ("'" ++ middle ++ "'") ++ name' ++ ("'" ++ rest))
      [name, name'] :=
  ⟨start, middle ++ "'" ++ name' ++ "'" ++ rest, by simp only [String.append_assoc],
    middle, rest, rfl, trivial⟩

theorem SnapshotFault.quotes_message (f : SnapshotFault) : Quotes f.message f.names := by
  cases f with
  | repeatedModule gav => exact quotes_one "module " gav " is listed twice"
  | unknownChild module child =>
    exact quotes_two "module " module " references unknown child " child ""
  | repeatedConfiguration name => exact quotes_one "configuration " name " is listed twice"
  | unknownParent configuration parent =>
    exact quotes_two "configuration " configuration " extends unknown configuration " parent ""
  | malformedKey configuration dependency =>
    exact quotes_two "configuration " configuration " declares " dependency
      ", expected 'group:artifact'"
  | unknownModule configuration gav =>
    exact quotes_two "configuration " configuration " lists unknown module " gav ""

-- ---------------------------------------------------------------------------
-- Faults
-- ---------------------------------------------------------------------------

namespace Document

variable {d : Document} {c : ConfigurationEntry} {f : SnapshotFault}

theorem configurationClosed_iff : d.ConfigurationClosed c ↔
    (∀ p ∈ c.extendsFrom, p ∈ d.configurationNames) ∧ (∀ k ∈ c.dependencies, IsKey k) ∧
      ∀ g ∈ c.firstLevel, g ∈ d.gavs := by
  simp only [← ModuleKey.isSome_parse?_iff]
  exact ⟨fun h => ⟨h.parents, h.keys, h.firstLevel⟩, fun h => ⟨h.1, h.2.1, h.2.2⟩⟩

/-- The earliest fault among the references of a configuration. -/
inductive EarliestReference (d : Document) (c : ConfigurationEntry) : SnapshotFault → Prop
  | parent {p : String} (hp : FirstWithout (· ∈ d.configurationNames) c.extendsFrom p) :
    EarliestReference d c (.unknownParent c.name p)
  | key {k : String} (hparents : ∀ p ∈ c.extendsFrom, p ∈ d.configurationNames)
    (hk : FirstWithout IsKey c.dependencies k) : EarliestReference d c (.malformedKey c.name k)
  | firstLevel {g : String} (hparents : ∀ p ∈ c.extendsFrom, p ∈ d.configurationNames)
    (hkeys : ∀ k ∈ c.dependencies, IsKey k) (hg : FirstWithout (· ∈ d.gavs) c.firstLevel g) :
    EarliestReference d c (.unknownModule c.name g)

/-- The earliest fault of a document. -/
inductive EarliestFault (d : Document) : SnapshotFault → Prop
  | repeatedModule {g : String} (hg : FirstRepeated d.gavs g) : EarliestFault d (.repeatedModule g)
  | unknownChild {m : ModuleEntry} {x : String} (hgavs : d.gavs.Nodup)
    (hm : FirstWithout (fun m => ∀ x ∈ m.children, x ∈ d.gavs) d.modules m)
    (hx : FirstWithout (· ∈ d.gavs) m.children x) : EarliestFault d (.unknownChild m.gav x)
  | repeatedConfiguration {name : String} (hgavs : d.gavs.Nodup)
    (hchildren : ∀ m ∈ d.modules, ∀ x ∈ m.children, x ∈ d.gavs)
    (hname : FirstRepeated d.configurationNames name) :
    EarliestFault d (.repeatedConfiguration name)
  | reference {c : ConfigurationEntry} {f : SnapshotFault} (hgavs : d.gavs.Nodup)
    (hchildren : ∀ m ∈ d.modules, ∀ x ∈ m.children, x ∈ d.gavs)
    (hnames : d.configurationNames.Nodup)
    (hc : FirstWithout d.ConfigurationClosed d.configurations c) (hf : d.EarliestReference c f) :
    EarliestFault d f

theorem configurationFault?_eq_some_iff :
    d.configurationFault? c = some f ↔ d.EarliestReference c f := by
  have hparent : ∀ p, decide (p ∉ d.configurationNames) = true ↔ ¬ p ∈ d.configurationNames := by
    simp
  have hkey : ∀ k, (ModuleKey.parse? k).isNone = true ↔ ¬ IsKey k := by
    intro k
    rw [← ModuleKey.isSome_parse?_iff, Option.isNone_iff_eq_none, Option.not_isSome_iff_eq_none]
  have hmodule : ∀ g, decide (g ∉ d.gavs) = true ↔ ¬ g ∈ d.gavs := by simp
  simp only [configurationFault?, Option.or_eq_some_iff, Option.map_eq_some_iff,
    Option.map_eq_none_iff, find?_eq_some_iff_firstWithout hparent,
    find?_eq_none_iff_forall hparent, find?_eq_some_iff_firstWithout hkey,
    find?_eq_none_iff_forall hkey, find?_eq_some_iff_firstWithout hmodule]
  constructor
  · rintro (⟨p, hp, rfl⟩ | ⟨hparents, ⟨k, hk, rfl⟩ | ⟨hkeys, g, hg, rfl⟩⟩)
    · exact .parent hp
    · exact .key hparents hk
    · exact .firstLevel hparents hkeys hg
  · intro h
    cases h with
    | parent hp => exact .inl ⟨_, hp, rfl⟩
    | key hparents hk => exact .inr ⟨hparents, .inl ⟨_, hk, rfl⟩⟩
    | firstLevel hparents hkeys hg => exact .inr ⟨hparents, .inr ⟨hkeys, _, hg, rfl⟩⟩

theorem moduleFault?_eq_none_iff {m : ModuleEntry} :
    d.moduleFault? m = none ↔ ∀ x ∈ m.children, x ∈ d.gavs := by
  simp [moduleFault?]

theorem moduleFault?_eq_some_iff {m : ModuleEntry} : d.moduleFault? m = some f ↔
    ∃ x, FirstWithout (· ∈ d.gavs) m.children x ∧ .unknownChild m.gav x = f := by
  have hchild : ∀ x, decide (x ∉ d.gavs) = true ↔ ¬ x ∈ d.gavs := by simp
  simp only [moduleFault?, Option.map_eq_some_iff, find?_eq_some_iff_firstWithout hchild]

theorem firstFault?_eq_some_iff : d.firstFault? = some f ↔ d.EarliestFault f := by
  have hrepeated : ∀ as : List String, firstRepeated? [] as = none ↔ as.Nodup := by
    simp [firstRepeated?_eq_none_iff]
  simp only [firstFault?, Option.or_eq_some_iff, Option.map_eq_some_iff, Option.map_eq_none_iff,
    firstRepeated?_eq_some_iff, hrepeated, List.findSome?_eq_none_iff, moduleFault?_eq_none_iff,
    findSome?_eq_some_iff_firstWithout fun _ => moduleFault?_eq_none_iff,
    findSome?_eq_some_iff_firstWithout fun _ => configurationFault?_eq_none_iff,
    moduleFault?_eq_some_iff, configurationFault?_eq_some_iff]
  constructor
  · rintro (⟨g, hg, rfl⟩ | ⟨hgavs, ⟨m, hm, x, hx, rfl⟩ | ⟨hchildren, ⟨name, hname, rfl⟩ |
      ⟨hnames, c, hc, hf⟩⟩⟩)
    · exact .repeatedModule hg
    · exact .unknownChild hgavs hm hx
    · exact .repeatedConfiguration hgavs hchildren hname
    · exact .reference hgavs hchildren hnames hc hf
  · intro h
    cases h with
    | repeatedModule hg => exact .inl ⟨_, hg, rfl⟩
    | unknownChild hgavs hm hx => exact .inr ⟨hgavs, .inl ⟨_, hm, _, hx, rfl⟩⟩
    | repeatedConfiguration hgavs hchildren hname =>
      exact .inr ⟨hgavs, .inr ⟨hchildren, .inl ⟨_, hname, rfl⟩⟩⟩
    | reference hgavs hchildren hnames hc hf =>
      exact .inr ⟨hgavs, .inr ⟨hchildren, .inr ⟨hnames, _, hc, hf⟩⟩⟩

theorem closed_iff : d.Closed ↔ d.gavs.Nodup ∧ (∀ m ∈ d.modules, ∀ x ∈ m.children, x ∈ d.gavs) ∧
    d.configurationNames.Nodup ∧ ∀ c ∈ d.configurations, d.ConfigurationClosed c := by
  constructor
  · intro h
    exact ⟨h.modules_distinct, h.children_known, h.configurations_distinct, h.configurations_closed⟩
  · rintro ⟨hgavs, hchildren, hnames, hconfigurations⟩
    exact ⟨hgavs, hchildren, hnames, hconfigurations⟩

end Document

-- ---------------------------------------------------------------------------
-- Loading
-- ---------------------------------------------------------------------------

variable {d : Document} {text source : String} {s : Snapshot} {fault : Fault}

theorem ofDocument_eq_ok_iff : ofDocument d = .ok s ↔ d.firstFault? = none ∧ s.document = d := by
  unfold ofDocument
  split
  · rename_i h
    cases s
    simp [h, eq_comm]
  · rename_i h
    simp [h]

theorem ofDocument_eq_error_iff {f : SnapshotFault} :
    ofDocument d = .error f ↔ d.firstFault? = some f := by
  unfold ofDocument
  split
  · rename_i h
    simp [h]
  · rename_i h
    simp [h]

theorem load_eq_ok_iff (hd : Document.read? text = some d) :
    (load text source).value = .ok s ↔ d.firstFault? = none ∧ s.document = d := by
  rw [← ofDocument_eq_ok_iff]
  simp only [load, parse, hd]
  cases ofDocument d <;> simp [Except.mapError]

theorem load_eq_error_iff (hd : Document.read? text = some d) :
    (load text source).value = .error fault ↔
      ∃ f, d.firstFault? = some f ∧ fault = .badSnapshot source f.message := by
  simp only [← ofDocument_eq_error_iff]
  simp only [load, parse, hd]
  cases ofDocument d <;> simp [Except.mapError, LoadFault.message, eq_comm]

/-- A text that holds a document loads exactly when nothing that the document
refers to is missing or ambiguous. What loads is that document, and what does
not load is refused for its earliest fault, with the names that are at fault in
the message. -/
theorem load_decides (hd : Document.read? text = some d) :
    ((∃ s, (load text source).value = .ok s) ↔
      d.gavs.Nodup ∧ (∀ m ∈ d.modules, ∀ x ∈ m.children, x ∈ d.gavs) ∧
      d.configurationNames.Nodup ∧ ∀ c ∈ d.configurations,
        (∀ p ∈ c.extendsFrom, p ∈ d.configurationNames) ∧ (∀ k ∈ c.dependencies, IsKey k) ∧
          ∀ g ∈ c.firstLevel, g ∈ d.gavs) ∧
    (∀ s, (load text source).value = .ok s → s.document = d) ∧
    (∀ fault, (load text source).value = .error fault ↔
      ∃ f, d.EarliestFault f ∧ fault = .badSnapshot source f.message) ∧
    ∀ f, d.EarliestFault f → Quotes f.message f.names := by
  refine ⟨?_, fun s hs => ((load_eq_ok_iff hd).mp hs).2, fun fault => ?_,
    fun f _ => f.quotes_message⟩
  · simp only [load_eq_ok_iff hd, Document.firstFault?_eq_none_iff,
      ← Document.configurationClosed_iff, ← Document.closed_iff]
    exact ⟨fun ⟨_, h, _⟩ => h, fun h => ⟨⟨d, h⟩, h, rfl⟩⟩
  · simp only [load_eq_error_iff hd, Document.firstFault?_eq_some_iff]

/-- Extends a configuration that is not there and declares what is no key. -/
def dangling : Document where
  rootProject := "demo"
  configurations := [
    { name := "runtimeClasspath", extendsFrom := ["nope"], dependencies := ["org.acme"] }]

def danglingText : String :=
  "\x7b\"root_project\":\"demo\",\"configurations\":[\x7b\"name\":\"runtimeClasspath\"," ++
    "\"extends_from\":[\"nope\"],\"dependencies\":[\"org.acme\"]\x7d]\x7d"

theorem read?_danglingText : Document.read? danglingText = some dangling := by
  decide +kernel

/-- What is extended comes before what is declared. -/
theorem load_danglingText :
    (load danglingText "build.json").value = .error (.badSnapshot "build.json"
      "configuration 'runtimeClasspath' extends unknown configuration 'nope'") ∧
    Quotes "configuration 'runtimeClasspath' extends unknown configuration 'nope'"
      ["runtimeClasspath", "nope"] := by
  have hparent : FirstWithout (· ∈ dangling.configurationNames) ["nope"] "nope" :=
    ⟨[], [], rfl, by simp, by decide⟩
  have hopen : ¬ dangling.ConfigurationClosed
      { name := "runtimeClasspath", extendsFrom := ["nope"], dependencies := ["org.acme"] } :=
    fun h => absurd (h.parents "nope" (by simp)) (by decide)
  have hfirst : dangling.EarliestFault (.unknownParent "runtimeClasspath" "nope") :=
    .reference (by decide) (by simp [dangling]) (by decide) ⟨[], [], rfl, by simp, hopen⟩
      (.parent hparent)
  obtain ⟨_, _, hfault, hquotes⟩ := load_decides read?_danglingText
  exact ⟨(hfault _).mpr ⟨_, hfirst, rfl⟩, hquotes _ hfirst⟩

end ServerFractions.Snapshot
