import ServerFractions.Proofs.Except
import ServerFractions.Proofs.Text
import ServerFractions.Scenario.Record

/-!
# What can be read as a record

A record is read exactly if it is the text of a complete listing with nothing
but blank text around it (`parse_eq_ok_iff`). A listing may name a technology
twice and in any place; the scenario that is read knows the set of them only,
and its own record is one more text for the same scenario. Which of several
faults a bad record is refused for is not told here.
-/

namespace ServerFractions.Scenario

-- ---------------------------------------------------------------------------
-- Names
-- ---------------------------------------------------------------------------

section

variable {α : Type} {all : List α} {name : α → String} {parse? : String → Option α} {a : α}
  {kind value : String}

/-- A choice is read from its name and from nothing else. -/
theorem choice_eq_ok_iff (hparse : ∀ v, parse? v = all.find? (name · == v))
    (hinj : ∀ a ∈ all, ∀ b ∈ all, name a = name b → a = b) (ha : a ∈ all) :
    choice kind parse? value = .ok a ↔ name a = value := by
  have hchoice : choice kind parse? value = .ok a ↔ parse? value = some a := by
    unfold choice
    cases parse? value <;> simp
  rw [hchoice, hparse]
  constructor
  · intro h
    simpa using List.find?_some h
  · rintro rfl
    obtain ⟨b, hb⟩ : ∃ b, all.find? (name · == name a) = some b :=
      Option.isSome_iff_exists.mp (List.find?_isSome.mpr ⟨a, ha, by simp⟩)
    have hname : name b = name a := by simpa using List.find?_some hb
    rw [hb, hinj b (List.mem_of_find?_eq_some hb) a ha hname]

theorem packagingOf_eq_ok_iff {a : Packaging} : packagingOf value = .ok a ↔ a.name = value :=
  choice_eq_ok_iff (fun _ => rfl) (by decide) (by cases a <;> decide)

theorem dependenciesOf_eq_ok_iff {a : Dependencies} :
    dependenciesOf value = .ok a ↔ a.name = value :=
  choice_eq_ok_iff (fun _ => rfl) (by decide) (by cases a <;> decide)

theorem autodetectionOf_eq_ok_iff {a : Autodetection} :
    autodetectionOf value = .ok a ↔ a.name = value :=
  choice_eq_ok_iff (fun _ => rfl) (by decide) (by cases a <;> decide)

theorem technologyOf_eq_ok_iff {a : Technology} : technologyOf value = .ok a ↔ a.name = value :=
  choice_eq_ok_iff (fun _ => rfl) (by decide) (by cases a <;> decide)

theorem additionalDependencyOf_eq_ok_iff {a : AdditionalDependency} :
    additionalDependencyOf value = .ok a ↔ a.name = value :=
  choice_eq_ok_iff (fun _ => rfl) (by decide) (by cases a <;> decide)

theorem additionalFractionOf_eq_ok_iff {a : AdditionalFraction} :
    additionalFractionOf value = .ok a ↔ a.name = value :=
  choice_eq_ok_iff (fun _ => rfl) (by decide) (by cases a <;> decide)

theorem mapM_technologyOf_eq_ok_iff {values : List String} {ts : List Technology} :
    values.mapM technologyOf = .ok ts ↔ values = ts.map (·.name) := by
  simp only [mapM_eq_ok_iff, technologyOf_eq_ok_iff, eq_comm (b := (_ : String))]
  rw [← List.forall₂_map_right_iff, List.forall₂_eq_eq_eq]

end

-- ---------------------------------------------------------------------------
-- Listings
-- ---------------------------------------------------------------------------

/-- Six choices as a record lists them, with the technologies in any order and
as often as it likes. -/
structure Listing where
  packaging : Packaging
  dependencies : Dependencies
  autodetection : Autodetection
  technologies : List Technology
  additionalDependency : AdditionalDependency
  additionalFraction : AdditionalFraction
  deriving DecidableEq

namespace Listing

def technologyNames (l : Listing) : String :=
  ",".intercalate (l.technologies.map (·.name))

def fields (l : Listing) : List String :=
  [l.packaging.name, l.dependencies.name, l.autodetection.name, l.technologyNames,
    l.additionalDependency.name, l.additionalFraction.name]

def text (l : Listing) : String :=
  ":".intercalate l.fields

/-- The record is the text of the listing, with blank text around it. -/
def WrittenIn (l : Listing) (record : String) : Prop :=
  ∃ before after, record.toList = before ++ l.text.toList ++ after ∧
    Text.Blank before ∧ Text.Blank after

/-- With each technology all those are listed that it depends on. -/
def Complete (l : Listing) : Prop :=
  ∀ t ∈ l.technologies, ∀ p ∈ t.prerequisites, p ∈ l.technologies

/-- The same five choices and the same set of technologies. -/
structure Same (l l' : Listing) : Prop where
  packaging : l.packaging = l'.packaging
  dependencies : l.dependencies = l'.dependencies
  autodetection : l.autodetection = l'.autodetection
  technologies : ∀ t, t ∈ l.technologies ↔ t ∈ l'.technologies
  additionalDependency : l.additionalDependency = l'.additionalDependency
  additionalFraction : l.additionalFraction = l'.additionalFraction

end Listing

variable {l l' l'' : Listing} {s s' : Scenario} {ts ts' : List Technology} {record record' : String}

theorem Listing.Same.refl : l.Same l :=
  ⟨rfl, rfl, rfl, fun _ => .rfl, rfl, rfl⟩

theorem Listing.Same.symm (h : l.Same l') : l'.Same l where
  packaging := h.packaging.symm
  dependencies := h.dependencies.symm
  autodetection := h.autodetection.symm
  technologies t := (h.technologies t).symm
  additionalDependency := h.additionalDependency.symm
  additionalFraction := h.additionalFraction.symm

theorem Listing.Same.trans (h : l.Same l') (h' : l'.Same l'') : l.Same l'' where
  packaging := h.packaging.trans h'.packaging
  dependencies := h.dependencies.trans h'.dependencies
  autodetection := h.autodetection.trans h'.autodetection
  technologies t := (h.technologies t).trans (h'.technologies t)
  additionalDependency := h.additionalDependency.trans h'.additionalDependency
  additionalFraction := h.additionalFraction.trans h'.additionalFraction

/-- The choices of a scenario, with its technologies as they are arranged. -/
def listing (s : Scenario) : Listing :=
  ⟨s.packaging, s.dependencies, s.autodetection, s.technologies, s.additionalDependency,
    s.additionalFraction⟩

theorem text_listing (s : Scenario) : s.listing.text = s.record := rfl

-- ---------------------------------------------------------------------------
-- Choosing
-- ---------------------------------------------------------------------------

theorem missing_eq_nil_iff {t : Technology} :
    missing ts t = [] ↔ ∀ p ∈ t.prerequisites, p ∈ ts := by
  simp [missing]

theorem complete_listing (s : Scenario) : s.listing.Complete := by
  intro t ht
  exact missing_eq_nil_iff.mp (s.prerequisites_included t ht)

/-- Scenarios know the order of their technologies from the set of them. -/
theorem eq_of_same (h : s.listing.Same s'.listing) : s = s' := by
  have htechnologies : s.technologies = s'.technologies := by
    rw [← s.technologies_arranged, ← s'.technologies_arranged]
    simp only [arranged]
    exact List.filter_congr fun t _ => decide_eq_decide.mpr (h.technologies t)
  cases s
  cases s'
  obtain ⟨rfl, rfl, rfl, _, rfl, rfl⟩ := h
  cases htechnologies
  rfl

/-- The scenario of a listing, if there is one. -/
def Listing.chosen (l : Listing) : Except ScenarioFault Scenario :=
  ofChoices l.packaging l.dependencies l.autodetection l.technologies l.additionalDependency
    l.additionalFraction

theorem Listing.complete_iff : l.Complete ↔
    ∀ t ∈ arranged l.technologies, missing (arranged l.technologies) t = [] := by
  simp only [Complete, missing_eq_nil_iff, mem_arranged]

def Listing.Complete.scenario (h : l.Complete) : Scenario where
  packaging := l.packaging
  dependencies := l.dependencies
  autodetection := l.autodetection
  technologies := arranged l.technologies
  additionalDependency := l.additionalDependency
  additionalFraction := l.additionalFraction
  technologies_arranged := arranged_arranged _
  prerequisites_included := complete_iff.mp h

theorem Listing.Complete.same (h : l.Complete) : h.scenario.listing.Same l :=
  ⟨rfl, rfl, rfl, fun _ => mem_arranged, rfl, rfl⟩

theorem Listing.chosen_eq_ok_iff : l.chosen = .ok s ↔ l.Complete ∧ s.listing.Same l := by
  simp only [chosen, ofChoices]
  split
  · rename_i t ht
    have hincomplete : ¬ l.Complete := by
      intro h
      have hmissing := complete_iff.mp h t (List.mem_of_find?_eq_some ht)
      simpa [hmissing] using List.find?_some ht
    simp [hincomplete]
  · rename_i hnone
    have hcomplete : l.Complete := complete_iff.mpr (by simpa using hnone)
    constructor
    · rintro ⟨⟩
      exact ⟨hcomplete, hcomplete.same⟩
    · rintro ⟨_, hs⟩
      exact congrArg Except.ok (eq_of_same (hcomplete.same.trans hs.symm))

theorem Listing.Complete.chosen_eq (h : l.Complete) : l.chosen = .ok h.scenario :=
  chosen_eq_ok_iff.mpr ⟨h, h.same⟩

-- ---------------------------------------------------------------------------
-- Separators
-- ---------------------------------------------------------------------------

theorem Technology.comma_not_mem_name (t : Technology) : ',' ∉ t.name.toList := by
  cases t <;> decide

theorem Listing.toList_technologyNames : l.technologyNames.toList =
    [','].intercalate (l.technologies.map (·.name.toList)) := by
  simp [technologyNames, String.toList_intercalate, Function.comp_def]

theorem Listing.technologyNames_eq_empty_iff : l.technologyNames = "" ↔ l.technologies = [] := by
  rw [← String.toList_inj, toList_technologyNames]
  cases l.technologies with
  | nil => simp
  | cons t ts => cases ts <;> cases t <;> simp [Technology.name]

theorem Listing.colon_not_mem_technologyNames : ':' ∉ l.technologyNames.toList := by
  rw [toList_technologyNames]
  induction l.technologies with
  | nil => simp
  | cons t ts ih =>
    have ht : ':' ∉ t.name.toList := by cases t <;> decide
    cases ts with
    | nil => simpa using ht
    | cons t' ts =>
      rw [List.map_cons] at ih ⊢
      rw [List.map_cons, List.intercalate_cons_cons]
      simpa [ht] using ih

theorem Listing.colon_not_mem_fields : ∀ f ∈ l.fields, ':' ∉ f.toList := by
  simp only [fields, List.forall_mem_cons]
  refine ⟨?_, ?_, ?_, colon_not_mem_technologyNames, ?_, ?_, by simp⟩
  · cases l.packaging <;> decide
  · cases l.dependencies <;> decide
  · cases l.autodetection <;> decide
  · cases l.additionalDependency <;> decide
  · cases l.additionalFraction <;> decide

theorem Listing.split_eq_fields_iff {value : String} :
    Text.split ':' value = l.fields ↔ value = l.text := by
  have htext : l.text.toList = [':'].intercalate (l.fields.map String.toList) :=
    String.toList_intercalate
  rw [Text.split_eq_iff, ← htext, String.toList_inj]
  constructor
  · exact fun h => h.2.2
  · exact fun h => ⟨by simp [fields], colon_not_mem_fields, h⟩

/-- An empty field lists no technologies, and any other one those between its commas. -/
theorem Listing.listed_eq_iff {field : String} :
    (if field = "" then [] else Text.split ',' field) = l.technologies.map (·.name) ↔
      field = l.technologyNames := by
  have hnames : l.technologyNames.toList =
      [','].intercalate ((l.technologies.map (·.name)).map String.toList) :=
    String.toList_intercalate
  split
  · rename_i hempty
    subst hempty
    rw [eq_comm, List.map_eq_nil_iff, eq_comm (a := ""), technologyNames_eq_empty_iff]
  · rename_i hfield
    rw [Text.split_eq_iff, ← hnames, String.toList_inj]
    constructor
    · exact fun h => h.2.2
    · intro h
      have hne : l.technologies ≠ [] := fun hnil =>
        hfield (h.trans (technologyNames_eq_empty_iff.mpr hnil))
      refine ⟨by simpa using hne, ?_, h⟩
      simpa using fun t _ => t.comma_not_mem_name

-- ---------------------------------------------------------------------------
-- Blanks
-- ---------------------------------------------------------------------------

theorem Listing.exists_text_eq : ∃ middle,
    l.text.toList = l.packaging.name.toList ++ middle ++ l.additionalFraction.name.toList := by
  refine ⟨(":" ++ l.dependencies.name ++ ":" ++ l.autodetection.name ++ ":" ++
    l.technologyNames ++ ":" ++ l.additionalDependency.name ++ ":").toList, ?_⟩
  simp [text, fields]

/-- A text begins and ends with a name. -/
theorem Listing.tight_text : Text.Tight l.text.toList := by
  obtain ⟨middle, htext⟩ := l.exists_text_eq
  rw [htext]
  constructor
  · rw [List.append_assoc]
    cases l.packaging <;> simp [Packaging.name, Text.isBlank]
  · cases l.additionalFraction <;> simp [AdditionalFraction.name, Text.isBlank]

theorem Listing.writtenIn_iff : l.WrittenIn record ↔ Text.trim record = l.text := by
  have hne : l.text.toList ≠ [] := by
    obtain ⟨middle, htext⟩ := l.exists_text_eq
    rw [htext]
    cases l.packaging <;> simp [Packaging.name]
  rw [WrittenIn, ← Text.trimChars_eq_iff hne tight_text, ← String.toList_inj, Text.trim,
    String.toList_ofList]

-- ---------------------------------------------------------------------------
-- Reading
-- ---------------------------------------------------------------------------

theorem Listing.ofNames_eq (l : Listing) :
    ofNames l.packaging.name l.dependencies.name l.autodetection.name
      (l.technologies.map (·.name)) l.additionalDependency.name l.additionalFraction.name =
      l.chosen := by
  have hts : (l.technologies.map (·.name)).mapM technologyOf = .ok l.technologies :=
    mapM_technologyOf_eq_ok_iff.mpr rfl
  have hp : packagingOf l.packaging.name = .ok l.packaging := packagingOf_eq_ok_iff.mpr rfl
  have hd : dependenciesOf l.dependencies.name = .ok l.dependencies :=
    dependenciesOf_eq_ok_iff.mpr rfl
  have ha : autodetectionOf l.autodetection.name = .ok l.autodetection :=
    autodetectionOf_eq_ok_iff.mpr rfl
  have had : additionalDependencyOf l.additionalDependency.name = .ok l.additionalDependency :=
    additionalDependencyOf_eq_ok_iff.mpr rfl
  have haf : additionalFractionOf l.additionalFraction.name = .ok l.additionalFraction :=
    additionalFractionOf_eq_ok_iff.mpr rfl
  rw [ofNames, hts, hp, hd, ha, had, haf]
  rfl

/-- What is written is what is chosen. -/
theorem Listing.WrittenIn.parse_eq (h : l.WrittenIn record) : parse record = l.chosen := by
  have hfields := split_eq_fields_iff.mpr (writtenIn_iff.mp h)
  unfold parse
  rw [hfields]
  simp only [fields]
  rw [listed_eq_iff.mpr rfl, l.ofNames_eq]

/-- Only listings are read. -/
theorem exists_writtenIn_of_parse (h : parse record = .ok s) :
    ∃ l : Listing, l.WrittenIn record := by
  simp only [Listing.writtenIn_iff, ← Listing.split_eq_fields_iff]
  unfold parse at h
  split at h
  · rename_i hfields
    simp only [ofNames, bind_eq_ok_iff, mapM_technologyOf_eq_ok_iff, packagingOf_eq_ok_iff,
      dependenciesOf_eq_ok_iff, autodetectionOf_eq_ok_iff, additionalDependencyOf_eq_ok_iff,
      additionalFractionOf_eq_ok_iff] at h
    obtain ⟨ts, hnames, p, rfl, d, rfl, a, rfl, ad, rfl, af, rfl, _⟩ := h
    have hnames := Listing.listed_eq_iff (l := ⟨p, d, a, ts, ad, af⟩).mp hnames
    exact ⟨⟨p, d, a, ts, ad, af⟩, by rw [hfields, hnames]; rfl⟩
  · cases h

theorem parse_eq_ok_iff : parse record = .ok s ↔
    ∃ l : Listing, l.WrittenIn record ∧ l.Complete ∧ s.listing.Same l := by
  constructor
  · intro h
    obtain ⟨l, hl⟩ := exists_writtenIn_of_parse h
    exact ⟨l, hl, Listing.chosen_eq_ok_iff.mp (hl.parse_eq ▸ h)⟩
  · rintro ⟨l, hl, hs⟩
    rw [hl.parse_eq]
    exact Listing.chosen_eq_ok_iff.mpr hs

theorem parse_record (s : Scenario) : parse s.record = .ok s := by
  have hl : s.listing.WrittenIn s.record :=
    ⟨[], [], by simp [text_listing], by simp [Text.Blank], by simp [Text.Blank]⟩
  exact parse_eq_ok_iff.mpr ⟨s.listing, hl, complete_listing s, .refl⟩

theorem Listing.WrittenIn.eq_iff (h : l.WrittenIn record) (h' : l'.WrittenIn record')
    (hs : parse record = .ok s) (hs' : parse record' = .ok s') : s = s' ↔ l.Same l' := by
  rw [h.parse_eq, chosen_eq_ok_iff] at hs
  rw [h'.parse_eq, chosen_eq_ok_iff] at hs'
  constructor
  · rintro rfl
    exact hs.2.symm.trans hs'.2
  · intro hsame
    exact eq_of_same ((hs.2.trans hsame).trans hs'.2.symm)

/-- Exactly the texts of complete listings are read, with blank text around
them or not; a scenario's own record is one of them. Of two listings the choices
and the set of technologies decide whether they stand for the same scenario. -/
theorem parse_decides :
    (∀ record s, parse record = .ok s ↔
      ∃ l : Listing, l.WrittenIn record ∧ l.Complete ∧ s.listing.Same l) ∧
    (∀ record (l : Listing), l.WrittenIn record → l.Complete →
      ∃ s, parse record = .ok s ∧ parse s.record = .ok s) ∧
    (∀ record record' (l l' : Listing) s s', l.WrittenIn record → l'.WrittenIn record' →
      parse record = .ok s → parse record' = .ok s' → (s = s' ↔ l.Same l')) ∧
    ∀ record, (∀ l : Listing, l.WrittenIn record → ¬ l.Complete) →
      ∃ message, (parse record).mapError ScenarioFault.fault =
        .error (.invalidConfiguration message) := by
  refine ⟨fun record s => parse_eq_ok_iff, fun record l hl hcomplete => ?_,
    fun record record' l l' s s' hl hl' => hl.eq_iff hl', fun record hnone => ?_⟩
  · exact ⟨hcomplete.scenario, hl.parse_eq.trans hcomplete.chosen_eq, parse_record _⟩
  · cases hparse : parse record with
    | error f => exact ⟨f.message, rfl⟩
    | ok s =>
      obtain ⟨l, hl, hcomplete, _⟩ := parse_eq_ok_iff.mp hparse
      exact absurd hcomplete (hnone l hl)

/-- Technologies out of order, one of them twice. -/
def shuffled : Listing :=
  ⟨.war, .fractions, .never, [.ejb, .servlet, .ejb], .none, .none⟩

/-- The shuffled listing, set off by blank text, stands for the scenario of the
plain record. Without the technology that the others depend on there is none. -/
theorem shuffled_decides :
    (∃ s, parse "\t WAR:FRACTIONS:NEVER:EJB,SERVLET,EJB:NONE:NONE\n" = .ok s ∧
      parse "WAR:FRACTIONS:NEVER:SERVLET,EJB:NONE:NONE" = .ok s ∧ parse s.record = .ok s) ∧
    ∃ message, (parse "WAR:FRACTIONS:NEVER:EJB,EJB:NONE:NONE").mapError ScenarioFault.fault =
      .error (.invalidConfiguration message) := by
  obtain ⟨_, hlisted, hequal, hother⟩ := parse_decides
  have hblank : Text.Blank ['\t', ' '] ∧ Text.Blank ['\n'] ∧ Text.Blank [] := by
    simp [Text.Blank, Text.isBlank]
  have hshuffled : shuffled.WrittenIn "\t WAR:FRACTIONS:NEVER:EJB,SERVLET,EJB:NONE:NONE\n" :=
    ⟨['\t', ' '], ['\n'], by decide +kernel, hblank.1, hblank.2.1⟩
  have hplain : { shuffled with technologies := [.servlet, .ejb] }.WrittenIn
      "WAR:FRACTIONS:NEVER:SERVLET,EJB:NONE:NONE" :=
    ⟨[], [], by decide +kernel, hblank.2.2, hblank.2.2⟩
  constructor
  · obtain ⟨s, hs, hagain⟩ := hlisted _ _ hshuffled (by unfold Listing.Complete; decide)
    obtain ⟨s', hs', _⟩ := hlisted _ _ hplain (by unfold Listing.Complete; decide)
    have hsame : s = s' := (hequal _ _ _ _ _ _ hshuffled hplain hs hs').mpr
      ⟨rfl, rfl, rfl, fun t => by cases t <;> decide, rfl, rfl⟩
    exact ⟨s, hs, hsame ▸ hs', hagain⟩
  · refine hother _ fun l hl hcomplete => ?_
    obtain ⟨s, hs, _⟩ := hlisted _ _ hl hcomplete
    have hnone : (parse "WAR:FRACTIONS:NEVER:EJB,EJB:NONE:NONE").toOption = none := by
      decide +kernel
    simp [hs, Except.toOption] at hnone

end ServerFractions.Scenario
