import Mathlib.Data.List.Basic
import ServerFractions.Settings

/-!
# Valid settings

Settings load exactly when their text is of the expected form and what it says
is valid (`value_load_eq_ok_iff`). What is not valid is refused as an invalid
configuration (`exists_message_of_fault?`).
-/

namespace ServerFractions

/-- The text has more than blanks. -/
def Text.Filled (s : String) : Prop :=
  ∃ c ∈ s.toList, isBlank c = false

theorem Text.isAllBlank_eq_false_iff {s : String} : isAllBlank s = false ↔ Filled s := by
  simp [isAllBlank, Filled]

theorem OutputFormat.isNone_parse?_iff {s : String} :
    (parse? s).isNone = true ↔ s.toLower ∉ ["json", "text", "txt"] := by
  unfold parse?
  split
  · rename_i hname
    simp [hname]
  · rename_i hname
    simp [hname]
  · rename_i hname
    simp [hname]
  · rename_i hjson htext htxt
    simpa using ⟨hjson, htext, htxt⟩

namespace Settings

variable {s : Settings} {f : Fault}

/-- Names that are given are not blank, and the format is one. -/
structure Valid (s : Settings) : Prop where
  configuration : ∀ name, s.configuration = some name → Text.Filled name
  defaultGroup : ∀ group, s.defaultGroup = some group → Text.Filled group
  format : ∀ name, s.format = some name → name.toLower ∈ ["json", "text", "txt"]

theorem any_isAllBlank_eq_false_iff {name? : Option String} :
    name?.any Text.isAllBlank = false ↔ ∀ name, name? = some name → Text.Filled name := by
  cases name? with
  | none => simp
  | some name => simp [Text.isAllBlank_eq_false_iff]

theorem fault?_eq_none_iff : s.fault? = none ↔ s.Valid := by
  have hvalid : s.Valid ↔ s.configuration.any Text.isAllBlank = false ∧
      s.defaultGroup.any Text.isAllBlank = false ∧
      s.format.filter (OutputFormat.parse? · |>.isNone) = none := by
    simp only [any_isAllBlank_eq_false_iff, Option.filter_eq_none_iff,
      OutputFormat.isNone_parse?_iff, Classical.not_not]
    exact ⟨fun h => ⟨h.configuration, h.defaultGroup, h.format⟩, fun h => ⟨h.1, h.2.1, h.2.2⟩⟩
  rw [hvalid, fault?]
  split_ifs with hconfiguration hgroup
  · simp [hconfiguration]
  · simp [hgroup]
  · simp [hconfiguration, hgroup]

theorem exists_message_of_fault? (h : s.fault? = some f) :
    ∃ message, f = .invalidConfiguration message := by
  unfold fault? at h
  split_ifs at h
  · exact ⟨_, (Option.some.inj h).symm⟩
  · exact ⟨_, (Option.some.inj h).symm⟩
  · obtain ⟨_, _, rfl⟩ := Option.map_eq_some_iff.mp h
    exact ⟨_, rfl⟩

theorem value_load_eq_ok_iff {text : String} (path : String) :
    (load text path).value = .ok s ↔ read? text = some s ∧ s.Valid := by
  rw [← fault?_eq_none_iff, load]
  cases read? text with
  | none => simp
  | some s' =>
    simp only [Option.some.injEq]
    cases hfault : s'.fault? with
    | some _ =>
      simp only [Logged.value_pure, reduceCtorEq, false_iff, not_and]
      rintro rfl
      simp [hfault]
    | none =>
      simp only [Logged.value_bind, Logged.value_pure, Except.ok.injEq]
      constructor
      · rintro rfl
        exact ⟨rfl, hfault⟩
      · exact And.left

end Settings

end ServerFractions
