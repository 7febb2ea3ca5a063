import Mathlib.Data.List.Basic
import Mathlib.Data.List.TakeWhile
import ServerFractions.Coordinates

/-!
# Which texts are keys, and what a gav tells

`parse?_eq_some_iff`: a text is read as a key exactly when it has one colon
with text on both sides, and then it is the text of the key. Such a key has only
these two sides (`Sides.ofParts_eq_iff`). A gav tells which
coordinates it belongs to when their parts hold no colon (`Plain.eq_of_gav`);
all others may share theirs.
-/

namespace ServerFractions

namespace ModuleKey

variable {value : String} {key : ModuleKey} {group artifact : List Char}

/-- One colon, with text on both sides. -/
def IsKey (value : String) : Prop :=
  ∃ group artifact : List Char, value.toList = group ++ ':' :: artifact ∧
    group ≠ [] ∧ artifact ≠ [] ∧ ':' ∉ group ∧ ':' ∉ artifact

theorem parse?_of_not_mem (h : ':' ∉ value.toList) : parse? value = none := by
  have hrest : value.toList.dropWhile (· != ':') = [] := by
    rw [List.dropWhile_eq_nil_iff]
    intro c hc
    simpa using fun heq : c = ':' => h (heq ▸ hc)
  simp [parse?, hrest]

theorem parse?_of_cut (hcut : value.toList = group ++ ':' :: artifact) (hgroup : ':' ∉ group) :
    parse? value = if group.isEmpty || artifact.isEmpty || artifact.contains ':' then none
      else some (ofParts (String.ofList group) (String.ofList artifact)) := by
  have hall : ∀ c ∈ group, (c != ':') = true := by
    intro c hc
    simpa using fun heq : c = ':' => hgroup (heq ▸ hc)
  have htake : value.toList.takeWhile (· != ':') = group := by
    simp [hcut, List.takeWhile_append_of_pos hall]
  have hdrop : value.toList.dropWhile (· != ':') = ':' :: artifact := by
    simp [hcut, List.dropWhile_append_of_pos hall]
  simp only [parse?, htake, hdrop]

theorem text_ofParts_of_cut (hcut : value.toList = group ++ ':' :: artifact) :
    (ofParts (String.ofList group) (String.ofList artifact)).text = value := by
  apply String.toList_injective
  simp [ofParts, hcut]

theorem isKey_iff_of_cut (hcut : value.toList = group ++ ':' :: artifact) (hgroup : ':' ∉ group) :
    IsKey value ↔ group ≠ [] ∧ artifact ≠ [] ∧ ':' ∉ artifact := by
  constructor
  · rintro ⟨group', artifact', hcut', hg, ha, hgroup', hartifact'⟩
    obtain ⟨rfl, -, rfl⟩ :=
      (List.append_cons_inj_of_notMem hgroup' hartifact').mp (hcut'.symm.trans hcut)
    exact ⟨hg, ha, hartifact'⟩
  · rintro ⟨hg, ha, hartifact⟩
    exact ⟨group, artifact, hcut, hg, ha, hgroup, hartifact⟩

theorem parse?_eq_some_iff : parse? value = some key ↔ IsKey value ∧ key.text = value := by
  by_cases hmem : ':' ∈ value.toList
  · obtain ⟨group, artifact, hcut, hgroup⟩ := List.eq_append_cons_of_mem hmem
    have htext := text_ofParts_of_cut hcut
    rw [parse?_of_cut hcut hgroup, isKey_iff_of_cut hcut hgroup]
    split
    · rename_i hbad
      simp only [Bool.or_eq_true, List.isEmpty_iff, List.contains_iff_mem] at hbad
      grind
    · rename_i hgood
      simp only [Bool.or_eq_true, List.isEmpty_iff, List.contains_iff_mem, not_or] at hgood
      obtain ⟨⟨hg, ha⟩, hartifact⟩ := hgood
      constructor
      · intro h
        cases h
        exact ⟨⟨hg, ha, hartifact⟩, htext⟩
      · rintro ⟨_, hkey⟩
        exact congrArg some (congrArg ModuleKey.mk (htext.trans hkey.symm))
  · rw [parse?_of_not_mem hmem]
    refine iff_of_false (by simp) ?_
    rintro ⟨⟨group, artifact, hcut, _⟩, _⟩
    exact hmem (by simp [hcut])

theorem isSome_parse?_iff : (parse? value).isSome ↔ IsKey value := by
  rw [Option.isSome_iff_exists]
  constructor
  · rintro ⟨key, hkey⟩
    exact (parse?_eq_some_iff.mp hkey).1
  · exact fun h => ⟨⟨value⟩, parse?_eq_some_iff.mpr ⟨h, rfl⟩⟩

/-- The two sides of the only colon of a text. -/
structure Sides (value group artifact : String) : Prop where
  cut : value = group ++ ":" ++ artifact
  group_ne : group ≠ ""
  artifact_ne : artifact ≠ ""
  group : ':' ∉ group.toList
  artifact : ':' ∉ artifact.toList

theorem toList_text_ofParts {group artifact : String} :
    (ofParts group artifact).text.toList = group.toList ++ ':' :: artifact.toList := by
  simp [ofParts]

theorem isKey_iff_exists_sides : IsKey value ↔ ∃ group artifact, Sides value group artifact := by
  constructor
  · rintro ⟨group, artifact, hcut, hg, ha, hgroup, hartifact⟩
    refine ⟨String.ofList group, String.ofList artifact, ?_, ?_, ?_, ?_, ?_⟩
    · exact (text_ofParts_of_cut hcut).symm
    all_goals simpa
  · rintro ⟨group, artifact, h⟩
    refine ⟨group.toList, artifact.toList, ?_, ?_, ?_, h.group, h.artifact⟩
    · rw [h.cut]
      exact toList_text_ofParts
    · simpa using h.group_ne
    · simpa using h.artifact_ne

/-- No other two texts, whatever they hold, have this text as their key. -/
theorem Sides.ofParts_eq_iff {group artifact g a : String} (h : Sides value group artifact)
    (hkey : key.text = value) : ofParts g a = key ↔ g = group ∧ a = artifact := by
  constructor
  · rintro rfl
    have hcut : g.toList ++ ':' :: a.toList = group.toList ++ ':' :: artifact.toList := by
      rw [← toList_text_ofParts, ← toList_text_ofParts, hkey, h.cut]
      rfl
    obtain ⟨hg, -, ha⟩ :=
      (List.append_cons_inj_of_notMem h.group h.artifact).mp hcut.symm
    exact ⟨(String.toList_inj.mp hg).symm, (String.toList_inj.mp ha).symm⟩
  · rintro ⟨rfl, rfl⟩
    exact congrArg ModuleKey.mk (h.cut.symm.trans hkey.symm)

end ModuleKey

namespace Coordinates

variable {x y : Coordinates}

/-- No part holds a colon. -/
structure Plain (x : Coordinates) : Prop where
  group : ':' ∉ x.group.toList
  name : ':' ∉ x.name.toList
  version : ':' ∉ x.version.toList

theorem toList_gav : x.gav.toList =
    x.group.toList ++ ':' :: (x.name.toList ++ ':' :: x.version.toList) := by
  simp [gav]

/-- The gav has a colon between its parts and those that they hold. -/
theorem count_gav : x.gav.toList.count ':' =
    x.group.toList.count ':' + x.name.toList.count ':' + x.version.toList.count ':' + 2 := by
  rw [toList_gav]
  simp only [List.count_append, List.count_cons_self]
  omega

theorem Plain.of_gav (hx : x.Plain) (h : y.gav = x.gav) : y.Plain := by
  have hcount := congrArg (·.toList.count ':') h
  simp only [count_gav, List.count_eq_zero.mpr hx.group, List.count_eq_zero.mpr hx.name,
    List.count_eq_zero.mpr hx.version] at hcount
  constructor
  all_goals
    rw [← List.count_eq_zero]
    omega

/-- Both sides are cut at their first colon. -/
theorem eq_of_cut {left left' right right' : List Char} (hleft : ':' ∉ left) (hleft' : ':' ∉ left')
    (h : left ++ ':' :: right = left' ++ ':' :: right') : left = left' ∧ right = right' := by
  induction left generalizing left' with
  | nil =>
    cases left' with
    | nil => simpa using h
    | cons c left' =>
      cases h
      simp at hleft'
  | cons c left ih =>
    cases left' with
    | nil =>
      cases h
      simp at hleft
    | cons c' left' =>
      obtain ⟨rfl, hrest⟩ := List.cons.inj h
      obtain ⟨rfl, rfl⟩ := ih (mt (.tail _) hleft) (mt (.tail _) hleft') hrest
      exact ⟨rfl, rfl⟩

/-- Coordinates without colons share their gav with no others, whatever those hold. -/
theorem Plain.eq_of_gav (hx : x.Plain) (h : y.gav = x.gav) : y = x := by
  have hy := hx.of_gav h
  have hlist := congrArg String.toList h
  rw [toList_gav, toList_gav] at hlist
  obtain ⟨hgroup, hrest⟩ := eq_of_cut hy.group hx.group hlist
  obtain ⟨hname, hversion⟩ := eq_of_cut hy.name hx.name hrest
  cases x
  cases y
  simp_all [String.toList_inj]

end Coordinates

end ServerFractions
