import Mathlib.Data.List.TakeWhile
import ServerFractions.Text.Blank
import ServerFractions.Text.Split

/-!
# Trimming and splitting

`split_eq_iff`: the fields of a text are those without separators that give the
text back when they are joined. `trimChars_eq_iff`: what is left of a text
without blanks at its ends is what stands between blanks in it.
-/

namespace ServerFractions.Text

-- ---------------------------------------------------------------------------
-- Splitting
-- ---------------------------------------------------------------------------

section

variable {separator : Char} {cs : List Char} {s : String} {fields : List String}

theorem splitChars_eq_splitOn : splitChars separator cs = cs.splitOn separator := by
  induction cs with
  | nil => simp [splitChars]
  | cons c cs ih =>
    rw [splitChars, List.splitOn_cons_eq_if_modifyHead]
    by_cases hc : c = separator
    · simp [hc, ih]
    · rw [if_neg hc, ← ih]
      cases hs : splitChars separator cs with
      | nil => exact absurd hs splitChars_ne_nil
      | cons field fields => simp [hc]

theorem split_eq_iff : split separator s = fields ↔
    fields ≠ [] ∧ (∀ f ∈ fields, separator ∉ f.toList) ∧
      s.toList = [separator].intercalate (fields.map String.toList) := by
  constructor
  · rintro rfl
    refine ⟨?_, ?_, ?_⟩
    · simpa [split] using splitChars_ne_nil
    · intro f hf
      obtain ⟨field, hfield, rfl⟩ := List.mem_map.mp hf
      simpa using not_mem_of_mem_splitChars hfield
    · have hfields : (split separator s).map String.toList = splitChars separator s.toList := by
        simp [split, Function.comp_def]
      rw [hfields, splitChars_eq_splitOn, List.intercalate_splitOn]
  · rintro ⟨hne, hfields, hs⟩
    have hsplit : splitChars separator s.toList = fields.map String.toList := by
      rw [splitChars_eq_splitOn, hs]
      exact List.splitOn_intercalate separator (by simpa using hfields) (by simpa using hne)
    simp [split, hsplit, Function.comp_def]

end

-- ---------------------------------------------------------------------------
-- Trimming
-- ---------------------------------------------------------------------------

variable {cs body before after : List Char}

/-- Blank characters only. -/
def Blank (cs : List Char) : Prop :=
  ∀ c ∈ cs, isBlank c = true

/-- Neither end is blank. -/
structure Tight (body : List Char) : Prop where
  head : body.head?.any isBlank = false
  last : body.getLast?.any isBlank = false

theorem dropWhile_isBlank_append (hbefore : Blank before) (hbody : body ≠ [])
    (hhead : body.head?.any isBlank = false) :
    (before ++ body ++ after).dropWhile isBlank = body ++ after := by
  cases body with
  | nil => exact absurd rfl hbody
  | cons c body =>
    have hc : isBlank c = false := by simpa using hhead
    rw [List.append_assoc, List.dropWhile_append_of_pos hbefore, List.cons_append,
      List.dropWhile_cons_of_neg (by simp [hc])]

theorem trimChars_append (hbefore : Blank before) (hafter : Blank after) (hne : body ≠ [])
    (hbody : Tight body) : trimChars (before ++ body ++ after) = body := by
  have hlast : body.reverse.head?.any isBlank = false := by
    rw [List.head?_reverse]
    exact hbody.last
  have hblank : Blank after.reverse := fun c hc => hafter c (List.mem_reverse.mp hc)
  have hend : (after.reverse ++ body.reverse ++ []).dropWhile isBlank = body.reverse ++ [] :=
    dropWhile_isBlank_append hblank (List.reverse_ne_nil_iff.mpr hne) hlast
  rw [List.append_nil, List.append_nil, ← List.reverse_append] at hend
  rw [trimChars, dropWhile_isBlank_append hbefore hne hbody.head, hend, List.reverse_reverse]

theorem exists_eq_append_trimChars :
    ∃ before after, cs = before ++ trimChars cs ++ after ∧ Blank before ∧ Blank after := by
  have hblank : ∀ ds : List Char, Blank (ds.takeWhile isBlank) := fun _ _ => List.mem_takeWhile_imp
  let rest := (cs.dropWhile isBlank).reverse
  refine ⟨cs.takeWhile isBlank, (rest.takeWhile isBlank).reverse, ?_, hblank cs, ?_⟩
  · have hrest : cs.dropWhile isBlank =
        (rest.dropWhile isBlank).reverse ++ (rest.takeWhile isBlank).reverse := by
      rw [← List.reverse_append, List.takeWhile_append_dropWhile, List.reverse_reverse]
    rw [trimChars, List.append_assoc, ← hrest, List.takeWhile_append_dropWhile]
  · exact fun c hc => hblank rest c (List.mem_reverse.mp hc)

theorem trimChars_eq_iff (hne : body ≠ []) (hbody : Tight body) : trimChars cs = body ↔
    ∃ before after, cs = before ++ body ++ after ∧ Blank before ∧ Blank after := by
  constructor
  · rintro rfl
    exact exists_eq_append_trimChars
  · rintro ⟨before, after, rfl, hbefore, hafter⟩
    exact trimChars_append hbefore hafter hne hbody

end ServerFractions.Text
