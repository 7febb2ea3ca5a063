import Mathlib.Data.List.Induction
import Mathlib.Data.List.Nodup
import ServerFractions.Graph.Builder

/-!
# Lists that keep the first of what is repeated

Appending only what is new, element by element, is the same as dropping every
repetition at the end (`foldl_appendNew`).
-/

namespace ServerFractions

variable {α β : Type} [DecidableEq α] [DecidableEq β] {f : α → β} {a b : α} {as : List α}
  {a? : Option α}

theorem mem_appendNew : b ∈ appendNew a as ↔ b ∈ as ∨ b = a := by
  unfold appendNew
  split
  · rename_i h
    exact ⟨.inl, fun hb => hb.elim id (· ▸ h)⟩
  · simp

theorem nodup_appendNew (h : as.Nodup) : (appendNew a as).Nodup := by
  unfold appendNew
  split
  · exact h
  · rename_i ha
    exact h.append (List.nodup_singleton a) (List.disjoint_singleton.mpr ha)

theorem eraseDups_concat : (as ++ [a]).eraseDups = appendNew a as.eraseDups := by
  rw [List.eraseDups_append, appendNew]
  by_cases ha : a ∈ as <;> simp [List.removeAll, List.eraseDups_cons, ha]

theorem eraseDups_append_toList :
    (as ++ a?.toList).eraseDups = a?.elim as.eraseDups (appendNew · as.eraseDups) := by
  cases a? with
  | none => simp
  | some a => exact eraseDups_concat

theorem nodup_eraseDups : as.eraseDups.Nodup := by
  induction as using List.reverseRecOn with
  | nil => exact .nil
  | append_singleton as a ih =>
    rw [eraseDups_concat]
    exact nodup_appendNew ih

theorem foldl_appendNew : as.foldl (fun acc a => appendNew a acc) [] = as.eraseDups := by
  induction as using List.reverseRecOn with
  | nil => rfl
  | append_singleton as a ih => rw [List.foldl_append, ih, eraseDups_concat]; rfl

theorem eraseDups_map (hf : ∀ a ∈ as, ∀ b ∈ as, f a = f b → a = b) :
    (as.map f).eraseDups = as.eraseDups.map f := by
  induction as using List.reverseRecOn with
  | nil => rfl
  | append_singleton as a ih =>
    -- `f` merges no elements, so `f a` is a repetition only where `a` is.
    have hmem : f a ∈ as.eraseDups.map f ↔ a ∈ as.eraseDups := by
      simp only [List.mem_map, List.mem_eraseDups]
      constructor
      · rintro ⟨b, hb, hba⟩
        exact hf b (by simp [hb]) a (by simp) hba ▸ hb
      · exact fun ha => ⟨a, ha, rfl⟩
    have hold := ih fun b hb c hc => hf b (by simp [hb]) c (by simp [hc])
    rw [List.map_append, List.map_singleton, eraseDups_concat, eraseDups_concat, hold, appendNew,
      appendNew]
    by_cases ha : a ∈ as.eraseDups
    · rw [if_pos ha, if_pos (hmem.mpr ha)]
    · rw [if_neg ha, if_neg (mt hmem.mp ha), List.map_append, List.map_singleton]

end ServerFractions
