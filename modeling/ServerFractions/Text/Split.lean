/-!
# Fields of a text

Splitting at a separator keeps empty fields, so a text without separators is
one field and the empty text is one empty field. No field holds the separator.
-/

namespace ServerFractions.Text

def splitChars (separator : Char) : List Char → List (List Char)
  | [] => [[]]
  | c :: cs =>
    if c = separator then [] :: splitChars separator cs
    else
      match splitChars separator cs with
      | [] => [[c]]
      | field :: fields => (c :: field) :: fields

def split (separator : Char) (s : String) : List String :=
  (splitChars separator s.toList).map String.ofList

variable {separator : Char} {cs : List Char}

theorem splitChars_ne_nil : splitChars separator cs ≠ [] := by
  induction cs with
  | nil => simp [splitChars]
  | cons c cs ih =>
    rw [splitChars]
    split
    · simp
    · split <;> simp

theorem not_mem_of_mem_splitChars {field : List Char} (h : field ∈ splitChars separator cs) :
    separator ∉ field := by
  induction cs generalizing field with
  | nil => simp_all [splitChars]
  | cons c cs ih =>
    rw [splitChars] at h
    split at h
    · rcases List.mem_cons.1 h with rfl | h
      · simp
      · exact ih h
    · next hc =>
      cases hs : splitChars separator cs with
      | nil => exact absurd hs splitChars_ne_nil
      | cons first fields =>
        rw [hs] at h ih
        rcases List.mem_cons.1 h with rfl | h
        · simpa [Ne.symm hc] using ih (List.mem_cons_self)
        · exact ih (List.mem_cons_of_mem _ h)

end ServerFractions.Text
