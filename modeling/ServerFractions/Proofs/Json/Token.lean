import Mathlib.Data.List.Basic
import ServerFractions.Json.Printer
import ServerFractions.Json.Reader

/-!
# Strings and numbers read back

A printed string is read back up to its closing quote, whatever characters it
holds (`string_chars`), and a printed number when no more of a number follows
it (`number_chars`).
-/

namespace ServerFractions.Json

open Reader

variable {c : Char} {ds rest : List Char} {fuel : Nat}

-- ---------------------------------------------------------------------------
-- Strings
-- ---------------------------------------------------------------------------

theorem hexValue?_hexDigit {n : Nat} (h : n < 16) : Text.hexValue? (hexDigit n) = some n :=
  (by decide : ∀ n < 16, Text.hexValue? (hexDigit n) = some n) n h

theorem unicodeEscape_control (h : c.toNat < 32) :
    unicodeEscape ('0' :: '0' :: hexDigit (c.toNat / 16) :: hexDigit (c.toNat % 16) :: rest) =
      some (some c, rest) := by
  have hunit : codeUnit ('0' :: '0' :: hexDigit (c.toNat / 16) :: hexDigit (c.toNat % 16) :: rest) =
      some (c.toNat, rest) := by
    have hzero : Text.hexValue? '0' = some 0 := by decide
    simp only [codeUnit, hzero, hexValue?_hexDigit (show c.toNat / 16 < 16 by omega),
      hexValue?_hexDigit (show c.toNat % 16 < 16 by omega), Option.bind_eq_bind, Option.bind_some]
    congr 2
    omega
  have hhigh : isHighHalf c.toNat = false := by simp [isHighHalf]; omega
  have hlow : isLowHalf c.toNat = false := by simp [isLowHalf]; omega
  simp [unicodeEscape, hunit, hhigh, hlow]

theorem character_escape (c : Char) (rest : List Char) :
    character (escape c ++ rest) = some (some c, rest) := by
  unfold escape
  split_ifs with hquote hbackslash hn hr ht hb hf hcontrol
  · subst hquote; rfl
  · subst hbackslash; rfl
  · subst hn; rfl
  · subst hr; rfl
  · subst ht; rfl
  · subst hb; rfl
  · subst hf; rfl
  · exact unicodeEscape_control hcontrol
  · simp [character, hbackslash, hcontrol]

theorem exists_escape_eq_cons (c : Char) : ∃ d ds, escape c = d :: ds ∧ d ≠ '"' := by
  unfold escape
  split_ifs with hquote
  all_goals exact ⟨_, _, rfl, by first | decide | exact hquote⟩

/-- The characters of a printed text, one escape after the other. -/
theorem characters_flatMap (h : ds.length < fuel) :
    characters fuel (ds.flatMap escape ++ '"' :: rest) = some (some ds, rest) := by
  induction ds generalizing fuel with
  | nil =>
    obtain ⟨fuel, rfl⟩ := Nat.exists_eq_add_one.mpr h
    rfl
  | cons c ds ih =>
    obtain ⟨fuel, rfl⟩ := Nat.exists_eq_add_one.mpr (Nat.zero_lt_of_lt h)
    obtain ⟨d, es, hescape, hd⟩ := exists_escape_eq_cons c
    have hc := character_escape c (ds.flatMap escape ++ '"' :: rest)
    rw [List.flatMap_cons, List.append_assoc]
    rw [hescape, List.cons_append] at hc ⊢
    rw [characters]
    · simp [hc, ih (Nat.lt_of_succ_lt_succ h)]
    · rintro rest' heq
      exact hd (List.cons.inj heq).1

theorem length_le_flatMap_escape (ds : List Char) : ds.length ≤ (ds.flatMap escape).length := by
  induction ds with
  | nil => simp
  | cons c ds ih =>
    obtain ⟨d, es, hescape, _⟩ := exists_escape_eq_cons c
    simp only [List.flatMap_cons, hescape, List.length_append, List.length_cons]
    omega

theorem text_chars_some {s : String} :
    Text.chars (some s) = '"' :: (s.toList.flatMap escape ++ ['"']) := rfl

theorem text_chars_none : Text.chars none = '"' :: ['\\', 'u', 'd', '8', '0', '0', '"'] := by
  decide

theorem exists_text_chars_eq_cons (t : Text) : ∃ cs, Text.chars t = '"' :: cs := by
  cases t with
  | none => exact ⟨_, text_chars_none⟩
  | some s => exact ⟨_, text_chars_some⟩

/-- A printed string, after its opening quote. -/
theorem string_chars {t : Text} {cs : List Char} (ht : Text.chars t = '"' :: cs)
    (h : cs.length ≤ fuel) : string fuel (cs ++ rest) = some (t, rest) := by
  cases t with
  | none =>
    rw [text_chars_none] at ht
    obtain ⟨_, rfl⟩ := List.cons.inj ht
    simp only [List.length_cons, List.length_nil] at h
    obtain ⟨fuel, rfl⟩ := Nat.exists_eq_add_of_le' (show 2 ≤ fuel by omega)
    rfl
  | some s =>
    rw [text_chars_some] at ht
    obtain ⟨_, rfl⟩ := List.cons.inj ht
    have hlength := length_le_flatMap_escape s.toList
    simp only [List.length_append, List.length_singleton] at h
    rw [List.append_assoc, List.singleton_append, string, characters_flatMap (by omega)]
    simp

-- ---------------------------------------------------------------------------
-- Numbers
-- ---------------------------------------------------------------------------

/-- No more of a number follows. -/
def Ends (rest : List Char) : Prop :=
  ∀ c ∈ rest.head?, c.isDigit = false ∧ c ≠ '.' ∧ c ≠ 'e' ∧ c ≠ 'E'

theorem digits_append (hds : ∀ c ∈ ds, c.isDigit = true) (hne : ds ≠ [])
    (hrest : ∀ c ∈ rest.head?, c.isDigit = false) : digits (ds ++ rest) = some (ds, rest) := by
  have htake : rest.takeWhile Char.isDigit = [] := by
    cases rest with
    | nil => rfl
    | cons c rest => simp [hrest c rfl]
  have hdrop : rest.dropWhile Char.isDigit = rest := by
    cases rest with
    | nil => rfl
    | cons c rest => simp [hrest c rfl]
  rw [digits, List.takeWhile_append_of_pos hds, List.dropWhile_append_of_pos hds, htake, hdrop,
    List.append_nil]
  cases ds with
  | nil => exact absurd rfl hne
  | cons d ds => rfl

theorem digits_toDigits {n : Nat} (hrest : ∀ c ∈ rest.head?, c.isDigit = false) :
    digits (Nat.toDigits 10 n ++ rest) = some (Nat.toDigits 10 n, rest) :=
  digits_append (fun _ => Nat.isDigit_of_mem_toDigits (by decide) (by decide))
    Nat.toDigits_ne_nil hrest

/-- No leading zeros. -/
theorem head?_toDigits_ne {n : Nat} (h : 0 < n) : (Nat.toDigits 10 n).head? ≠ some '0' := by
  induction n using Nat.strongRecOn with
  | _ n ih =>
    by_cases hn : n < 10
    · rw [Nat.toDigits_of_lt_base hn]
      exact (by decide : ∀ n < 10, 0 < n → [n.digitChar].head? ≠ some '0') n hn h
    · rw [Nat.toDigits_of_base_le (by decide) (by omega),
        List.head?_append_of_ne_nil _ Nat.toDigits_ne_nil]
      exact ih (n / 10) (by omega) (by omega)

theorem wholePart_toDigits {n : Nat} (hrest : ∀ c ∈ rest.head?, c.isDigit = false) :
    wholePart (Nat.toDigits 10 n ++ rest) = some (Nat.toDigits 10 n, rest) := by
  -- A leading zero would end the number, so the reader has to see that there is none.
  by_cases hn : 0 < n
  · have hhead := head?_toDigits_ne hn
    rw [wholePart, digits_toDigits hrest]
    intro rest' heq
    cases hds : Nat.toDigits 10 n with
    | nil => exact Nat.toDigits_ne_nil hds
    | cons d ds => simp_all
  · obtain rfl : n = 0 := by omega
    rw [Nat.toDigits_zero, List.singleton_append, wholePart]
    cases rest with
    | nil => rfl
    | cons c rest => simp [hrest c rfl]

/-- The exponent of a printed number. -/
def exponentChars : Int → List Char
  | .ofNat 0 => []
  | .ofNat e => 'e' :: Nat.toDigits 10 e
  | .negSucc e => 'e' :: '-' :: Nat.toDigits 10 (e + 1)

theorem exists_toDigits_eq_cons (n : Nat) :
    ∃ d ds, Nat.toDigits 10 n = d :: ds ∧ d.isDigit = true := by
  cases hds : Nat.toDigits 10 n with
  | nil => exact absurd hds Nat.toDigits_ne_nil
  | cons d ds =>
    have hd : d ∈ Nat.toDigits 10 n := by simp [hds]
    exact ⟨d, ds, rfl, Nat.isDigit_of_mem_toDigits (by decide) (by decide) hd⟩

theorem exponentPart_of_ends (hrest : Ends rest) : exponentPart rest = some (0, rest) := by
  cases rest with
  | nil => rfl
  | cons c rest => simp [exponentPart, (hrest c rfl).2.2]

theorem exponentPart_toDigits {n : Nat} (hrest : Ends rest) :
    exponentPart ('e' :: (Nat.toDigits 10 n ++ rest)) = some ((n : Int), rest) := by
  have hread := digits_toDigits (n := n) fun c hc => (hrest c hc).1
  have hvalue := Decimal.ofDigits_toDigits (n := n)
  obtain ⟨d, ds, hds, hd⟩ := exists_toDigits_eq_cons n
  rw [hds] at hread hvalue ⊢
  simp only [exponentPart, List.cons_append, true_or, ↓reduceIte]
  split
  · rename_i heq
    obtain ⟨rfl, _⟩ := List.cons.inj heq
    exact absurd hd (by decide)
  · rename_i heq
    obtain ⟨rfl, _⟩ := List.cons.inj heq
    exact absurd hd (by decide)
  · rw [← List.cons_append, hread, Option.map_some, hvalue]

theorem exponentPart_chars {e : Int} (hrest : Ends rest) :
    exponentPart (exponentChars e ++ rest) = some (e, rest) := by
  match e with
  | .ofNat 0 => exact exponentPart_of_ends hrest
  | .ofNat (e + 1) => exact exponentPart_toDigits hrest
  | .negSucc e =>
    have hread := digits_toDigits (n := e + 1) fun c hc => (hrest c hc).1
    show (digits (Nat.toDigits 10 (e + 1) ++ rest)).map _ = _
    simp only [hread, Option.map_some, Decimal.ofDigits_toDigits]
    rfl

/-- An exponent, or what follows a number without one, is no further digit and no point. -/
theorem exponentChars_follows {e : Int} (hrest : Ends rest) :
    ∀ c ∈ (exponentChars e ++ rest).head?, c.isDigit = false ∧ c ≠ '.' := by
  intro c hc
  match e with
  | .ofNat 0 => exact ⟨(hrest c hc).1, (hrest c hc).2.1⟩
  | .ofNat (e + 1) =>
    cases hc
    decide
  | .negSucc e =>
    cases hc
    decide

theorem unsigned_chars {n : Decimal} (hrest : Ends rest) :
    unsigned n.negative (Nat.toDigits 10 n.significand ++ (exponentChars n.exponent ++ rest)) =
      some (n, rest) := by
  have hfollows := exponentChars_follows (e := n.exponent) hrest
  have hfraction : fractionPart (exponentChars n.exponent ++ rest) =
      some ([], exponentChars n.exponent ++ rest) := by
    rw [fractionPart]
    intro rest' heq
    exact (hfollows '.' (by simp [heq])).2 rfl
  simp [unsigned, wholePart_toDigits fun c hc => (hfollows c hc).1, hfraction,
    exponentPart_chars hrest, Decimal.ofDigits_toDigits]

theorem numberChars_eq (n : Decimal) : numberChars n =
    (if n.negative then ['-'] else []) ++ Nat.toDigits 10 n.significand ++
      exponentChars n.exponent := rfl

/-- A printed number begins with its sign or with a digit. -/
theorem exists_numberChars_eq_cons (n : Decimal) :
    ∃ d ds, numberChars n = d :: ds ∧ (d = '-' ∨ d.isDigit = true) := by
  rw [numberChars_eq]
  cases n.negative with
  | true => exact ⟨_, _, rfl, .inl rfl⟩
  | false =>
    obtain ⟨d, ds, hds, hd⟩ := exists_toDigits_eq_cons n.significand
    exact ⟨d, ds ++ exponentChars n.exponent, by simp [hds], .inr hd⟩

theorem number_chars {n : Decimal} (hrest : Ends rest) :
    number (numberChars n ++ rest) = some (n, rest) := by
  have hread := unsigned_chars (n := n) hrest
  rw [numberChars_eq, List.append_assoc, List.append_assoc]
  cases hsign : n.negative with
  | true =>
    rw [hsign] at hread
    exact hread
  | false =>
    obtain ⟨d, ds, hds, hd⟩ := exists_toDigits_eq_cons n.significand
    rw [hsign, hds] at hread
    simp only [hds, Bool.false_eq_true, ↓reduceIte, List.nil_append]
    rw [List.cons_append, number]
    · exact hread
    · intro rest' heq
      obtain ⟨rfl, _⟩ := List.cons.inj heq
      exact absurd hd (by decide)

end ServerFractions.Json
