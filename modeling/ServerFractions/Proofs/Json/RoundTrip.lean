import ServerFractions.Proofs.Json.Token

/-!
# Documents read back

Every printed value is read back, and nothing but the value itself
(`read?_render`). The reader has fuel for as many characters as are printed;
what follows a value inside a container is a comma or a line break, so a number
ends where it was printed to end.
-/

namespace ServerFractions.Json

open Reader Value

variable {v : Value} {vs : List Value} {name : Text} {ms : List (Text × Value)} {c : Char}
  {cs rest : List Char} {level level' fuel : Nat}

-- ---------------------------------------------------------------------------
-- Blanks
-- ---------------------------------------------------------------------------

theorem skipSpace_cons (h : isSpace c = false) : skipSpace (c :: cs) = c :: cs := by
  simp [skipSpace, h]

theorem skipSpace_space : skipSpace (' ' :: cs) = skipSpace cs := rfl

theorem skipSpace_newline : skipSpace (newline level ++ cs) = skipSpace cs := by
  rw [newline, List.cons_append]
  show skipSpace (List.replicate (2 * level) ' ' ++ cs) = skipSpace cs
  exact List.dropWhile_append_of_pos fun d hd => by rw [List.eq_of_mem_replicate hd]; rfl

/-- Only the text after the blanks matters to a value. -/
theorem value_congr {cs' : List Char} (h : skipSpace cs = skipSpace cs') :
    value fuel cs = value fuel cs' := by
  cases fuel with
  | zero => simp only [value]
  | succ fuel => simp only [value, h]

theorem ends_newline : Ends (newline level ++ cs) := by
  rintro c ⟨⟩
  decide

theorem ends_comma : Ends (',' :: cs) := by
  rintro c ⟨⟩
  decide

-- ---------------------------------------------------------------------------
-- Containers
-- ---------------------------------------------------------------------------

/-- Printed at any level, the value is read back. -/
def Value.Reads (v : Value) : Prop :=
  ∀ (level fuel : Nat) (rest : List Char), Ends rest → (v.chars level).length < fuel →
    value fuel (v.chars level ++ rest) = some (v, rest)

theorem elements_newline : elements fuel (newline level ++ cs) = elements fuel cs := by
  cases fuel with
  | zero => simp only [elements]
  | succ fuel => simp only [elements, value_congr skipSpace_newline]

/-- One element, and then what stands behind it. -/
theorem elements_step (hv : v.Reads) (hrest : Ends rest) (hfuel : (v.chars level).length < fuel) :
    elements (fuel + 1) (v.chars level ++ rest) =
      match skipSpace rest with
      | ']' :: rest => some ([v], rest)
      | ',' :: rest => (elements fuel rest).bind fun (vs, rest) => some (v :: vs, rest)
      | _ => none := by
  rw [elements, hv level fuel rest hrest hfuel]
  rfl

theorem elements_chars (hv : v.Reads) (hvs : ∀ w ∈ vs, w.Reads)
    (hfuel : (v.chars level).length + (elementChars level vs).length + 2 ≤ fuel) :
    elements fuel (v.chars level ++ (elementChars level vs ++ (newline level' ++ ']' :: rest))) =
      some (v :: vs, rest) := by
  -- Each element uses up one unit of fuel, and is followed by a comma that no longer needs it.
  obtain ⟨fuel, rfl⟩ := Nat.exists_eq_add_one.mpr (Nat.zero_lt_of_lt hfuel)
  induction vs generalizing v fuel with
  | nil =>
    rw [elementChars, List.nil_append, elements_step hv ends_newline]
    · rw [skipSpace_newline]
      rfl
    · omega
  | cons w vs ih =>
    rw [List.forall_mem_cons] at hvs
    simp only [elementChars, List.length_append, List.length_cons] at hfuel
    obtain ⟨fuel, rfl⟩ := Nat.exists_eq_add_of_le' (show 1 ≤ fuel by omega)
    simp only [elementChars, List.cons_append, List.append_assoc]
    rw [elements_step hv ends_comma]
    · show (elements (fuel + 1) (newline level ++ _)).bind _ = _
      rw [elements_newline, ih hvs.1 hvs.2]
      · rfl
      · omega
    · omega

theorem expect_newline : expect c (newline level ++ cs) = expect c cs := by
  simp only [expect, skipSpace_newline]

theorem expect_cons (h : isSpace c = false) : expect c (c :: cs) = some cs := by
  simp [expect, skipSpace_cons h]

theorem members_newline : members fuel (newline level ++ cs) = members fuel cs := by
  cases fuel with
  | zero => simp only [members]
  | succ fuel => simp only [members, expect_newline]

/-- One member, and then what stands behind it. -/
theorem members_step (hv : v.Reads) (hrest : Ends rest)
    (hfuel : (Text.chars name).length + (v.chars level).length < fuel) :
    members (fuel + 1) (Text.chars name ++ (':' :: ' ' :: (v.chars level ++ rest))) =
      match skipSpace rest with
      | '\x7d' :: rest => some ([(name, v)], rest)
      | ',' :: rest => (members fuel rest).bind fun (ms, rest) => some ((name, v) :: ms, rest)
      | _ => none := by
  obtain ⟨cs, hname⟩ := exists_text_chars_eq_cons name
  rw [hname, List.length_cons] at hfuel
  rw [hname, List.cons_append, members, expect_cons rfl]
  simp only [Option.bind_eq_bind, Option.bind_some, string_chars hname (show cs.length ≤ fuel by omega)]
  rw [expect_cons rfl]
  simp only [Option.bind_some, value_congr skipSpace_space,
    hv level fuel rest hrest (by omega)]
  rfl

theorem members_chars (hv : v.Reads) (hms : ∀ m ∈ ms, m.2.Reads)
    (hfuel : (Text.chars name).length + (v.chars level).length + (memberChars level ms).length + 2 ≤
      fuel) :
    members fuel (Text.chars name ++ (':' :: ' ' :: (v.chars level ++
      (memberChars level ms ++ (newline level' ++ '\x7d' :: rest))))) =
        some ((name, v) :: ms, rest) := by
  obtain ⟨fuel, rfl⟩ := Nat.exists_eq_add_one.mpr (Nat.zero_lt_of_lt hfuel)
  induction ms generalizing name v fuel with
  | nil =>
    rw [memberChars, List.nil_append, members_step hv ends_newline]
    · rw [skipSpace_newline]
      rfl
    · omega
  | cons m ms ih =>
    obtain ⟨name', w⟩ := m
    rw [List.forall_mem_cons] at hms
    simp only [memberChars, List.length_append, List.length_cons] at hfuel
    obtain ⟨fuel, rfl⟩ := Nat.exists_eq_add_of_le' (show 1 ≤ fuel by omega)
    simp only [memberChars, List.cons_append, List.nil_append, List.append_assoc]
    rw [members_step hv ends_comma]
    · show (members (fuel + 1) (newline level ++ _)).bind _ = _
      rw [members_newline, ih (v := w) hms.1 hms.2]
      · rfl
      · omega
    · omega

-- ---------------------------------------------------------------------------
-- Values
-- ---------------------------------------------------------------------------

theorem number_ne (hc : c = '-' ∨ c.isDigit = true) {d : Char}
    (hd : d ≠ '-' ∧ d.isDigit = false) : c ≠ d := by
  rintro rfl
  rcases hc with rfl | hc
  · exact hd.1 rfl
  · rw [hc] at hd
    exact absurd hd.2 (by decide)

theorem isSpace_of_number (hc : c = '-' ∨ c.isDigit = true) : isSpace c = false := by
  simp only [isSpace, Bool.or_eq_false_iff, beq_eq_false_iff_ne]
  exact ⟨⟨⟨number_ne hc (by decide), number_ne hc (by decide)⟩, number_ne hc (by decide)⟩,
    number_ne hc (by decide)⟩

/-- A printed value begins with neither a blank nor a closing bracket. -/
theorem exists_chars_eq_cons (v : Value) (level : Nat) :
    ∃ c cs, v.chars level = c :: cs ∧ isSpace c = false ∧ c ≠ ']' := by
  match v with
  | .null => exact ⟨_, _, rfl, rfl, by decide⟩
  | .bool true => exact ⟨_, _, rfl, rfl, by decide⟩
  | .bool false => exact ⟨_, _, rfl, rfl, by decide⟩
  | .number n =>
    obtain ⟨c, cs, hn, hc⟩ := exists_numberChars_eq_cons n
    exact ⟨c, cs, hn, isSpace_of_number hc, number_ne hc (by decide)⟩
  | .string s =>
    obtain ⟨cs, hs⟩ := exists_text_chars_eq_cons s
    exact ⟨_, _, hs, rfl, by decide⟩
  | .array [] => exact ⟨_, _, rfl, rfl, by decide⟩
  | .array (v :: vs) => exact ⟨_, _, rfl, rfl, by decide⟩
  | .object [] => exact ⟨_, _, rfl, rfl, by decide⟩
  | .object ((name, v) :: ms) => exact ⟨_, _, rfl, rfl, by decide⟩

theorem reads_null : Value.Reads .null := by
  intro level fuel rest _ hfuel
  obtain ⟨fuel, rfl⟩ := Nat.exists_eq_add_one.mpr (Nat.zero_lt_of_lt hfuel)
  rfl

theorem reads_bool {b : Bool} : Value.Reads (.bool b) := by
  intro level fuel rest _ hfuel
  obtain ⟨fuel, rfl⟩ := Nat.exists_eq_add_one.mpr (Nat.zero_lt_of_lt hfuel)
  cases b with
  | true => rfl
  | false => rfl

theorem reads_string {s : Text} : Value.Reads (.string s) := by
  intro level fuel rest _ hfuel
  obtain ⟨fuel, rfl⟩ := Nat.exists_eq_add_one.mpr (Nat.zero_lt_of_lt hfuel)
  obtain ⟨cs, hs⟩ := exists_text_chars_eq_cons s
  have hchars : (Value.string s).chars level = '"' :: cs := hs
  rw [hchars, List.length_cons] at hfuel
  rw [hchars, List.cons_append, value, skipSpace_cons rfl]
  simp only [string_chars hs (show cs.length ≤ fuel by omega), Option.map_some]

theorem reads_number {n : Decimal} : Value.Reads (.number n) := by
  intro level fuel rest hrest hfuel
  obtain ⟨fuel, rfl⟩ := Nat.exists_eq_add_one.mpr (Nat.zero_lt_of_lt hfuel)
  have hread := number_chars (n := n) hrest
  obtain ⟨c, cs, hn, hc⟩ := exists_numberChars_eq_cons n
  have hchars : (Value.number n).chars level = c :: cs := hn
  rw [hn, List.cons_append] at hread
  rw [hchars, List.cons_append, value, skipSpace_cons (isSpace_of_number hc)]
  split
  case h_7 => rw [hread, Option.map_some]
  all_goals
    rename_i heq
    exact absurd (List.cons.inj heq).1 (number_ne hc (by decide))

theorem reads_array (h : ∀ w ∈ vs, w.Reads) : Value.Reads (.array vs) := by
  intro level fuel rest _ hfuel
  obtain ⟨fuel, rfl⟩ := Nat.exists_eq_add_one.mpr (Nat.zero_lt_of_lt hfuel)
  cases vs with
  | nil => rfl
  | cons v vs =>
    rw [List.forall_mem_cons] at h
    simp only [chars, List.length_append, List.length_cons, List.cons_append] at hfuel
    have hread : elements fuel (v.chars (level + 1) ++
        (elementChars (level + 1) vs ++ (newline level ++ ']' :: rest))) = some (v :: vs, rest) :=
      elements_chars h.1 h.2 (by omega)
    obtain ⟨c, cs, hv, hspace, hc⟩ := exists_chars_eq_cons v (level + 1)
    simp only [chars, List.append_assoc, List.cons_append, List.nil_append, value,
      skipSpace_cons (show isSpace '[' = false from rfl), skipSpace_newline]
    rw [hv, List.cons_append] at hread ⊢
    rw [skipSpace_cons hspace]
    split
    · rename_i heq
      exact absurd (List.cons.inj heq).1 hc
    · rw [hread, Option.map_some]

theorem reads_object (h : ∀ m ∈ ms, m.2.Reads) : Value.Reads (.object ms) := by
  intro level fuel rest _ hfuel
  obtain ⟨fuel, rfl⟩ := Nat.exists_eq_add_one.mpr (Nat.zero_lt_of_lt hfuel)
  cases ms with
  | nil => rfl
  | cons m ms =>
    obtain ⟨name, v⟩ := m
    rw [List.forall_mem_cons] at h
    simp only [chars, List.length_append, List.length_cons, List.cons_append] at hfuel
    have hread : members fuel (Text.chars name ++ (':' :: ' ' :: (v.chars (level + 1) ++
        (memberChars (level + 1) ms ++ (newline level ++ '\x7d' :: rest))))) =
          some ((name, v) :: ms, rest) :=
      members_chars h.1 h.2 (by omega)
    obtain ⟨cs, hname⟩ := exists_text_chars_eq_cons name
    simp only [chars, List.append_assoc, List.cons_append, List.nil_append, value,
      skipSpace_cons (show isSpace '\x7b' = false from rfl), skipSpace_newline]
    rw [hname, List.cons_append] at hread ⊢
    rw [skipSpace_cons rfl]
    show (members fuel _).map _ = _
    rw [hread, Option.map_some]

/-- Values are read back by induction over their nesting; what is needed of the
members of a container is that they are read back at every level. -/
theorem reads (v : Value) : v.Reads :=
  match v with
  | .null => reads_null
  | .bool _ => reads_bool
  | .number _ => reads_number
  | .string _ => reads_string
  | .array vs => reads_array fun w _ => reads w
  | .object ms => reads_object fun m _ => reads m.2
termination_by sizeOf v
decreasing_by
  · rename_i hw
    have := List.sizeOf_lt_of_mem hw
    simp only [array.sizeOf_spec]
    omega
  · rename_i hm
    have := List.sizeOf_lt_of_mem hm
    obtain ⟨name, w⟩ := m
    simp only [Prod.mk.sizeOf_spec, object.sizeOf_spec] at this ⊢
    omega

/-- Every document is read back. -/
theorem read?_render : read? v.render = some v := by
  have hread := reads v 0 (2 * (v.chars 0).length + 1) [] (by simp [Ends]) (by omega)
  rw [List.append_nil] at hread
  simp [read?, render, hread, skipSpace]

end ServerFractions.Json
