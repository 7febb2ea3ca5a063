import Mathlib.Data.List.Induction
import ServerFractions.Proofs.TopLevel.Sorted

/-!
# Top-level entries and the operations on them

Claims and attachments may come in any order. The entry of a key can be told
from the operations that used the key (`entry?_after`): the first of them makes
the entry, with all that it gives, and of the others only what they attach is
added. Among keys and among the children of an entry the first to come is kept,
with its file, and a claim that is refused leaves no trace.
-/

namespace ServerFractions.TopLevel

open Descriptor (Collects FirstOfIdentity collects_insertAll identity insertAll)

inductive Operation where
  | claim (key : Descriptor) (children : List Descriptor)
  | attach (key child : Descriptor)
  deriving DecidableEq

namespace Operation

def key : Operation → Descriptor
  | .claim key _ => key
  | .attach key _ => key

/-- What an operation puts into the entry that it makes. -/
def given : Operation → List Descriptor
  | .claim _ children => children
  | .attach _ child => [child]

/-- What an operation adds to an entry that is already there. -/
def attached : Operation → List Descriptor
  | .claim _ _ => []
  | .attach _ child => [child]

end Operation

def apply (t : TopLevel) : Operation → TopLevel
  | .claim key children => (t.claim key children).2
  | .attach key child => t.attach key child

def run (ops : List Operation) (t : TopLevel) : TopLevel :=
  ops.foldl apply t

def after (ops : List Operation) : TopLevel :=
  run ops .empty

/-- The operations that use a key, in order. -/
def on (ops : List Operation) (key : Descriptor) : List Operation :=
  ops.filter (·.key.same key)

/-- All that operations on one key insert, in order and with repetitions. -/
def inserted : List Operation → List Descriptor
  | [] => []
  | op :: later => op.given ++ later.flatMap (·.attached)

/-- Operations on one key bring to its entry the children of the claim that
comes first and whatever they attach. -/
inductive Brings : List Operation → Descriptor → Prop
  | claimed {key d : Descriptor} {children : List Descriptor} {later : List Operation}
    (hd : d ∈ children) : Brings (.claim key children :: later) d
  | attached {ops : List Operation} {key d : Descriptor} (hd : .attach key d ∈ ops) : Brings ops d

variable {t u v : TopLevel} {key key' child d : Descriptor} {children : List Descriptor}
  {e : Entry} {op : Operation} {ops more : List Operation}

-- ---------------------------------------------------------------------------
-- What the operations say
-- ---------------------------------------------------------------------------

theorem on_eq_nil_iff : on ops key = [] ↔ ∀ op ∈ ops, op.key.identity ≠ key.identity := by
  simp [on]

theorem on_concat_of_eq (h : op.key.identity = key.identity) :
    on (ops ++ [op]) key = on ops key ++ [op] := by
  simp [on, h]

theorem on_concat_of_ne (h : op.key.identity ≠ key.identity) :
    on (ops ++ [op]) key = on ops key := by
  simp [on, h]

theorem firstOfIdentity_of_head? (h : (on ops key).head? = some op) :
    FirstOfIdentity (ops.map (·.key)) op.key ∧ op.key.identity = key.identity := by
  rw [on, List.head?_filter, List.find?_eq_some_iff_append] at h
  obtain ⟨hkey, before, after, rfl, hbefore⟩ := h
  rw [Descriptor.same_iff] at hkey
  refine ⟨⟨before.map (·.key), after.map (·.key), by simp, ?_⟩, hkey⟩
  simpa [hkey, Descriptor.same_eq_false_iff] using hbefore

theorem Operation.mem_attached : d ∈ op.attached ↔ ∃ key, op = .attach key d := by
  cases op <;> simp [attached, eq_comm]

theorem mem_inserted : d ∈ inserted ops ↔ Brings ops d := by
  constructor
  · intro hd
    cases ops with
    | nil => cases hd
    | cons op later =>
      rcases List.mem_append.mp hd with hd | hd
      · cases op with
        | claim key children => exact .claimed hd
        | attach key child =>
          cases List.mem_singleton.mp hd
          exact .attached (.head _)
      · obtain ⟨op', hop', hd⟩ := List.mem_flatMap.mp hd
        obtain ⟨key, rfl⟩ := Operation.mem_attached.mp hd
        exact .attached (.tail _ hop')
  · rintro (hd | hd)
    · exact List.mem_append_left _ hd
    · cases hd with
      | head => exact List.mem_append_left _ (.head _)
      | tail _ hd => exact List.mem_append_right _ (List.mem_flatMap.mpr ⟨_, hd, .head _⟩)

theorem inserted_concat (h : ops ≠ []) : inserted (ops ++ [op]) = inserted ops ++ op.attached := by
  obtain ⟨first, later, rfl⟩ := List.exists_cons_of_ne_nil h
  simp [inserted]

-- ---------------------------------------------------------------------------
-- One entry
-- ---------------------------------------------------------------------------

theorem isSome_entry? : (t.entry? key).isSome = t.contains key :=
  List.isSome_find?

theorem contains_eq_false_of_entry?_eq_none (h : t.entry? key = none) :
    t.contains key = false := by
  rw [← isSome_entry?, h, Option.isSome_none]

theorem contains_of_entry?_eq_some (h : t.entry? key = some e) : t.contains key = true := by
  rw [← isSome_entry?, h, Option.isSome_some]

theorem identity_of_entry?_eq_some (h : t.entry? key = some e) :
    e.key.identity = key.identity := by
  simpa using List.find?_some h

theorem entry?_congr (h : key'.identity = key.identity) : t.entry? key' = t.entry? key := by
  simp [Descriptor.same, entry?, h]

theorem entry?_concat_self (h : t.entry? e.key = none) :
    entry? ⟨t.entries ++ [e]⟩ e.key = some e := by
  unfold entry? at h ⊢
  simp [h]

theorem entry?_concat_of_ne (h : e.key.identity ≠ key.identity) :
    entry? ⟨t.entries ++ [e]⟩ key = t.entry? key := by
  unfold entry?
  simp [h]

/-- Entries that keep their keys are found as before. -/
theorem entry?_map {f : Entry → Entry} (hf : ∀ e, (f e).key = e.key) :
    entry? ⟨t.entries.map f⟩ key = (t.entry? key).map f := by
  have hsame : (fun e : Entry => e.key.same key) ∘ f = fun e => e.key.same key :=
    funext fun e => congrArg (Descriptor.same · key) (hf e)
  unfold entry?
  rw [List.find?_map, hsame]

-- ---------------------------------------------------------------------------
-- One operation
-- ---------------------------------------------------------------------------

theorem entry?_claim_self : entry? (t.claim key children).2 key =
    some ((t.entry? key).getD ⟨key, insertAll children []⟩) := by
  unfold claim
  cases hentry : t.entry? key with
  | none =>
    rw [contains_eq_false_of_entry?_eq_none hentry]
    exact entry?_concat_self hentry
  | some e =>
    rw [contains_of_entry?_eq_some hentry]
    exact hentry

theorem entry?_claim_of_ne (h : key'.identity ≠ key.identity) :
    entry? (t.claim key' children).2 key = t.entry? key := by
  unfold claim
  split
  · rfl
  · exact entry?_concat_of_ne h

theorem entry?_attach_self : entry? (t.attach key child) key =
    some ((t.entry? key).elim ⟨key, [child]⟩ fun e =>
      { e with children := Descriptor.insert child e.children }) := by
  unfold attach
  cases hentry : t.entry? key with
  | none =>
    rw [contains_eq_false_of_entry?_eq_none hentry]
    exact entry?_concat_self hentry
  | some e =>
    rw [contains_of_entry?_eq_some hentry, if_pos rfl, entry?_map (fun _ => by split <;> rfl),
      hentry]
    simp [identity_of_entry?_eq_some hentry]

theorem entry?_attach_of_ne (h : key'.identity ≠ key.identity) :
    entry? (t.attach key' child) key = t.entry? key := by
  unfold attach
  split
  · rw [entry?_map (fun _ => by split <;> rfl)]
    cases hentry : t.entry? key with
    | none => rfl
    | some e =>
      -- What is found under `key` is not the entry that grows.
      have hne : ¬ e.key.same key' = true := by
        rw [Descriptor.same_iff, identity_of_entry?_eq_some hentry]
        exact h.symm
      rw [Option.map_some, if_neg hne]
  · exact entry?_concat_of_ne h

/-- The first operation on a key makes its entry, and others add to it. -/
theorem entry?_apply_self : entry? (t.apply op) op.key =
    some ((t.entry? op.key).elim ⟨op.key, insertAll op.given []⟩ fun e =>
      { e with children := insertAll op.attached e.children }) := by
  cases op with
  | claim key children =>
    refine entry?_claim_self.trans ?_
    cases hentry : t.entry? key with
    | none => simp [Operation.key, hentry, Operation.given]
    | some e => simp [Operation.key, hentry, Operation.attached, insertAll]
  | attach key child => exact entry?_attach_self

theorem entry?_apply_of_ne (h : op.key.identity ≠ key.identity) :
    entry? (t.apply op) key = t.entry? key := by
  cases op with
  | claim key' children => exact entry?_claim_of_ne h
  | attach key' child => exact entry?_attach_of_ne h

theorem claim_eq_true_iff : (t.claim key children).1 = true ↔ t.entry? key = none := by
  rw [← Option.isNone_iff_eq_none, ← Option.not_isSome, isSome_entry?, claim]
  cases t.contains key <;> simp

theorem claim_refused (h : (t.claim key children).1 = false) : (t.claim key children).2 = t := by
  unfold claim at h ⊢
  split at h
  · rename_i hold
    rw [if_pos hold]
  · cases h

-- ---------------------------------------------------------------------------
-- All operations
-- ---------------------------------------------------------------------------

theorem after_concat : after (ops ++ [op]) = (after ops).apply op := by
  simp [after, run]

theorem proper_after : (after ops).Proper := by
  refine List.foldlRecOn ops apply (motive := Proper) .empty fun t ht op _ => ?_
  cases op with
  | claim key children => exact ht.claim
  | attach key child => exact ht.attach

/-- The entry of a key, as the operations tell it. -/
theorem entry?_after : entry? (after ops) key =
    (on ops key).head?.map fun op => ⟨op.key, insertAll (inserted (on ops key)) []⟩ := by
  induction ops using List.reverseRecOn with
  | nil => rfl
  | append_singleton ops op ih =>
    rw [after_concat]
    by_cases hkey : op.key.identity = key.identity
    · rw [on_concat_of_eq hkey, ← entry?_congr hkey, entry?_apply_self, entry?_congr hkey, ih]
      -- If nothing used the key before, `op` makes the entry.
      cases hon : on ops key with
      | nil => simp [inserted]
      | cons first later =>
        rw [inserted_concat (by simp), Descriptor.insertAll_append]
        rfl
    · rw [on_concat_of_ne hkey, entry?_apply_of_ne hkey, ih]

-- ---------------------------------------------------------------------------
-- Nothing is lost
-- ---------------------------------------------------------------------------

/-- Each entry is still there under the key it was made with, and still has all
its children. -/
def Grows (t u : TopLevel) : Prop :=
  ∀ key e, t.entry? key = some e →
    ∃ e', u.entry? key = some e' ∧ e'.key = e.key ∧ e.children ⊆ e'.children

theorem Grows.refl : t.Grows t :=
  fun _ e he => ⟨e, he, rfl, fun _ hd => hd⟩

theorem Grows.trans (h : t.Grows u) (h' : u.Grows v) : t.Grows v := by
  intro key e he
  obtain ⟨e', he', hkey, hchildren⟩ := h key e he
  obtain ⟨e'', he'', hkey', hchildren'⟩ := h' key e' he'
  exact ⟨e'', he'', hkey'.trans hkey, fun _ hd => hchildren' (hchildren hd)⟩

theorem grows_apply : t.Grows (t.apply op) := by
  intro key e he
  by_cases hkey : op.key.identity = key.identity
  · rw [← entry?_congr hkey] at he ⊢
    rw [entry?_apply_self, he]
    exact ⟨_, rfl, rfl, fun _ hd => Descriptor.mem_insertAll.mpr (.inl hd)⟩
  · exact ⟨e, (entry?_apply_of_ne hkey).trans he, rfl, fun _ hd => hd⟩

theorem grows_run : t.Grows (run more t) :=
  List.foldlRecOn more apply (motive := t.Grows) .refl fun _ h _ _ => h.trans grows_apply

-- ---------------------------------------------------------------------------
-- What can be told from the operations
-- ---------------------------------------------------------------------------

/-- A map holds what the operations say and nothing else: which keys are free,
which entries there are, and for each of them the descriptors that came first
for its key and for its children. What comes next touches one entry only and
takes nothing away. -/
structure Reflects (ops : List Operation) (t : TopLevel) : Prop where
  granted : ∀ key children, (t.claim key children).1 = true ↔
    ∀ op ∈ ops, op.key.identity ≠ key.identity
  refused : ∀ key children, (t.claim key children).1 = false → (t.claim key children).2 = t
  entry : ∀ key, (∃ e, t.entry? key = some e) ↔ ∃ op ∈ ops, op.key.identity = key.identity
  key : ∀ key e, t.entry? key = some e →
    e.key.identity = key.identity ∧ FirstOfIdentity (ops.map (·.key)) e.key
  value : ∀ key e, t.entry? key = some e → ∀ i,
    i ∈ e.children.map identity ↔ ∃ d, Brings (on ops key) d ∧ d.identity = i
  children : ∀ key e, t.entry? key = some e → Collects (inserted (on ops key)) e.children
  others : ∀ op key, op.key.identity ≠ key.identity → entry? (t.apply op) key = t.entry? key
  grows : ∀ more, t.Grows (run more t)
  sorted : t.Rearranges ⟨t.sorted⟩ ∧ Ascending t.sorted

theorem entry?_after_eq_none_iff :
    entry? (after ops) key = none ↔ ∀ op ∈ ops, op.key.identity ≠ key.identity := by
  rw [entry?_after, Option.map_eq_none_iff, List.head?_eq_none_iff, on_eq_nil_iff]

theorem key_of_entry?_after (h : entry? (after ops) key = some e) :
    e.key.identity = key.identity ∧ FirstOfIdentity (ops.map (·.key)) e.key := by
  rw [entry?_after] at h
  obtain ⟨op, hop, rfl⟩ := Option.map_eq_some_iff.mp h
  exact (firstOfIdentity_of_head? hop).symm

theorem children_of_entry?_after (h : entry? (after ops) key = some e) :
    e.children = insertAll (inserted (on ops key)) [] := by
  rw [entry?_after] at h
  obtain ⟨op, _, rfl⟩ := Option.map_eq_some_iff.mp h
  rfl

/-- This holds at every point of a history, as any operations may have come
before. -/
theorem reflects_after (ops : List Operation) : Reflects ops (after ops) := by
  constructor
  case granted => exact fun key children => claim_eq_true_iff.trans entry?_after_eq_none_iff
  case refused => exact fun key children => claim_refused
  case entry =>
    intro key
    rw [← Option.ne_none_iff_exists', Ne, entry?_after_eq_none_iff]
    simp
  case key => exact fun key e he => key_of_entry?_after he
  case value =>
    intro key e he i
    rw [children_of_entry?_after he, Descriptor.mem_map_identity_insertAll]
    simp [mem_inserted]
  case children =>
    intro key e he
    rw [children_of_entry?_after he]
    exact collects_insertAll
  case others => exact fun op key => entry?_apply_of_ne
  case grows => exact fun more => grows_run
  case sorted => exact ⟨rearranges_sorted, proper_after.ascending_sorted⟩

def jar (name file : String) : Descriptor :=
  .ofArtifact .runtime ⟨"org.acme", name, "1"⟩ { file := some file }

/-- The files that came first stay. The claim comes too late to bring `tool`. -/
example : (after [.attach (jar "app" "/a.jar") (jar "lib" "/l.jar"),
    .claim (jar "app" "/b.jar") [jar "tool" "/t.jar"],
    .attach (jar "app" "/c.jar") (jar "lib" "/m.jar")]).entries =
      [⟨jar "app" "/a.jar", [jar "lib" "/l.jar"]⟩] := by
  decide

end ServerFractions.TopLevel
