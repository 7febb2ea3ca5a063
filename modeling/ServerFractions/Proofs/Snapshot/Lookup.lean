import ServerFractions.Proofs.Reach
import ServerFractions.Snapshot.Graph

/-!
# Nothing that is referred to is missing

In a snapshot every name and every gav that some entry refers to is found, and
so is everything that can be reached from it.
-/

namespace ServerFractions.Snapshot

variable {s : Snapshot} {x y : String} {xs : List String}

-- ---------------------------------------------------------------------------
-- Configurations
-- ---------------------------------------------------------------------------

section

variable {e : ConfigurationEntry}

theorem name_of_configuration? (h : s.configuration? x = some e) : e.name = x := by
  simpa using List.find?_some h

theorem mem_of_configuration? (h : s.configuration? x = some e) : e ∈ s.document.configurations :=
  List.mem_of_find?_eq_some h

theorem exists_configuration?_iff :
    (∃ e, s.configuration? x = some e) ↔ x ∈ s.document.configurationNames := by
  simp [configuration?, ← Option.isSome_iff_exists, Document.configurationNames]

theorem parents_of_configuration? (h : s.configuration? x = some e) :
    s.parents x = e.extendsFrom := by
  simp [parents, h]

theorem mem_configurationNames_of_mem_parents (h : y ∈ s.parents x) :
    y ∈ s.document.configurationNames := by
  cases hx : s.configuration? x with
  | none => simp [parents, hx] at h
  | some e =>
    rw [parents_of_configuration? hx] at h
    exact (s.closed.configurations_closed e (mem_of_configuration? hx)).parents y h

theorem mem_configurationNames_of_reaches (hx : x ∈ s.document.configurationNames)
    (h : Reaches s.parents x y) : y ∈ s.document.configurationNames := by
  cases h with
  | refl => exact hx
  | tail _ hy => exact mem_configurationNames_of_mem_parents hy

end

-- ---------------------------------------------------------------------------
-- Modules
-- ---------------------------------------------------------------------------

section

variable {m : ModuleEntry}

theorem gav_of_module? (h : s.module? x = some m) : m.gav = x := by
  simpa using List.find?_some h

theorem mem_of_module? (h : s.module? x = some m) : m ∈ s.document.modules :=
  List.mem_of_find?_eq_some h

theorem exists_module?_iff : (∃ m, s.module? x = some m) ↔ x ∈ s.document.gavs := by
  simp [module?, ← Option.isSome_iff_exists, Document.gavs]

theorem children_of_module? (h : s.module? x = some m) : s.children x = m.children := by
  simp [children, h]

theorem mem_gavs_of_mem_children (h : y ∈ s.children x) : y ∈ s.document.gavs := by
  cases hx : s.module? x with
  | none => simp [children, hx] at h
  | some m =>
    rw [children_of_module? hx] at h
    exact s.closed.children_known m (mem_of_module? hx) y h

theorem mem_gavs_of_reaches (hx : x ∈ s.document.gavs) (h : Reaches s.children x y) :
    y ∈ s.document.gavs := by
  cases h with
  | refl => exact hx
  | tail _ hy => exact mem_gavs_of_mem_children hy

theorem mem_gavs_of_mem_firstLevel {e : ConfigurationEntry} (h : s.configuration? x = some e)
    (hy : y ∈ e.firstLevel) : y ∈ s.document.gavs :=
  (s.closed.configurations_closed e (mem_of_configuration? h)).firstLevel y hy

end

end ServerFractions.Snapshot
