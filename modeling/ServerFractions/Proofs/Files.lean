import ServerFractions.Files.Basic
import ServerFractions.Proofs.Except

/-!
# What paths give and take

An input is read exactly where a path holds one (`input_eq_ok_iff`), any other
text wherever there is one (`text_eq_ok_iff`), and nothing stands in the way of
an output exactly where a path takes one (`outputObstacle?_eq_none_iff`).
-/

namespace ServerFractions

/-- Whether something can be written to what stands there. -/
def Standing.Takes : Standing → Prop
  | .nothing vacant => vacant = true
  | .directory => False
  | .regular _ _ => True
  | .special _ refusal? => refusal? = none

namespace Files

variable {files : Files} {path text : String}

/-- The path leads to a file with this text, over links or not. -/
def HasText (files : Files) (path text : String) : Prop :=
  (∃ size, (files path).standing = .regular size (.text text)) ∨
    ∃ refusal?, (files path).standing = .special (.text text) refusal?

/-- The path is that of a regular file with this text and of at most 100 MiB. -/
structure Holds (files : Files) (path text : String) : Prop where
  link : (files path).link = false
  standing : ∃ size ≤ 104857600, (files path).standing = .regular size (.text text)

/-- The path is no link, it is in a directory that is there, and what stands
there takes what is written. -/
structure Takes (files : Files) (path : String) : Prop where
  parent : ∀ parent, Path.parent? path = some parent → parent ≠ "" →
    (files parent).standing = .directory
  link : (files path).link = false
  standing : (files path).standing.Takes

theorem text_eq_ok_iff : files.text path = .ok text ↔ files.HasText path text := by
  rw [Files.text, HasText]
  cases (files path).standing with
  | nothing _ => simp
  | directory => simp
  | regular _ content => cases content <;> simp
  | special content _ => cases content <;> simp

theorem inputObstacle?_eq_none_iff : files.inputObstacle? path = none ↔
    (files path).link = false ∧ ((∃ vacant, (files path).standing = .nothing vacant) ∨
      ∃ size ≤ 104857600, ∃ content, (files path).standing = .regular size content) := by
  rw [inputObstacle?]
  cases (files path).link with
  | true => simp
  | false =>
    cases (files path).standing with
    | nothing _ => simp
    | directory => simp
    | special _ _ => simp
    | regular size _ => simp [show sizeLimit = 104857600 from rfl]

theorem input_eq_ok_iff : files.input path = .ok text ↔ files.Holds path text := by
  rw [input]
  constructor
  · intro h
    cases hobstacle : files.inputObstacle? path with
    | some _ =>
      rw [hobstacle] at h
      cases h
    | none =>
      rw [hobstacle, mapError_eq_ok_iff, text_eq_ok_iff] at h
      obtain ⟨hlink, hstanding⟩ := inputObstacle?_eq_none_iff.mp hobstacle
      obtain ⟨size, hfile⟩ | ⟨_, hfile⟩ := h
      · exact ⟨hlink, size, by simpa [hfile] using hstanding, hfile⟩
      · simp [hfile] at hstanding
  · rintro ⟨hlink, size, hsize, hfile⟩
    rw [inputObstacle?_eq_none_iff.mpr ⟨hlink, .inr ⟨size, hsize, _, hfile⟩⟩, mapError_eq_ok_iff,
      text_eq_ok_iff]
    exact .inl ⟨size, hfile⟩

theorem filter_parent?_eq_none_iff :
    ((Path.parent? path).filter fun parent => parent != "" && !files.isDirectory parent) = none ↔
      ∀ parent, Path.parent? path = some parent → parent ≠ "" →
        (files parent).standing = .directory := by
  simp [Option.filter_eq_none_iff, isDirectory]

theorem outputObstacle?_eq_none_iff : files.outputObstacle? path = none ↔ files.Takes path := by
  unfold outputObstacle?
  split
  · rename_i hparent
    refine ⟨nofun, fun htakes => ?_⟩
    rw [filter_parent?_eq_none_iff.mpr htakes.parent] at hparent
    cases hparent
  · rename_i hparent
    by_cases hlink : (files path).link = true
    · rw [if_pos hlink]
      exact ⟨nofun, fun htakes => absurd (hlink.symm.trans htakes.link) (by decide)⟩
    · rw [if_neg hlink]
      have hstanding : files.Takes path ↔ (files path).standing.Takes :=
        ⟨(·.standing), fun h =>
          ⟨filter_parent?_eq_none_iff.mp hparent, Bool.eq_false_iff.mpr hlink, h⟩⟩
      rw [hstanding]
      cases (files path).standing with
      | nothing vacant => cases vacant <;> simp [Standing.Takes]
      | directory => simp [Standing.Takes]
      | regular _ _ => simp [Standing.Takes]
      | special _ _ => simp [Standing.Takes]

end Files

end ServerFractions
