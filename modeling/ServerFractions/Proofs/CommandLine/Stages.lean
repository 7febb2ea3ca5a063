import ServerFractions.Proofs.Except
import ServerFractions.Settings
import ServerFractions.Snapshot.Basic

/-!
# The stages of a command

A command that resolves something can be rejected at six stages. `Stages` has
what each of them comes to, judged by itself: no stage is spared because an
earlier one has rejected the command, unless it lacks what that one would have
given. `Stages.run` goes through them as a command does, and the first verdict
is the one that it ends with (`run_eq_error_iff`); there is none exactly when
the inputs make a text and nothing keeps it from its destination
(`firstVerdict_eq_none_iff`).
-/

namespace ServerFractions.CommandLine

/-- Where a command can be rejected, in the order in which that is told. -/
inductive Stage where
  | settings
  | configuration
  | snapshot
  | input
  | resolution
  | destination
  deriving DecidableEq, Repr

def Stage.all : List Stage :=
  [.settings, .configuration, .snapshot, .input, .resolution, .destination]

/-- What the stages of a command come to. The input is what it reads besides the
snapshot. The name of a configuration is given by the arguments or the settings,
so its stage has to know the settings. -/
structure Stages (Input : Type) where
  settings : Except Failure Settings
  refusal? : Settings → Option Failure
  snapshot : Except Failure Snapshot
  input : Except Failure Input
  text : Settings → Snapshot → Input → Except Failure String
  obstacle? : Option Failure

/-- The failure of an attempt that failed. -/
def rejection? {α : Type} : Except Failure α → Option Failure
  | .error f => some f
  | .ok _ => none

/-- An attempt that fails if there is something to refuse. -/
def refuse : Option Failure → Except Failure Unit
  | some f => .error f
  | none => .ok ()

section

variable {α : Type} {a : α} {f : Failure}

@[simp] theorem rejection?_error : rejection? (.error f : Except Failure α) = some f := rfl

@[simp] theorem rejection?_ok : rejection? (.ok a) = none := rfl

theorem refuse_eq_ok_iff {f? : Option Failure} {u : Unit} : refuse f? = .ok u ↔ f? = none := by
  cases f? with
  | some _ => exact ⟨nofun, nofun⟩
  | none => exact ⟨fun _ => rfl, fun _ => rfl⟩

end

namespace Stages

variable {Input : Type} {g : Stages Input} {f : Failure} {text : String}

/-- What a stage has against the command, whatever the other stages have. -/
def verdict (g : Stages Input) : Stage → Option Failure
  | .settings => rejection? g.settings
  | .configuration => g.settings.toOption.bind g.refusal?
  | .snapshot => rejection? g.snapshot
  | .input => rejection? g.input
  | .resolution => do
    rejection? (g.text (← g.settings.toOption) (← g.snapshot.toOption) (← g.input.toOption))
  | .destination => g.obstacle?

/-- The verdict of the first stage that has one. -/
def firstVerdict (g : Stages Input) : Option Failure :=
  Stage.all.findSome? g.verdict

/-- The text that the command makes of its inputs. -/
def Makes (g : Stages Input) (text : String) : Prop :=
  ∃ s snapshot input, g.settings = .ok s ∧ g.refusal? s = none ∧ g.snapshot = .ok snapshot ∧
    g.input = .ok input ∧ g.text s snapshot input = .ok text

/-- The stages one after the other, up to the first that fails. -/
def run (g : Stages Input) : Except Failure String := do
  let s ← g.settings
  refuse (g.refusal? s)
  let snapshot ← g.snapshot
  let input ← g.input
  let text ← g.text s snapshot input
  refuse g.obstacle?
  return text

theorem firstVerdict_eq : g.firstVerdict = (rejection? g.settings).or
    ((g.settings.toOption.bind g.refusal?).or ((rejection? g.snapshot).or ((rejection? g.input).or
      ((g.verdict .resolution).or g.obstacle?)))) := by
  simp only [firstVerdict, Stage.all, List.findSome?_cons, List.findSome?_nil, verdict]
  grind

theorem run_eq_error_iff : g.run = .error f ↔ g.firstVerdict = some f := by
  rw [firstVerdict_eq, verdict, run]
  -- A stage is gone through only when those before it have passed, so the cases nest.
  cases g.settings with
  | error _ => simp
  | ok s =>
    cases hrefusal : g.refusal? s with
    | some _ => simp [refuse, Except.toOption, hrefusal]
    | none =>
      cases g.snapshot with
      | error _ => simp [refuse, Except.toOption, hrefusal]
      | ok snapshot =>
        cases g.input with
        | error _ => simp [refuse, Except.toOption, hrefusal]
        | ok input =>
          cases htext : g.text s snapshot input with
          | error _ => simp [refuse, Except.toOption, hrefusal, htext]
          | ok text =>
            cases g.obstacle? with
            | some _ => simp [refuse, Except.toOption, hrefusal, htext, Functor.map, Except.map]
            | none => simp [refuse, Except.toOption, hrefusal, htext, pure, Except.pure]

theorem run_eq_ok_iff : g.run = .ok text ↔ g.Makes text ∧ g.obstacle? = none := by
  simp only [run, bind_eq_ok_iff, refuse_eq_ok_iff, Makes]
  constructor
  · rintro ⟨s, hs, _, hrefusal, snapshot, hsnapshot, input, hinput, text', htext, _, hobstacle, ⟨⟩⟩
    exact ⟨⟨s, snapshot, input, hs, hrefusal, hsnapshot, hinput, htext⟩, hobstacle⟩
  · rintro ⟨⟨s, snapshot, input, hs, hrefusal, hsnapshot, hinput, htext⟩, hobstacle⟩
    exact ⟨s, hs, (), hrefusal, snapshot, hsnapshot, input, hinput, text, htext, (), hobstacle, rfl⟩

theorem firstVerdict_eq_none_iff :
    g.firstVerdict = none ↔ (∃ text, g.Makes text) ∧ g.obstacle? = none := by
  rw [← exists_and_right]
  simp only [← run_eq_ok_iff]
  cases hrun : g.run with
  | error f => simp [run_eq_error_iff.mp hrun]
  | ok text =>
    simp only [Except.ok.injEq, exists_eq', iff_true]
    rw [← Option.not_isSome_iff_eq_none, Option.isSome_iff_exists]
    rintro ⟨f, hf⟩
    rw [run_eq_error_iff.mpr hf] at hrun
    cases hrun

end Stages

end ServerFractions.CommandLine
