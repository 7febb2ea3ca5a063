import ServerFractions.Proofs.CommandLine.Product
import ServerFractions.Proofs.Snapshot.Loading

/-!
# What a command leaves behind

A command that is rejected prints nothing and writes nothing, and the first
stage that rejects it decides its status. A command that is not rejected
delivers one text to one destination (`respond_decides`).
-/

namespace ServerFractions.CommandLine

variable {files : Files} {now : Instant} {f : Failure} {text : String}

-- ---------------------------------------------------------------------------
-- Runs and their stages
-- ---------------------------------------------------------------------------

def delivery (output : Option String) (text : String) : Delivery :=
  output.elim (.printed text) (.written · text)

theorem deliver_eq {output : Option String} : (deliver files output text).mapError .fault =
    refuse (obstacle? files output) >>= fun _ => pure (delivery output text) := by
  cases output with
  | none => rfl
  | some path =>
    simp only [deliver, obstacle?, Option.bind_some, delivery]
    cases files.outputObstacle? path <;> rfl

namespace ResolveOptions

variable {o : ResolveOptions} {quiet : Bool}

theorem result_prepare (now : Instant) : Attempt.result (o.prepare files) = (do
    let s ← (o.stages files now).settings
    refuse ((o.stages files now).refusal? s)
    let snapshot ← (o.stages files now).snapshot
    let catalog ← (o.stages files now).input
    return ⟨o.plan s, snapshot, catalog⟩) := by
  simp only [prepare, Attempt.result_bind, stages]
  refine bind_congr fun s => ?_
  split_ifs
  · rfl
  · simp only [Attempt.result_bind, Attempt.result_pure]
    rfl

theorem answer_run_eq : (o.run files now quiet).value.answer = (do
    let p ← Attempt.result (o.prepare files)
    let resolved ← (p.snapshot.resolveProject (.ok p.catalog.keys) p.plan.configuration
      p.plan.transitive Cache.empty).value.answer
    (deliver files o.output ((Report.build resolved (.at now)).render p.plan.format)).mapError
      .fault) := by
  simp only [run, Logged.value_bind, Attempt.result]
  split
  · rename_i hprepare
    rw [hprepare]
    rfl
  · rename_i hprepare
    rw [hprepare]
    simp only [Logged.value_bind, ok_bind]
    split
    · rename_i hanswer
      rw [hanswer]
      rfl
    · rename_i hanswer
      rw [hanswer]
      rfl

theorem answer_run (quiet : Bool) : (o.run files now quiet).value.answer =
    delivery o.output <$> (o.stages files now).run := by
  simp only [answer_run_eq, result_prepare now, Stages.run, deliver_eq, stages, bind_assoc,
    map_bind, map_pure, pure_bind]

end ResolveOptions

namespace SpecsOptions

variable {o : SpecsOptions}

theorem answer_run_eq : (o.run files).value.answer = (do
    let found ← Attempt.result (o.resolve files)
    (deliver files o.output (Descriptor.renderList found)).mapError .fault) := by
  simp only [run, Logged.value_bind, Attempt.result]
  split
  · rename_i hresolve
    rw [hresolve]
    rfl
  · rename_i hresolve
    rw [hresolve]
    rfl

theorem result_resolve : Attempt.result (o.resolve files) = (do
    let s ← (o.stages files).settings
    let snapshot ← (o.stages files).snapshot
    let specs ← (o.stages files).input
    (resolveSpecs snapshot.registry snapshot.resolver (o.policy s) (some specs)
      Cache.empty).value.answer.mapError .fault) := by
  simp only [resolve, Attempt.result_bind, stages]
  refine bind_congr fun s => bind_congr fun snapshot => bind_congr fun specs => ?_
  rw [Attempt.result_lift, ok_bind]
  split
  · rename_i hanswer
    rw [hanswer]
    rfl
  · rename_i hanswer
    rw [hanswer]
    rfl

theorem answer_run : (o.run files).value.answer = delivery o.output <$> (o.stages files).run := by
  have hrefuse : ∀ s, refuse ((o.stages files).refusal? s) = pure () := fun _ => rfl
  simp only [answer_run_eq, result_resolve, Stages.run, hrefuse, deliver_eq, bind_assoc, map_bind,
    map_pure, pure_bind]
  simp only [stages, bind_assoc, pure_bind]

end SpecsOptions

-- ---------------------------------------------------------------------------
-- Commands
-- ---------------------------------------------------------------------------

namespace Command

def verdict (files : Files) (now : Instant) : Command → Stage → Option Failure
  | .resolve o => (o.stages files now).verdict
  | .specs o => (o.stages files).verdict
  | .scenario _ => fun _ => none

/-- The verdict of the first stage of a command that has one. -/
def firstVerdict (files : Files) (now : Instant) (c : Command) : Option Failure :=
  Stage.all.findSome? (c.verdict files now)

def output : Command → Option String
  | .resolve o => o.output
  | .specs o => o.output
  | .scenario _ => none

def settingsFile? (files : Files) : Command → Option String
  | .resolve o => CommandLine.settingsFile? files o.settings o.snapshot
  | .specs o => CommandLine.settingsFile? files o.settings o.snapshot
  | .scenario _ => none

end Command

-- ---------------------------------------------------------------------------
-- Responses
-- ---------------------------------------------------------------------------

/-- The failure comes from a configuration or a name that was rejected, inside
whatever contexts. -/
def OfConfiguration (f : Failure) : Prop :=
  (∃ message, f.fault? = some (.invalidConfiguration message)) ∨
    ∃ name, f.fault? = some (.unknownConfiguration name)

theorem code_ofFailure_of_configuration (h : OfConfiguration f) :
    (ExitStatus.ofFailure f).code = 1 := by
  obtain ⟨_, h⟩ | ⟨_, h⟩ := h
  · simp [ExitStatus.ofFailure, h, ExitStatus.code]
  · simp [ExitStatus.ofFailure, h, ExitStatus.code]

theorem code_ofFailure_of_other (h : ¬ OfConfiguration f) :
    (ExitStatus.ofFailure f).code = 3 := by
  unfold ExitStatus.ofFailure
  split
  · rename_i hfault
    exact absurd (.inl ⟨_, hfault⟩) h
  · rename_i hfault
    exact absurd (.inr ⟨_, hfault⟩) h
  · rfl

/-- The response to a command that is rejected leaves nothing but messages. -/
structure Response.Rejects (r : Response) (f : Failure) : Prop where
  stdout : r.stdout = ""
  file : r.file = none
  code_of_configuration : OfConfiguration f → r.status.code = 1
  code_of_other : ¬ OfConfiguration f → r.status.code = 3

/-- What is printed of a text: the text, with a newline at its end if there is
none. -/
structure Prints (text printed : String) : Prop where
  of_ended : (∃ lines, text = lines ++ "\n") → printed = text
  of_unended : (¬ ∃ lines, text = lines ++ "\n") → printed = text ++ "\n"

/-- The response that delivers a text to one destination, and to that alone. -/
structure Response.Delivers (r : Response) (output : Option String) (text : String) : Prop where
  code : r.status.code = 0
  stdout_of_none : output = none → Prints text r.stdout
  stdout_of_some : ∀ path, output = some path → r.stdout = ""
  file : r.file = output.map fun path => (path, text)

theorem endsWith_newline_iff : text.endsWith "\n" = true ↔ ∃ lines, text = lines ++ "\n" := by
  rw [String.endsWith_eq_endsWith_toSlice, String.Slice.endsWith_string_iff, String.copy_toSlice]
  constructor
  · rintro ⟨lines, hlines⟩
    exact ⟨String.ofList lines, by rw [← String.toList_inj]; simp [← hlines]⟩
  · rintro ⟨lines, rfl⟩
    exact ⟨lines.toList, by simp⟩

theorem prints_ended : Prints text (ended text) where
  of_ended h := if_pos (endsWith_newline_iff.mpr h)
  of_unended h := if_neg (mt endsWith_newline_iff.mp h)

theorem Outcome.rejects_response {out : Outcome} (h : out.answer = .error f) :
    out.response.Rejects f := by
  simp only [response, h]
  exact ⟨rfl, rfl, code_ofFailure_of_configuration, code_ofFailure_of_other⟩

theorem Outcome.delivers_response {out : Outcome} {output : Option String}
    (h : out.answer = .ok (delivery output text)) : out.response.Delivers output text := by
  cases output with
  | none =>
    simp only [response, h, delivery, Option.elim_none]
    exact ⟨rfl, fun _ => prints_ended, nofun, rfl⟩
  | some path =>
    simp only [response, h, delivery, Option.elim_some]
    exact ⟨rfl, nofun, fun _ _ => rfl, rfl⟩

theorem Stages.firstVerdict_of_settings {Input : Type} {g : Stages Input}
    (h : g.settings = .error f) : g.firstVerdict = some f := by
  rw [firstVerdict_eq, h]
  rfl

/-- What a command comes to, by its stages. -/
theorem Stages.response_of_answer {Input : Type} {g : Stages Input} {out : Outcome}
    {output given : Option String} {snapshot : String}
    (hanswer : out.answer = delivery output <$> g.run)
    (hsettings : g.settings = (CommandLine.settings files given snapshot).result)
    (hobstacle : g.obstacle? = CommandLine.obstacle? files output) :
    (∀ f, g.firstVerdict = some f → out.response.Rejects f) ∧
    (g.firstVerdict = none ↔ (∃ text, g.Makes text) ∧ Receives files output) ∧
    (∀ text, g.Makes text → Receives files output → out.response.Delivers output text) ∧
    ∀ path, settingsFile? files given snapshot = some path →
      ((∀ text, files.HasText path text → Settings.read? text = none) →
        out.response.status.code = 3) ∧
      ∀ text s, files.HasText path text → Settings.read? text = some s → ¬ s.Valid →
        out.response.status.code = 1 := by
  have hreceives : g.obstacle? = none ↔ Receives files output := by
    rw [hobstacle, obstacle?_eq_none_iff]
  have hrejects : ∀ f, g.firstVerdict = some f → out.response.Rejects f := by
    intro f hf
    rw [run_eq_error_iff.mpr hf] at hanswer
    exact Outcome.rejects_response hanswer
  have hsettings' : ∀ f, (CommandLine.settings files given snapshot).result = .error f →
      out.response.Rejects f :=
    fun f hf => hrejects f (firstVerdict_of_settings (hsettings.trans hf))
  refine ⟨hrejects, ?_, fun text hmakes houtput => ?_,
    fun path hpath => ⟨fun hbroken => ?_, fun text s htext hread hinvalid => ?_⟩⟩
  · rw [firstVerdict_eq_none_iff, hreceives]
  · rw [run_eq_ok_iff.mpr ⟨hmakes, hreceives.mpr houtput⟩] at hanswer
    exact Outcome.delivers_response hanswer
  · obtain ⟨f, hf, hfault⟩ := result_settings_of_broken hpath hbroken
    have hnot : ¬ OfConfiguration f := by simp [OfConfiguration, hfault]
    exact (hsettings' f hf).code_of_other hnot
  · obtain ⟨message, hf⟩ := result_settings_of_invalid hpath htext hread hinvalid
    exact (hsettings' _ hf).code_of_configuration (.inl ⟨message, rfl⟩)

/-- A build without modules and a list without specifications, beside a device
that is always empty. -/
def shelf : Files := fun path =>
  if path = "build.json" then ⟨false, .regular 24 (.text "\x7b\"root_project\": \"acme\"\x7d")⟩
  else if path = "specs.json" then ⟨false, .regular 2 (.text "[]")⟩
  else if path = "/dev/null" then ⟨false, .special (.text "") none⟩
  else ⟨false, .nothing true⟩

def shelfSnapshot : Snapshot where
  document := { rootProject := "acme" }
  closed := Snapshot.Document.firstFault?_eq_none_iff.mp (by decide)

theorem shelf_loads : Loads shelf "build.json" Snapshot.load shelfSnapshot := by
  have hread : Snapshot.Document.read? "\x7b\"root_project\": \"acme\"\x7d" =
      some { rootProject := "acme" } := by
    decide +kernel
  exact ⟨_, ⟨rfl, 24, by decide, rfl⟩,
    (Snapshot.load_eq_ok_iff hread).mpr ⟨Snapshot.Document.firstFault?_eq_none_iff.mpr
      shelfSnapshot.closed, rfl⟩⟩

theorem shelf_produces {output given : Option String} (h : Applies shelf given "build.json" {}) :
    Produces shelf ⟨0, 0⟩
      (.specs ⟨"build.json", "specs.json", false, false, none, output, given⟩) "[]" := by
  have hspecs : Loads shelf "specs.json" loadSpecs [] :=
    ⟨"[]", ⟨rfl, 2, by decide, rfl⟩, by rfl⟩
  have hlist : Descriptor.Lists "[]" [] := Descriptor.lists_iff.mpr (by decide +kernel)
  exact .descriptors h shelf_loads hspecs rfl (fun _ => .rfl) .nil hlist

theorem shelf_takes : shelf.Takes "out.json" where
  parent parent hparent hne := by
    have hempty : Path.parent? "out.json" = some "" := by decide +kernel
    rw [hempty, Option.some.injEq] at hparent
    exact absurd hparent.symm hne
  link := rfl
  standing := rfl

end ServerFractions.CommandLine
