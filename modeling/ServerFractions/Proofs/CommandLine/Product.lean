import ServerFractions.CommandLine.Run
import ServerFractions.Proofs.CommandLine.Stages
import ServerFractions.Proofs.Files
import ServerFractions.Proofs.Json.RoundTrip
import ServerFractions.Proofs.Settings
import ServerFractions.Proofs.SpecResolution
import ServerFractions.Proofs.TopLevel.Sorted

/-!
# What commands make of their files

`Produces` says what text a command makes of the files that it names: which
settings apply, which inputs are read, and what is written of the result.
`makes_resolve_iff` and `makes_specs_iff` say that this is the text that the
stages of the command lead to. What a command reports on the way has no part in
this, so an attempt is taken for its result alone.
-/

namespace ServerFractions

open Json (Value)

-- ---------------------------------------------------------------------------
-- Lists of descriptors
-- ---------------------------------------------------------------------------

namespace Descriptor

/-- The fields of a descriptor in the order in which they are written. -/
def fields (d : Descriptor) : List (String × Option String) :=
  [("scope", d.scope.name), ("group", d.group), ("artifact", d.artifact), ("version", d.version),
    ("type", d.type), ("classifier", d.classifier), ("file", d.file)]

/-- An object with those fields of a descriptor that there are. -/
def written (d : Descriptor) : Value :=
  .record (d.fields.filterMap fun (name, field) => field.map fun s => (name, .text s))

/-- The text is a printed list of descriptors, and is read as that list. -/
structure Lists (text : String) (ds : List Descriptor) : Prop where
  printed : text = (Value.array (ds.map written)).render
  read : Json.read? text = some (.array (ds.map written))

theorem toValue_eq_written : toValue = written := by
  funext d
  obtain ⟨scope, group, artifact, version, type, classifier, file⟩ := d
  cases classifier <;> cases file <;> rfl

theorem lists_iff {text : String} {ds : List Descriptor} :
    Lists text ds ↔ text = (Value.array (ds.map (·.toValue))).render := by
  rw [toValue_eq_written]
  constructor
  · exact (·.printed)
  · rintro rfl
    exact ⟨rfl, Json.read?_render⟩

end Descriptor

namespace CommandLine

variable {files : Files} {now : Instant} {text : String}

-- ---------------------------------------------------------------------------
-- Attempts
-- ---------------------------------------------------------------------------

/-- What an attempt comes to, whatever it reports. -/
def Attempt.result {α : Type} (x : Attempt α) : Except Failure α :=
  Logged.value x

namespace Attempt

variable {α β : Type} {x : Attempt α} {h : α → Attempt β}

@[simp] theorem result_bind : (x >>= h).result = x.result >>= fun a => (h a).result := by
  simp only [result, bind, ExceptT.bind, ExceptT.mk, ExceptT.bindCont, Logged.bind]
  cases Logged.value x <;> rfl

@[simp] theorem result_pure {a : α} : (pure a : Attempt α).result = .ok a := rfl

@[simp] theorem result_throw {f : Failure} : (throw f : Attempt α).result = .error f := rfl

@[simp] theorem result_mk {y : Logged (Except Failure α)} :
    Attempt.result (ExceptT.mk y) = y.value := rfl

theorem result_lift {y : Logged α} : (liftM y : Attempt α).result = .ok y.value := rfl

end Attempt

-- ---------------------------------------------------------------------------
-- Settings
-- ---------------------------------------------------------------------------

section

variable {given : Option String} {snapshot path : String} {s : Settings}

/-- The file of the settings: the one that is given, or the one beside the
snapshot if there is one. -/
def settingsFile? (files : Files) (given : Option String) (snapshot : String) : Option String :=
  given.or ((some (besideSnapshot snapshot)).filter files.stands)

/-- The settings that apply are those of their file, which have to be valid, and
none without one. -/
inductive Applies (files : Files) (given : Option String) (snapshot : String) : Settings → Prop
  | absent (h : settingsFile? files given snapshot = none) : Applies files given snapshot {}
  | file {path text : String} {s : Settings}
    (hpath : settingsFile? files given snapshot = some path)
    (htext : files.HasText path text) (hread : Settings.read? text = some s) (hvalid : s.Valid) :
    Applies files given snapshot s

theorem result_settings : (settings files given snapshot).result =
    (settingsFile? files given snapshot).elim (.ok {}) fun path =>
      (settingsAt files path).result := by
  cases given with
  | some _ => rfl
  | none =>
    simp only [settings, settingsFile?, Option.none_or, Option.filter_some]
    split
    · rfl
    · rfl

theorem result_settingsAt_eq_ok_iff : (settingsAt files path).result = .ok s ↔
    ∃ text, files.HasText path text ∧ Settings.read? text = some s ∧ s.Valid := by
  simp only [← Files.text_eq_ok_iff, settingsAt, ← Settings.value_load_eq_ok_iff path]
  cases files.text path with
  | error _ => simp
  | ok _ => simp

theorem result_settings_eq_ok_iff :
    (settings files given snapshot).result = .ok s ↔ Applies files given snapshot s := by
  rw [result_settings]
  cases hpath : settingsFile? files given snapshot with
  | none =>
    constructor
    · rintro ⟨⟩
      exact .absent hpath
    · rintro (_ | ⟨hpath', _, _, _⟩)
      · rfl
      · simp [hpath] at hpath'
  | some path =>
    rw [Option.elim_some, result_settingsAt_eq_ok_iff]
    constructor
    · rintro ⟨text, htext, hread, hvalid⟩
      exact .file hpath htext hread hvalid
    · rintro (hpath' | ⟨hpath', htext, hread, hvalid⟩)
      · simp [hpath] at hpath'
      · rw [hpath, Option.some.injEq] at hpath'
        subst hpath'
        exact ⟨_, htext, hread, hvalid⟩

/-- Settings that cannot be read, or are none, fail without a fault. -/
theorem result_settings_of_broken (hpath : settingsFile? files given snapshot = some path)
    (hbroken : ∀ text, files.HasText path text → Settings.read? text = none) :
    ∃ f, (settings files given snapshot).result = .error f ∧ f.fault? = none := by
  rw [result_settings, hpath, Option.elim_some, settingsAt]
  cases htext : files.text path with
  | error reason => exact ⟨_, rfl, rfl⟩
  | ok text =>
    refine ⟨Settings.malformed path, ?_, rfl⟩
    simp [Settings.load, hbroken text (Files.text_eq_ok_iff.mp htext)]

/-- Settings that are not valid fail as an invalid configuration. -/
theorem result_settings_of_invalid (hpath : settingsFile? files given snapshot = some path)
    (htext : files.HasText path text) (hread : Settings.read? text = some s)
    (hinvalid : ¬ s.Valid) :
    ∃ message, (settings files given snapshot).result =
      .error (.fault (.invalidConfiguration message)) := by
  obtain ⟨f, hf⟩ := Option.ne_none_iff_exists'.mp (mt Settings.fault?_eq_none_iff.mp hinvalid)
  obtain ⟨message, rfl⟩ := Settings.exists_message_of_fault? hf
  refine ⟨message, ?_⟩
  rw [result_settings, hpath, Option.elim_some, settingsAt, Files.text_eq_ok_iff.mpr htext]
  simp [Settings.load, hread, hf]

end

-- ---------------------------------------------------------------------------
-- Inputs
-- ---------------------------------------------------------------------------

section

variable {α : Type} {a : α} {path : String} {load : String → String → Logged (Except Fault α)}

/-- The path holds an input with a text that loads. -/
def Loads (files : Files) (path : String) (load : String → String → Logged (Except Fault α))
    (a : α) : Prop :=
  ∃ text, files.Holds path text ∧ (load text path).value = .ok a

theorem result_loadInput_eq_ok_iff :
    (loadInput files path load).result = .ok a ↔ Loads files path load a := by
  simp only [Loads, ← Files.input_eq_ok_iff, loadInput]
  cases files.input path with
  | error _ => simp
  | ok _ => simp [mapError_eq_ok_iff]

end

-- ---------------------------------------------------------------------------
-- Destinations
-- ---------------------------------------------------------------------------

/-- The file of a command that names one takes a text. -/
def Receives (files : Files) (output : Option String) : Prop :=
  ∀ path, output = some path → files.Takes path

/-- Why a text cannot be delivered, if it cannot. -/
def obstacle? (files : Files) (output : Option String) : Option Failure :=
  output.bind fun path =>
    (files.outputObstacle? path).map fun details => .fault (.unwritableFile path details)

theorem obstacle?_eq_none_iff {output : Option String} :
    obstacle? files output = none ↔ Receives files output := by
  cases output with
  | none => simp [obstacle?, Receives]
  | some path => simp [obstacle?, Receives, Files.outputObstacle?_eq_none_iff]

-- ---------------------------------------------------------------------------
-- The stages of both commands
-- ---------------------------------------------------------------------------

def ResolveOptions.stages (o : ResolveOptions) (files : Files) (now : Instant) :
    Stages Catalog where
  settings := (CommandLine.settings files o.settings o.snapshot).result
  refusal? s :=
    if Text.isAllBlank (o.plan s).configuration then some (.fault blankConfiguration) else none
  snapshot := (loadInput files o.snapshot Snapshot.load).result
  input := (loadInput files o.catalog Catalog.load).result
  text s snapshot catalog := do
    let resolved ← (snapshot.resolveProject (.ok catalog.keys) (o.plan s).configuration
      (o.plan s).transitive Cache.empty).value.answer
    return (Report.build resolved (.at now)).render (o.plan s).format
  obstacle? := CommandLine.obstacle? files o.output

def SpecsOptions.stages (o : SpecsOptions) (files : Files) : Stages (List ArtifactSpec) where
  settings := (CommandLine.settings files o.settings o.snapshot).result
  refusal? _ := none
  snapshot := (loadInput files o.snapshot Snapshot.load).result
  input := (loadInput files o.specs loadSpecs).result
  text s snapshot specs := do
    let found ← (resolveSpecs snapshot.registry snapshot.resolver (o.policy s) (some specs)
      Cache.empty).value.answer.mapError .fault
    return Descriptor.renderList found
  obstacle? := CommandLine.obstacle? files o.output

-- ---------------------------------------------------------------------------
-- Products
-- ---------------------------------------------------------------------------

/-- The texts that commands make of what their files hold: the formatted report
of a configuration whose name is not blank, or the list of what was found in
strictly ascending order. -/
inductive Produces (files : Files) (now : Instant) : Command → String → Prop
  | report {o : ResolveOptions} {s : Settings} {snapshot : Snapshot} {catalog : Catalog}
    {resolved : ResolvedProject}
    (hsettings : Applies files o.settings o.snapshot s)
    (hname : Text.Filled (o.plan s).configuration)
    (hsnapshot : Loads files o.snapshot Snapshot.load snapshot)
    (hcatalog : Loads files o.catalog Catalog.load catalog)
    (hresolved : (snapshot.resolveProject (.ok catalog.keys) (o.plan s).configuration
      (o.plan s).transitive Cache.empty).value.answer = .ok resolved) :
    Produces files now (.resolve o) ((Report.build resolved (.at now)).render (o.plan s).format)
  | descriptors {o : SpecsOptions} {s : Settings} {snapshot : Snapshot} {specs : List ArtifactSpec}
    {found ds : List Descriptor} {text : String}
    (hsettings : Applies files o.settings o.snapshot s)
    (hsnapshot : Loads files o.snapshot Snapshot.load snapshot)
    (hspecs : Loads files o.specs loadSpecs specs)
    (hfound : (resolveSpecs snapshot.registry snapshot.resolver (o.policy s) (some specs)
      Cache.empty).value.answer = .ok found)
    (hsame : ∀ d, d ∈ ds ↔ d ∈ found)
    (hascending : ds.Pairwise fun d e => d.identity.Before e.identity)
    (htext : Descriptor.Lists text ds) :
    Produces files now (.specs o) text

theorem makes_resolve_iff {o : ResolveOptions} :
    (o.stages files now).Makes text ↔ Produces files now (.resolve o) text := by
  have hrefusal : ∀ s,
      (o.stages files now).refusal? s = none ↔ Text.Filled (o.plan s).configuration := by
    intro s
    rw [← Text.isAllBlank_eq_false_iff]
    simp [ResolveOptions.stages]
  simp only [Stages.Makes, hrefusal]
  constructor
  · rintro ⟨s, snapshot, catalog, hs, hname, hsnapshot, hcatalog, htext⟩
    obtain ⟨resolved, hresolved, ⟨⟩⟩ := bind_eq_ok_iff.mp htext
    exact .report (result_settings_eq_ok_iff.mp hs) hname (result_loadInput_eq_ok_iff.mp hsnapshot)
      (result_loadInput_eq_ok_iff.mp hcatalog) hresolved
  · rintro ⟨hs, hname, hsnapshot, hcatalog, hresolved⟩
    exact ⟨_, _, _, result_settings_eq_ok_iff.mpr hs, hname,
      result_loadInput_eq_ok_iff.mpr hsnapshot, result_loadInput_eq_ok_iff.mpr hcatalog,
      bind_eq_ok_iff.mpr ⟨_, hresolved, rfl⟩⟩

theorem nodup_of_answer {s : Snapshot} {policy : SpecPolicy} {specs : List ArtifactSpec}
    {found : List Descriptor}
    (h : (resolveSpecs s.registry s.resolver policy (some specs) .empty).value.answer = .ok found) :
    (found.map Descriptor.identity).Nodup := by
  obtain ⟨_, _, rfl⟩ := SpecResolution.answer_eq_ok_iff.mp h
  exact Descriptor.nodup_insertAll (Descriptor.nodup_insertAll .nil)

theorem makes_specs_iff {o : SpecsOptions} :
    (o.stages files).Makes text ↔ Produces files now (.specs o) text := by
  constructor
  · rintro ⟨s, snapshot, specs, hs, _, hsnapshot, hspecs, htext⟩
    obtain ⟨found, hanswer, ⟨⟩⟩ := bind_eq_ok_iff.mp htext
    have hfound := mapError_eq_ok_iff.mp hanswer
    exact .descriptors (result_settings_eq_ok_iff.mp hs) (result_loadInput_eq_ok_iff.mp hsnapshot)
      (result_loadInput_eq_ok_iff.mp hspecs) hfound
      (fun d => (List.mergeSort_perm found Descriptor.notAfter).mem_iff)
      (Descriptor.ascending_sort (nodup_of_answer hfound)) (Descriptor.lists_iff.mpr rfl)
  · rintro (_ | ⟨hs, hsnapshot, hspecs, hfound, hsame, hascending, htext⟩)
    refine ⟨_, _, _, result_settings_eq_ok_iff.mpr hs, rfl,
      result_loadInput_eq_ok_iff.mpr hsnapshot, result_loadInput_eq_ok_iff.mpr hspecs,
      bind_eq_ok_iff.mpr ⟨_, mapError_eq_ok_iff.mpr hfound, ?_⟩⟩
    rw [Descriptor.lists_iff.mp htext,
      Descriptor.eq_sort_of_ascending hascending (nodup_of_answer hfound) hsame]
    rfl

end CommandLine

end ServerFractions
