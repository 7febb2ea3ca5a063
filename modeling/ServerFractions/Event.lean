import ServerFractions.TopLevel

/-!
# Events

What the library reports about its work besides its answers: one constructor
per kind of event, with its severity and its wording. `Logged` is an answer
together with the events on the way to it, the earliest first.
-/

namespace ServerFractions

/-- The severities of events, the most severe first. -/
inductive Level where
  | warn
  | info
  | debug
  deriving DecidableEq, Repr, Inhabited

namespace Level

def name : Level → String
  | .warn => "WARN"
  | .info => "INFO"
  | .debug => "DEBUG"

/-- Whether an event of level `l` passes a filter that is set to `threshold`. -/
def passes (l threshold : Level) : Bool :=
  match threshold with
  | .warn => l == .warn
  | .info => l != .debug
  | .debug => true

end Level

/-- The most edges between a first-level dependency and what is nested below
it, plus one. -/
def depthLimit : Nat := 256

inductive Event where
  | loadedSnapshot (rootProject : String) (modules configurations : Nat)
  | loadedCatalog (fractions : Nat) (source : String)
  | selfExtension (configuration through : String)
  | skipped (key : ModuleKey) (scope : Scope) (artifacts : Nat)
  | promoted (fraction : Descriptor)
  | truncated (root : Descriptor)
  | alreadyTopLevel (module : Coordinates)
  | resolved (result : TopLevel)
  | missingConfiguration (name : String)
  | silentBuild (name : String)
  | suppliedByRuntime (gav : String)
  | batched (requests : Nat)
  | absentSpecs
  | unknownSetting (field : String)
  deriving DecidableEq, Repr

namespace Event

def level : Event → Level
  | .selfExtension .. | .truncated _ | .missingConfiguration _ | .absentSpecs
  | .unknownSetting _ => .warn
  | .resolved _ => .info
  | .loadedSnapshot .. | .loadedCatalog .. | .skipped .. | .promoted _ | .alreadyTopLevel _
  | .silentBuild _ | .suppliedByRuntime _ | .batched _ => .debug

/-- One line per entry of a result, its children below it behind a tab. -/
def renderResult (result : TopLevel) : String :=
  result.sorted.foldl (fun text e =>
    e.children.foldl (fun text d => text ++ "\n\t" ++ d.render) (text ++ "\n" ++ e.key.render))
    "Resolved dependencies:"

def message : Event → String
  | .loadedSnapshot root modules configurations =>
    s!"Loaded snapshot of '{root}': {modules} module(s), {configurations} configuration(s)"
  | .loadedCatalog fractions source => s!"Loaded {fractions} fraction(s) from {source}"
  | .selfExtension configuration through =>
    s!"Configuration '{configuration}' extends itself through '{through}'"
  | .skipped key scope artifacts =>
    s!"Skipping {key.text} (scope: {scope.name}, artifacts: {artifacts})"
  | .promoted fraction => s!"Promoting fraction {fraction.render} to top level"
  | .truncated root =>
    s!"Maximum traversal depth ({depthLimit}) reached below {root.render}. " ++
      "Dependency chain may be truncated."
  | .alreadyTopLevel module => s!"{module.gav} is already a top-level entry"
  | .resolved result => renderResult result
  | .missingConfiguration name =>
    s!"Unable to find configuration '{name}'; no dependencies resolved"
  | .silentBuild name => s!"Included build '{name}' does not report its modules; skipping"
  | .suppliedByRuntime gav => s!"Skipping {gav}; supplied by the runtime"
  | .batched requests => s!"Resolving {requests} artifact spec(s) in one batch"
  | .absentSpecs => "Artifact specification collection is absent"
  | .unknownSetting field => s!"Unknown config field '{field}' will be ignored"

/-- The line that a log at `threshold` holds for the event, if any. -/
def line? (threshold : Level) (e : Event) : Option String :=
  if e.level.passes threshold then some (e.level.name ++ " " ++ e.message) else none

end Event

-- ---------------------------------------------------------------------------
-- Answers with events
-- ---------------------------------------------------------------------------

/-- An answer and the events on the way to it, the earliest first. -/
structure Logged (α : Type) where
  value : α
  events : List Event := []
  deriving DecidableEq, Repr

namespace Logged

/-- One event and no answer. -/
def report (e : Event) : Logged Unit := ⟨(), [e]⟩

def reportAll (es : List Event) : Logged Unit := ⟨(), es⟩

def bind {α β : Type} (x : Logged α) (f : α → Logged β) : Logged β :=
  ⟨(f x.value).value, x.events ++ (f x.value).events⟩

instance : Monad Logged where
  pure a := ⟨a, []⟩
  bind := Logged.bind

variable {α β : Type}

@[simp] theorem value_pure (a : α) : (pure a : Logged α).value = a := rfl

@[simp] theorem events_pure (a : α) : (pure a : Logged α).events = [] := rfl

@[simp] theorem value_bind (x : Logged α) (f : α → Logged β) :
    (x >>= f).value = (f x.value).value := rfl

@[simp] theorem events_bind (x : Logged α) (f : α → Logged β) :
    (x >>= f).events = x.events ++ (f x.value).events := rfl

end Logged

end ServerFractions
