import ServerFractions.Json.Record
import ServerFractions.Proofs.Json.RoundTrip
import ServerFractions.Report.Json

/-!
# Reports are lossless

`Written.ofValue?` reads a report off its document, field by field and without
looking at how documents are made. What it reads is the report that was written
(`toJson_lossless`), so no two reports share a text.
-/

namespace ServerFractions

namespace Json

variable {names : List String} {name : String} {members : Record}

def Value.asBool? : Value → Option Bool
  | .bool b => some b
  | _ => none

/-- A whole number that is written without sign and exponent. -/
def Value.asNatural? : Value → Option Nat
  | .number ⟨false, n, 0⟩ => some n
  | _ => none

@[simp] theorem Value.asText?_text (s : String) : (Value.text s).asText? = some s := rfl

theorem Record.named?_map :
    named? (members.map fun (name, v) => (some name, v)) = some members := by
  induction members with
  | nil => rfl
  | cons m members ih =>
    rw [named?] at ih
    simp [named?, ih]

/-- A written record is read as its members, when their names are among the
expected ones and in the same order. -/
theorem Record.ofValue?_record (h : (members.map (·.1)).Sublist names) (hnames : names.Nodup) :
    ofValue? names (.record members) = some members := by
  have hknown : members.filter (·.1 ∈ names) = members :=
    List.filter_eq_self.mpr fun m hm => by simpa using h.subset (List.mem_map_of_mem hm)
  simp [ofValue?, Value.record, named?_map, known?, hknown, h.nodup hnames]

theorem Record.lookup_eq_none (h : (members.map (·.1)).Sublist names) (hname : name ∉ names) :
    members.lookup name = none := by
  rw [List.lookup_eq_none_iff]
  intro m hm
  have hfield : m.1 ∈ names := h.subset (List.mem_map_of_mem hm)
  simpa using fun heq : name = m.1 => hname (heq ▸ hfield)

theorem asList?_map {α : Type} {write : α → Value} {read : Value → Option α} {as : List α}
    (h : ∀ a ∈ as, read (write a) = some a) : Value.asList? read (.array (as.map write)) = some as := by
  show (as.map write).mapM read = some as
  induction as with
  | nil => rfl
  | cons a as ih =>
    rw [List.forall_mem_cons] at h
    simp [h.1, ih h.2]

end Json

namespace Report

open Json (Record Value)

-- ---------------------------------------------------------------------------
-- Reading
-- ---------------------------------------------------------------------------

namespace Dependency

def fields : List String :=
  ["group", "artifact", "version", "scope", "type", "classifier", "file"]

def ofRecord? (r : Record) : Option Dependency := do
  return { group := ← r.required "group" Value.asText?
           artifact := ← r.required "artifact" Value.asText?
           version := ← r.required "version" Value.asText?
           scope := ← r.required "scope" Value.asText?
           type := ← r.required "type" Value.asText?
           classifier := ← r.optional "classifier" Value.asText?
           file := ← r.optional "file" Value.asText? }

def ofValue? (v : Value) : Option Dependency :=
  Record.ofValue? fields v >>= ofRecord?

end Dependency

/-- An entry is written with the fields of its dependency. -/
def Entry.ofValue? (v : Value) : Option Entry := do
  let r ← Record.ofValue? (Dependency.fields ++ ["fraction", "project", "dependsOn"]) v
  return { dependency := ← Dependency.ofRecord? r
           fraction := ← r.required "fraction" Value.asBool?
           project := ← r.required "project" Value.asBool?
           children := ← r.withDefault "dependsOn" [] (Value.asList? Dependency.ofValue?) }

def tool? (v : Value) : Option (String × String) := do
  let r ← Record.ofValue? ["name", "version"] v
  return (← r.required "name" Value.asText?, ← r.required "version" Value.asText?)

/-- The metadata name one tool. -/
def Metadata.ofValue? (v : Value) : Option Metadata := do
  let r ← Record.ofValue? ["timestamp", "tools"] v
  match ← r.required "tools" (Value.asList? tool?) with
  | [(toolName, toolVersion)] =>
    return { timestamp := ← r.required "timestamp" Value.asText?, toolName, toolVersion }
  | _ => none

/-- What a document says: a report, and the two numbers of its summary. -/
structure Written where
  report : Report
  topLevel : Nat
  fractions : Nat
  deriving DecidableEq, Repr

def summary? (v : Value) : Option (Nat × Nat) := do
  let r ← Record.ofValue? ["topLevel", "fractions"] v
  return (← r.required "topLevel" Value.asNatural?, ← r.required "fractions" Value.asNatural?)

def Written.ofValue? (v : Value) : Option Written := do
  let r ← Record.ofValue? ["configuration", "metadata", "summary", "dependencies"] v
  let (topLevel, fractions) ← r.required "summary" summary?
  return { report := { metadata := ← r.required "metadata" Metadata.ofValue?
                       configuration := ← r.required "configuration" Value.asText?
                       entries := ← r.required "dependencies" (Value.asList? Entry.ofValue?) }
           topLevel, fractions }

-- ---------------------------------------------------------------------------
-- What was written is read
-- ---------------------------------------------------------------------------

variable {name : String} {value? : Option String} {extra : Record}

theorem sublist_optionalMember : ((optionalMember name value?).map (·.1)).Sublist [name] := by
  cases value? with
  | none => exact List.nil_sublist _
  | some s => exact .refl _

theorem Dependency.sublist_members (d : Dependency) : (d.members.map (·.1)).Sublist fields := by
  simp only [members, List.map_append]
  exact (((List.Sublist.refl _).append sublist_optionalMember).append sublist_optionalMember)

theorem Dependency.ofRecord?_members (d : Dependency) (hclassifier : extra.lookup "classifier" = none)
    (hfile : extra.lookup "file" = none) : ofRecord? (d.members ++ extra) = some d := by
  obtain ⟨group, artifact, version, scope, type, classifier, file⟩ := d
  cases classifier <;> cases file <;>
    simp [ofRecord?, members, optionalMember, Record.required, Record.optional, Value.text,
      Value.asText?, List.lookup_cons, hclassifier, hfile]

theorem Dependency.ofValue?_members (d : Dependency) : ofValue? (.record d.members) = some d := by
  have hread : ofRecord? (d.members ++ []) = some d := d.ofRecord?_members rfl rfl
  rw [ofValue?, Record.ofValue?_record d.sublist_members (by decide)]
  rwa [List.append_nil] at hread

theorem Dependency.lookup_append (d : Dependency) (h : name ∉ fields) :
    (d.members ++ extra).lookup name = extra.lookup name := by
  rw [List.lookup_append, Record.lookup_eq_none d.sublist_members h, Option.none_or]

theorem Entry.sublist_childMembers (e : Entry) :
    (e.childMembers.map (·.1)).Sublist ["dependsOn"] := by
  unfold childMembers
  split
  · exact List.nil_sublist _
  · exact .refl _

theorem Entry.withDefault_childMembers (e : Entry) :
    Record.withDefault e.childMembers "dependsOn" [] (Value.asList? Dependency.ofValue?) =
      some e.children := by
  cases hchildren : e.children with
  | nil => simp [childMembers, hchildren, Record.withDefault]
  | cons d ds =>
    have hlist : Value.asList? Dependency.ofValue? (.array ((d :: ds).map (.record ·.members))) =
        some (d :: ds) := Json.asList?_map fun d _ => d.ofValue?_members
    simpa [childMembers, hchildren, Record.withDefault] using hlist

/-- The members that an entry has besides those of its dependency. -/
def Entry.ownMembers (e : Entry) : Record :=
  ("fraction", .bool e.fraction) :: ("project", .bool e.project) :: e.childMembers

theorem Entry.toValue_eq (e : Entry) : e.toValue = .record (e.dependency.members ++ e.ownMembers) := by
  simp [toValue, ownMembers]

theorem Entry.sublist_ownMembers (e : Entry) :
    (e.ownMembers.map (·.1)).Sublist ["fraction", "project", "dependsOn"] :=
  (e.sublist_childMembers.cons_cons _).cons_cons _

theorem Entry.ofValue?_toValue (e : Entry) : ofValue? e.toValue = some e := by
  have hdependency : Dependency.ofRecord? (e.dependency.members ++ e.ownMembers) =
      some e.dependency := by
    apply Dependency.ofRecord?_members
    · exact Record.lookup_eq_none e.sublist_ownMembers (by decide)
    · exact Record.lookup_eq_none e.sublist_ownMembers (by decide)
  have hchildren := e.withDefault_childMembers
  rw [ofValue?, toValue_eq, Record.ofValue?_record]
  · simp only [Option.bind_eq_bind, Option.bind_some, hdependency, Record.required, Record.withDefault,
      e.dependency.lookup_append (show "fraction" ∉ Dependency.fields by decide),
      e.dependency.lookup_append (show "project" ∉ Dependency.fields by decide),
      e.dependency.lookup_append (show "dependsOn" ∉ Dependency.fields by decide)] at hchildren ⊢
    simp [ownMembers, List.lookup_cons, Value.asBool?, hchildren]
  · rw [List.map_append]
    exact e.dependency.sublist_members.append e.sublist_ownMembers
  · decide

theorem tool?_record {toolName toolVersion : String} :
    tool? (.record [("name", .text toolName), ("version", .text toolVersion)]) =
      some (toolName, toolVersion) := by
  rw [tool?, Record.ofValue?_record]
  · rfl
  · exact .refl _
  · decide

theorem Metadata.ofValue?_toValue (m : Metadata) : ofValue? m.toValue = some m := by
  have htools : Value.asList? tool? (.array [.record [("name", .text m.toolName),
      ("version", .text m.toolVersion)]]) = some [(m.toolName, m.toolVersion)] := by
    simp [Value.asList?, tool?_record]
  rw [ofValue?, toValue, Record.ofValue?_record]
  · simp [Record.required, List.lookup_cons, htools]
  · exact .refl _
  · decide

theorem summary?_record {topLevel fractions : Nat} :
    summary? (.record [("topLevel", .natural topLevel), ("fractions", .natural fractions)]) =
      some (topLevel, fractions) := by
  rw [summary?, Record.ofValue?_record]
  · rfl
  · exact .refl _
  · decide

theorem Written.ofValue?_toValue (r : Report) :
    ofValue? r.toValue = some ⟨r, r.entries.length, r.fractionCount⟩ := by
  have hentries : Value.asList? Entry.ofValue? (.array (r.entries.map (·.toValue))) = some r.entries :=
    Json.asList?_map fun e _ => e.ofValue?_toValue
  rw [ofValue?, toValue, Record.ofValue?_record]
  · simp [Record.required, List.lookup_cons, summary?_record, Metadata.ofValue?_toValue, hentries]
  · exact .refl _
  · decide

/-- The text of a report is a document, everything of the report and its two
numbers can be read off it, and no other report has the same text. -/
theorem toJson_lossless (r : Report) :
    (∃ document, Json.read? r.toJson = some document ∧ Written.ofValue? document =
      some ⟨r, r.entries.length, (r.entries.filter (·.fraction)).length⟩) ∧
    ∀ r' : Report, r'.toJson = r.toJson → r' = r := by
  have hread : ∀ r : Report, (Json.read? r.toJson).bind Written.ofValue? =
      some ⟨r, r.entries.length, r.fractionCount⟩ := by
    intro r
    rw [toJson, Json.read?_render, Option.bind_some, Written.ofValue?_toValue]
  refine ⟨⟨r.toValue, Json.read?_render, ?_⟩, fun r' heq => ?_⟩
  · rw [Written.ofValue?_toValue, fractionCount, List.countP_eq_length_filter]
  · have hsame := hread r'
    rw [heq, hread r] at hsame
    exact (congrArg Written.report (Option.some.inj hsame)).symm

/-- A classifier without characters, and text that has to be escaped. -/
def awkward (classifier : Option String) : Report where
  metadata := ⟨"2024-05-04T10:00:00+00:00", "\"fraction\"\\resolver", "0.4\x00"⟩
  configuration := "läuft\n🚀\t"
  entries := [
    { dependency := { group := "io.thorntail", artifact := "jaxrs", version := "2", scope := "compile",
                      type := "jar", classifier },
      fraction := true, project := false,
      children := [{ group := "", artifact := "json", version := "", scope := "compile", type := "jar",
                     file := some "" }] },
    { dependency := { group := "org.acme", artifact := "app\x1f", version := "1", scope := "test",
                      type := "war" },
      fraction := false, project := true }]

theorem awkward_lossless : (∃ document, Json.read? (awkward (some "")).toJson = some document ∧
    Written.ofValue? document = some ⟨awkward (some ""), 2, 1⟩) ∧
    (awkward none).toJson ≠ (awkward (some "")).toJson := by
  obtain ⟨hread, hunique⟩ := toJson_lossless (awkward (some ""))
  have hne : awkward none ≠ awkward (some "") := by decide
  exact ⟨hread, fun hsame => hne (hunique _ hsame)⟩

end Report

end ServerFractions
