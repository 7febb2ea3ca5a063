import Mathlib.Data.List.Infix
import ServerFractions.Proofs.Graph.Builder

/-!
# Builders and the calls made on them

A builder answers some calls with a node, and later calls may use the nodes it
gave out. However many calls were made, what the builder holds can be told from
the list of them (`Proper.tracks`): the artifacts that came first with each
coordinates, the edges and the first level in the order of their first
insertion. Nodes that were given out stand for what they were given out for.
-/

namespace ServerFractions.Graph.Builder

inductive Call where
  | addModule (c : Coordinates) (artifacts : List Artifact)
  | addChild (parent child : Node)
  | addFirstLevel (n : Node)
  | node (c : Coordinates)
  deriving DecidableEq

/-- The answer to a call, and the builder after it. -/
def call (b : Builder) : Call → Option Node × Builder
  | .addModule c as => (some (b.addModule c as).1, (b.addModule c as).2)
  | .addChild parent child => (none, b.addChild parent child)
  | .addFirstLevel n => (none, b.addFirstLevel n)
  | .node c => (b.node? c, b)

def after (calls : List Call) : Builder :=
  calls.foldl (fun b call => (b.call call).2) .empty

/-- The coordinates whose node a call answers with. -/
def Call.asks? : Call → Option Coordinates
  | .addModule c _ => some c
  | .addChild _ _ => none
  | .addFirstLevel _ => none
  | .node c => some c

/-- The nodes that a call hands to the builder. -/
def Call.uses : Call → List Node
  | .addModule _ _ => []
  | .addChild parent child => [parent, child]
  | .addFirstLevel n => [n]
  | .node _ => []

/-- One of the calls asked for the coordinates and was answered with the node. -/
def Given (calls : List Call) (c : Coordinates) (n : Node) : Prop :=
  ∃ before call, before ++ [call] <+: calls ∧ call.asks? = some c ∧
    ((after before).call call).1 = some n

/-- Only nodes are used that the builder gave before. -/
inductive Proper : List Call → Prop
  | nil : Proper []
  | concat {calls : List Call} {call : Call} (h : Proper calls)
    (huses : ∀ n ∈ call.uses, ∃ c, Given calls c n) : Proper (calls ++ [call])

-- ---------------------------------------------------------------------------
-- What the calls say
-- ---------------------------------------------------------------------------

def Call.artifacts? (c : Coordinates) : Call → Option (List Artifact)
  | .addModule c' as => if c' = c then some as else none
  | .addChild _ _ => none
  | .addFirstLevel _ => none
  | .node _ => none

def Call.child? (parent : Node) : Call → Option Node
  | .addModule _ _ => none
  | .addChild parent' child => if parent' = parent then some child else none
  | .addFirstLevel _ => none
  | .node _ => none

def Call.root? : Call → Option Node
  | .addModule _ _ => none
  | .addChild _ _ => none
  | .addFirstLevel n => some n
  | .node _ => none

/-- What came with the coordinates when they were added first. -/
def firstArtifacts? (calls : List Call) (c : Coordinates) : Option (List Artifact) :=
  calls.findSome? (·.artifacts? c)

/-- The children that were added to a node, in order and with repetitions. -/
def childrenAdded (calls : List Call) (parent : Node) : List Node :=
  calls.filterMap (·.child? parent)

def rootsAdded (calls : List Call) : List Node :=
  calls.filterMap (·.root?)

variable {b : Builder} {calls : List Call} {call : Call} {c c' : Coordinates}
  {as : List Artifact} {n parent child : Node}

theorem firstArtifacts?_isSome_iff :
    (∃ as, firstArtifacts? calls c = some as) ↔ ∃ as, .addModule c as ∈ calls := by
  rw [← Option.isSome_iff_exists, firstArtifacts?, List.findSome?_isSome_iff]
  constructor
  · rintro ⟨call, hcall, has⟩
    cases call with
    | addModule c' as =>
      obtain ⟨rfl⟩ : c' = c := by simpa [Call.artifacts?] using has
      exact ⟨as, hcall⟩
    | _ => simp [Call.artifacts?] at has
  · rintro ⟨as, has⟩
    exact ⟨_, has, by simp [Call.artifacts?]⟩

theorem firstArtifacts?_concat : firstArtifacts? (calls ++ [call]) c =
    (firstArtifacts? calls c).or (call.artifacts? c) := by
  simp [firstArtifacts?, List.findSome?_append]

theorem childrenAdded_concat : childrenAdded (calls ++ [call]) n =
    childrenAdded calls n ++ (call.child? n).toList := by
  cases hchild : call.child? n <;> simp [childrenAdded, hchild]

theorem rootsAdded_concat : rootsAdded (calls ++ [call]) =
    rootsAdded calls ++ call.root?.toList := by
  cases hroot : call.root? <;> simp [rootsAdded, hroot]

-- ---------------------------------------------------------------------------
-- One call
-- ---------------------------------------------------------------------------

theorem after_concat : after (calls ++ [call]) = ((after calls).call call).2 := by
  simp [after]

theorem given_concat : Given (calls ++ [call]) c n ↔
    Given calls c n ∨ call.asks? = some c ∧ ((after calls).call call).1 = some n := by
  constructor
  · rintro ⟨before, call', hpre, hasks, hanswer⟩
    rcases List.prefix_concat_iff.mp hpre with heq | hpre
    · obtain ⟨rfl, rfl⟩ := List.append_singleton_inj.mp heq
      exact .inr ⟨hasks, hanswer⟩
    · exact .inl ⟨before, call', hpre, hasks, hanswer⟩
  · rintro (⟨before, call', hpre, hasks, hanswer⟩ | ⟨hasks, hanswer⟩)
    · exact ⟨before, call', hpre.trans (List.prefix_append _ _), hasks, hanswer⟩
    · exact ⟨calls, call, List.prefix_rfl, hasks, hanswer⟩

/-- The artifacts that the builder holds for coordinates. -/
def artifacts? (b : Builder) (c : Coordinates) : Option (List Artifact) :=
  (b.node? c).bind fun n => (b.build.module? n).map (·.artifacts)

theorem Consistent.node?_eq_some_iff (h : b.Consistent) :
    b.node? c = some n ↔ ∃ m, b.build.module? n = some m ∧ m.coordinates = c :=
  h.index_iff

theorem Consistent.lt_of_node? (h : b.Consistent) (hn : b.node? c = some n) :
    n < b.modules.size := by
  obtain ⟨m, hm, _⟩ := h.index_iff.mp hn
  exact (Array.getElem?_eq_some_iff.mp hm).1

theorem Consistent.find?_build (h : b.Consistent) : b.build.find? c = b.node? c := by
  cases hfind : b.build.find? c with
  | none =>
    refine (h.node?_eq_none fun m hm hc => ?_).symm
    have hall := Array.findIdx?_eq_none_iff.mp hfind
    simpa [hc] using hall m hm
  | some n =>
    obtain ⟨hn, hc, _⟩ := Array.findIdx?_eq_some_iff_getElem.mp hfind
    exact (h.index_iff.mpr ⟨_, Array.getElem?_eq_getElem hn, by simpa using hc⟩).symm

theorem Consistent.artifacts?_eq_none_iff (h : b.Consistent) :
    b.artifacts? c = none ↔ b.node? c = none := by
  cases hn : b.node? c with
  | none => simp [artifacts?, hn]
  | some n =>
    obtain ⟨m, hm, _⟩ := h.node?_eq_some_iff.mp hn
    simp [artifacts?, hn, hm]

/-- The node of the coordinates that are added is the one answered with; those
of all others stay. -/
theorem node?_addModule : (b.addModule c as).2.node? c' =
    if c = c' then some (b.addModule c as).1 else b.node? c' := by
  unfold addModule
  split
  · rename_i n hn
    split
    · rename_i hc
      rw [← hc, hn]
    · rfl
  · simp [node?, Std.HashMap.getElem?_insert]

/-- Artifacts that came before win. -/
theorem Consistent.artifacts?_addModule (h : b.Consistent) : (b.addModule c as).2.artifacts? c' =
    (b.artifacts? c').or (if c = c' then some as else none) := by
  cases hn : b.node? c with
  | some n =>
    have hsame : (b.addModule c as).2 = b := by simp [Builder.addModule, hn]
    rw [hsame]
    split
    · rename_i hc
      subst hc
      have hsome : b.artifacts? c ≠ none := by simp [h.artifacts?_eq_none_iff, hn]
      obtain ⟨as', has'⟩ := Option.ne_none_iff_exists'.mp hsome
      rw [has', Option.some_or]
    · rw [Option.or_none]
  | none =>
    have hnew : (b.addModule c as).1 = b.modules.size := by simp [Builder.addModule, hn]
    have hmodules : (b.addModule c as).2.modules =
        b.modules.push { coordinates := c, artifacts := as } := by simp [Builder.addModule, hn]
    rw [artifacts?, node?_addModule, hnew]
    split
    · rename_i hc
      subst hc
      rw [h.artifacts?_eq_none_iff.mpr hn]
      simp [build, module?, hmodules]
    · rw [Option.or_none, artifacts?]
      refine Option.bind_congr fun n hn' => ?_
      have hlt := h.lt_of_node? hn'
      simp [build, module?, hmodules, Array.getElem?_push, hlt.ne]

theorem children_addModule :
    (b.addModule c as).2.build.children n = b.build.children n := by
  unfold addModule
  split
  · rfl
  · by_cases hn : n = b.modules.size
    · simp [build, children, module?, hn]
    · simp [build, children, module?, Array.getElem?_push, hn]

theorem firstLevel_addModule : (b.addModule c as).2.firstLevel = b.firstLevel := by
  unfold addModule
  split <;> rfl

theorem artifacts?_addChild : (b.addChild parent child).artifacts? c = b.artifacts? c := by
  simp only [artifacts?, build, module?, addChild, Array.getElem?_modify, node?]
  congr 1
  funext n
  split <;> simp [Function.comp_def]

theorem children_addChild (hparent : parent < b.modules.size) :
    (b.addChild parent child).build.children n =
      if parent = n then appendNew child (b.build.children n) else b.build.children n := by
  simp only [build, children, module?, addChild, Array.getElem?_modify]
  split
  · rename_i heq
    subst heq
    simp [hparent]
  · rfl

-- ---------------------------------------------------------------------------
-- Any call
-- ---------------------------------------------------------------------------

theorem made_call (h : b.Made) (huses : ∀ k ∈ call.uses, k < b.modules.size) :
    (b.call call).2.Made := by
  cases call with
  | addModule c as => exact h.addModule c as
  | addChild parent child =>
    exact h.addChild (huses parent (by simp [Call.uses])) (huses child (by simp [Call.uses]))
  | addFirstLevel n => exact h.addFirstLevel (huses n (by simp [Call.uses]))
  | node c => exact h

theorem node?_call_of_some (hn : b.node? c = some n) : (b.call call).2.node? c = some n := by
  cases call with
  | addModule c' as =>
    refine node?_addModule.trans ?_
    split
    · rename_i hc
      subst hc
      simp [addModule, hn]
    · exact hn
  | _ => exact hn

theorem node?_call_of_answer (hasks : call.asks? = some c) (hanswer : (b.call call).1 = some n) :
    (b.call call).2.node? c = some n := by
  cases call with
  | addModule c' as =>
    cases hasks
    exact node?_addModule.trans ((if_pos rfl).trans hanswer)
  | node c' =>
    cases hasks
    exact hanswer
  | _ => cases hasks

theorem Consistent.artifacts?_call (h : b.Consistent) :
    (b.call call).2.artifacts? c = (b.artifacts? c).or (call.artifacts? c) := by
  cases call with
  | addModule c' as => exact h.artifacts?_addModule
  | addChild parent child => exact artifacts?_addChild.trans (Option.or_none).symm
  | _ => exact (Option.or_none).symm

theorem children_call (huses : ∀ k ∈ call.uses, k < b.modules.size) :
    (b.call call).2.build.children n =
      (call.child? n).elim (b.build.children n) (appendNew · (b.build.children n)) := by
  cases call with
  | addModule c as => exact children_addModule
  | addChild parent child =>
    refine (children_addChild (huses parent (by simp [Call.uses]))).trans ?_
    by_cases hn : parent = n <;> simp [Call.child?, hn]
  | _ => rfl

theorem firstLevel_call : (b.call call).2.firstLevel =
    call.root?.elim b.firstLevel (appendNew · b.firstLevel) := by
  cases call with
  | addModule c as => exact firstLevel_addModule
  | _ => rfl

-- ---------------------------------------------------------------------------
-- All calls
-- ---------------------------------------------------------------------------

/-- What the builder holds after the calls, as the calls tell it. -/
structure Tracks (calls : List Call) : Prop where
  made : (after calls).Made
  given : ∀ {c n}, Given calls c n → (after calls).node? c = some n
  artifacts : ∀ c, (after calls).artifacts? c = firstArtifacts? calls c
  children : ∀ n, (after calls).build.children n = (childrenAdded calls n).eraseDups
  firstLevel : (after calls).firstLevel = (rootsAdded calls).eraseDups

theorem Tracks.nil : Tracks [] where
  made := .empty
  given := by
    rintro c n ⟨before, call, hpre, _⟩
    simp at hpre
  artifacts c := by simp [after, artifacts?, node?, empty, firstArtifacts?]
  children n := rfl
  firstLevel := rfl

theorem Tracks.lt_of_given (h : Tracks calls) (hn : Given calls c n) :
    n < (after calls).modules.size :=
  h.made.consistent.lt_of_node? (h.given hn)

theorem Tracks.concat (h : Tracks calls) (huses : ∀ n ∈ call.uses, ∃ c, Given calls c n) :
    Tracks (calls ++ [call]) := by
  have hlt : ∀ n ∈ call.uses, n < (after calls).modules.size := by
    intro n hn
    obtain ⟨c, hc⟩ := huses n hn
    exact h.lt_of_given hc
  constructor
  case made =>
    rw [after_concat]
    exact made_call h.made hlt
  case given =>
    intro c n hn
    rw [after_concat]
    rcases given_concat.mp hn with hn | ⟨hasks, hanswer⟩
    · exact node?_call_of_some (h.given hn)
    · exact node?_call_of_answer hasks hanswer
  case artifacts =>
    intro c
    rw [after_concat, h.made.consistent.artifacts?_call, h.artifacts, firstArtifacts?_concat]
  case children =>
    intro n
    rw [after_concat, children_call hlt, h.children, childrenAdded_concat, eraseDups_append_toList]
  case firstLevel =>
    rw [after_concat, firstLevel_call, h.firstLevel, rootsAdded_concat, eraseDups_append_toList]

theorem Proper.tracks (h : Proper calls) : Tracks calls := by
  induction h with
  | nil => exact .nil
  | concat _ huses ih => exact ih.concat huses

-- ---------------------------------------------------------------------------
-- What can be told from the calls
-- ---------------------------------------------------------------------------

theorem Given.mono {calls' : List Call} (h : Given calls c n) (hpre : calls <+: calls') :
    Given calls' c n := by
  obtain ⟨before, call, hbefore, hanswer⟩ := h
  exact ⟨before, call, hbefore.trans hpre, hanswer⟩

theorem Proper.of_prefix {done : List Call} (h : Proper calls) (hpre : done <+: calls) :
    Proper done := by
  induction h with
  | nil =>
    rw [List.prefix_nil.mp hpre]
    exact .nil
  | concat h huses ih =>
    rcases List.prefix_concat_iff.mp hpre with rfl | hpre
    · exact h.concat huses
    · exact ih hpre

/-- Calls that use nodes given before them may follow in any order. -/
theorem Proper.append {more : List Call} (h : Proper calls)
    (huses : ∀ call ∈ more, ∀ n ∈ call.uses, ∃ c, Given calls c n) : Proper (calls ++ more) := by
  induction more using List.reverseRecOn with
  | nil => simpa using h
  | append_singleton more call ih =>
    rw [← List.append_assoc]
    refine (ih fun call' hcall' => huses call' (by simp [hcall'])).concat fun n hn => ?_
    obtain ⟨c, hc⟩ := huses call (by simp) n hn
    exact ⟨c, hc.mono (List.prefix_append _ _)⟩

theorem Consistent.names_children (h : b.Consistent) :
    Names b.build.size (b.build.children n) := by
  unfold Graph.children
  cases hm : b.build.module? n with
  | none => exact .nil
  | some m => exact h.children hm

/-- A builder and the graph it would build hold what the calls say and nothing
else. A node that was given out stands for the coordinates it was asked for,
with the artifacts that came with them first. -/
structure Reflects (calls : List Call) (b : Builder) : Prop where
  coordinates : (b.build.modules.toList.map (·.coordinates)).Nodup
  node : ∀ c, (∃ n, b.node? c = some n) ↔ ∃ as, .addModule c as ∈ calls
  find : ∀ c, b.build.find? c = b.node? c
  given : ∀ c n, Given calls c n → b.node? c = some n ∧ ∃ m, b.build.module? n = some m ∧
    m.coordinates = c ∧ firstArtifacts? calls c = some m.artifacts
  children : ∀ n, b.build.children n = (childrenAdded calls n).eraseDups ∧
    Names b.build.size (b.build.children n)
  firstLevel : b.build.firstLevel = (rootsAdded calls).eraseDups ∧
    Names b.build.size b.build.firstLevel

theorem Tracks.node_iff (h : Tracks calls) :
    (∃ n, (after calls).node? c = some n) ↔ ∃ as, .addModule c as ∈ calls := by
  have hnone := h.made.consistent.artifacts?_eq_none_iff (c := c)
  rw [← firstArtifacts?_isSome_iff, ← h.artifacts, ← Option.ne_none_iff_exists',
    ← Option.ne_none_iff_exists']
  exact not_congr hnone.symm

theorem Tracks.module_of_given (h : Tracks calls) (hn : Given calls c n) :
    ∃ m, (after calls).build.module? n = some m ∧ m.coordinates = c ∧
      firstArtifacts? calls c = some m.artifacts := by
  have hnode := h.given hn
  obtain ⟨m, hm, hc⟩ := h.made.consistent.node?_eq_some_iff.mp hnode
  exact ⟨m, hm, hc, by simp [← h.artifacts, artifacts?, hnode, hm]⟩

/-- This holds at every point of a history of calls, and of the graph that is
built there. -/
theorem reflects_of_proper {done : List Call} (h : Proper calls) (hdone : done <+: calls) :
    Reflects done (after done) := by
  have htracks := (h.of_prefix hdone).tracks
  have hconsistent := htracks.made.consistent
  constructor
  case coordinates => exact (wellFormed_iff.mp hconsistent.wellFormed).1
  case node => exact fun c => htracks.node_iff
  case find => exact fun c => hconsistent.find?_build
  case given => exact fun c n hn => ⟨htracks.given hn, htracks.module_of_given hn⟩
  case children => exact fun n => ⟨htracks.children n, hconsistent.names_children⟩
  case firstLevel => exact ⟨htracks.firstLevel, hconsistent.firstLevel⟩

def acme (name : String) : Coordinates :=
  ⟨"org.acme", name, "1"⟩

def loopedModules : List Call :=
  [.addModule (acme "app") [{}], .addModule (acme "lib") [], .addModule (acme "app") [],
    .node (acme "app")]

def loopedEdges : List Call :=
  [.addChild 0 1, .addChild 0 0, .addChild 0 1, .addFirstLevel 1, .addFirstLevel 0,
    .addFirstLevel 1]

/-- A module that is added again with other artifacts, and its own child. -/
def looped : List Call :=
  loopedModules ++ loopedEdges

theorem looped_reflects : Proper looped ∧ ∃ m, (after looped).build.module? 0 = some m ∧
    m.coordinates = acme "app" ∧ m.artifacts = [{}] ∧
    (after looped).build.find? (acme "app") = some 0 ∧
    (after looped).build.children 0 = [1, 0] ∧ (after looped).build.firstLevel = [1, 0] := by
  have happ : Given loopedModules (acme "app") 0 :=
    ⟨[], .addModule (acme "app") [{}], by decide, rfl, by
      simp [after, Builder.call, Builder.addModule, node?, Builder.empty]⟩
  have hlib : Given loopedModules (acme "lib") 1 :=
    ⟨[.addModule (acme "app") [{}]], .addModule (acme "lib") [], by decide, rfl, by
      simp [after, Builder.call, Builder.addModule, node?, Builder.empty, acme]⟩
  have hgiven : ∀ n ∈ [0, 1], ∃ c, Given loopedModules c n := by
    simp only [List.forall_mem_cons]
    exact ⟨⟨_, happ⟩, ⟨_, hlib⟩, by simp⟩
  have hmodules : Proper loopedModules := Proper.nil.append (by simp [Call.uses])
  have huses : ∀ call ∈ loopedEdges, ∀ n ∈ call.uses, n ∈ [0, 1] := by decide
  have hproper : Proper looped :=
    hmodules.append fun call hcall n hn => hgiven n (huses call hcall n hn)
  have h := reflects_of_proper hproper List.prefix_rfl
  obtain ⟨hnode, m, hm, hc, has⟩ := h.given _ _ (happ.mono (List.prefix_append _ _))
  have hfirst : firstArtifacts? looped (acme "app") = some [{}] := by decide
  have hchildren : (childrenAdded looped 0).eraseDups = [1, 0] := by decide
  have hroots : (rootsAdded looped).eraseDups = [1, 0] := by decide
  exact ⟨hproper, m, hm, hc, Option.some.inj (has.symm.trans hfirst), (h.find _).trans hnode,
    (h.children 0).1.trans hchildren, h.firstLevel.1.trans hroots⟩

end ServerFractions.Graph.Builder
