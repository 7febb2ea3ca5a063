import ServerFractions.Proofs.Promotion.Subtree
import ServerFractions.Proofs.TopLevel

/-!
# One walk

What the walk from one first-level dependency adds to the entries that were
there before it (`Inv.visit`). The entries grow during the walk and the walk
stops at entries, yet only the entries from before the walk ever stop it: what
the walk adds itself it never meets again.
-/

namespace ServerFractions.Promotion

variable {w : Walk} {t₀ : TopLevel} {r n : Node} {mr m : Module} {st : State} {d : Descriptor}
  {e : TopLevel.Entry} {t : TopLevel} {visited : List Node} {steps : Nat}

-- ---------------------------------------------------------------------------
-- What a node is to a walk
-- ---------------------------------------------------------------------------

/-- The node is neither an entry of `t₀` nor a fraction, so the walk goes on below it. -/
structure Walk.Opens (w : Walk) (t₀ : TopLevel) (n : Node) (m : Module) : Prop where
  module : w.graph.module? n = some m
  fresh : t₀.contains (m.descriptor w.scope) = false
  plain : m.coordinates.key ∉ w.fractions

/-- The node is a fraction and no entry of `t₀`. -/
structure Walk.Promotes (w : Walk) (t₀ : TopLevel) (n : Node) (m : Module) : Prop where
  module : w.graph.module? n = some m
  fresh : t₀.contains (m.descriptor w.scope) = false
  fraction : m.coordinates.key ∈ w.fractions

def Walk.Open (w : Walk) (t₀ : TopLevel) (n : Node) : Prop :=
  ∃ m, w.Opens t₀ n m

/-- The node brings `d` below the root of the walk. -/
def Walk.Brings (w : Walk) (t₀ : TopLevel) (n : Node) (d : Descriptor) : Prop :=
  ∃ m, w.Opens t₀ n m ∧ m.artifacts ≠ [] ∧ d = m.descriptor w.scope

/-- The entry of the root after a walk that came to `visited`. -/
structure Walk.Nest (w : Walk) (t₀ : TopLevel) (visited : List Node) (e : TopLevel.Entry) :
    Prop where
  key : e.key = w.root
  children : ∀ d, d ∈ e.children ↔ ∃ n ∈ visited, w.Brings t₀ n d

/-- The node is lifted out into the entry `e`. -/
def Walk.Lifts (w : Walk) (t₀ : TopLevel) (n : Node) (e : TopLevel.Entry) : Prop :=
  ∃ m, w.Promotes t₀ n m ∧ e =
    ⟨m.descriptor w.scope, Descriptor.insertAll (w.graph.descendants w.scope n) []⟩

/-- A walk from the module `mr` at `r`, with `t₀` as the entries before it. -/
structure Walk.Starts (w : Walk) (t₀ : TopLevel) (r : Node) (mr : Module) : Prop where
  graph : w.graph.WellFormed
  distinct : t₀.Distinct
  module : w.graph.module? r = some mr
  root : w.root = mr.descriptor w.scope

/-- A walk that goes on below some node has gone on below its root. -/
theorem Walk.Starts.opens_root (hs : w.Starts t₀ r mr)
    (hvia : ReachesVia w.graph.children (w.Open t₀) r n) (hn : w.Opens t₀ n m) :
    w.Opens t₀ r mr := by
  obtain ⟨m', hm'⟩ := hvia.start ⟨m, hn⟩
  cases hs.module.symm.trans hm'.module
  exact hm'

-- ---------------------------------------------------------------------------
-- The invariant
-- ---------------------------------------------------------------------------

/-- The nodes that a walk came to lie on paths of nodes it went on below. -/
structure Walk.Trail (w : Walk) (t₀ : TopLevel) (r : Node) (visited : List Node) : Prop where
  start : ∀ n ∈ visited, r ∈ visited
  via : ∀ n ∈ visited, ReachesVia w.graph.children (w.Open t₀) r n

/-- The entries of a walk that came to `visited`: those from before, the nest
of the root, and the fractions that were met. -/
structure Walk.Holds (w : Walk) (t₀ : TopLevel) (r : Node) (visited : List Node) (t : TopLevel) :
    Prop where
  distinct : t.Distinct
  kept : ∀ e ∈ t₀.entries, e ∈ t.entries
  origin : ∀ e ∈ t.entries, e ∈ t₀.entries ∨
    (r ∈ visited ∧ w.Open t₀ r) ∧ w.Nest t₀ visited e ∨ ∃ n ∈ visited, w.Lifts t₀ n e
  nested : ∀ n ∈ visited, ∀ d, w.Brings t₀ n d → w.root ∈ t.keys
  lifted : ∀ n ∈ visited, ∀ e, w.Lifts t₀ n e → e ∈ t.entries

structure Walk.Inv (w : Walk) (t₀ : TopLevel) (r : Node) (st : State) : Prop where
  trail : w.Trail t₀ r st.visited
  holds : w.Holds t₀ r st.visited st.result

theorem Walk.Starts.inv (hs : w.Starts t₀ r mr) : w.Inv t₀ r { result := t₀ } where
  trail := ⟨by simp, by simp⟩
  holds := ⟨hs.distinct, fun _ he => he, fun _ he => .inl he, by simp, by simp⟩

theorem Walk.Trail.cons (h : w.Trail t₀ r visited) (hr : r ∈ visited)
    (hvia : ReachesVia w.graph.children (w.Open t₀) r n) : w.Trail t₀ r (n :: visited) where
  start _ _ := .tail _ hr
  via k hk := by
    rcases List.mem_cons.mp hk with rfl | hk
    · exact hvia
    · exact h.via k hk

theorem Walk.Holds.mem_keys (h : w.Holds t₀ r visited t) (hd : d ∈ t₀.keys) : d ∈ t.keys := by
  obtain ⟨e, he, hkey⟩ := TopLevel.mem_keys.mp hd
  exact TopLevel.mem_keys.mpr ⟨e, h.kept e he, hkey⟩

/-- Only the entries from before the walk keep it from a node. -/
theorem Walk.Holds.contains_eq (h : w.Holds t₀ r visited t) (hs : w.Starts t₀ r mr)
    (hn : n ∉ visited) (hm : w.graph.module? n = some m) :
    t.contains (m.descriptor w.scope) = t₀.contains (m.descriptor w.scope) := by
  rw [Bool.eq_iff_iff, TopLevel.contains_iff, TopLevel.contains_iff]
  constructor
  · rintro ⟨e, he, hkey⟩
    rcases h.origin e he with hold | ⟨⟨hr, _⟩, hnest⟩ | ⟨k, hk, mk, hlift, rfl⟩
    · exact ⟨e, hold, hkey⟩
    · rw [hnest.key, hs.root] at hkey
      obtain ⟨rfl, _⟩ := hs.graph.node_eq_of_identity hs.module hm hkey
      exact absurd hr hn
    · obtain ⟨rfl, _⟩ := hs.graph.node_eq_of_identity hlift.module hm hkey
      exact absurd hk hn
  · rintro ⟨e, he, hkey⟩
    exact ⟨e, h.kept e he, hkey⟩

-- ---------------------------------------------------------------------------
-- One step: a node that is visited for the first time
-- ---------------------------------------------------------------------------

theorem Walk.Opens.brings_iff (h : w.Opens t₀ n m) :
    w.Brings t₀ n d ↔ m.artifacts ≠ [] ∧ d = m.descriptor w.scope := by
  constructor
  · rintro ⟨m', hm', hd⟩
    cases h.module.symm.trans hm'.module
    exact hd
  · exact fun hd => ⟨m, h, hd⟩

theorem Walk.not_brings (hm : w.graph.module? n = some m)
    (h : m.artifacts ≠ [] → ¬ w.Opens t₀ n m) : ¬ w.Brings t₀ n d := by
  rintro ⟨m', hm', ha, _⟩
  cases hm.symm.trans hm'.module
  exact h ha hm'

theorem Walk.not_lifts (hm : w.graph.module? n = some m) (h : ¬ w.Promotes t₀ n m) :
    ¬ w.Lifts t₀ n e := by
  rintro ⟨m', hm', _⟩
  cases hm.symm.trans hm'.module
  exact h hm'

/-- A node that brings nothing leaves the origin of an entry as it is. -/
theorem Walk.Holds.origin_cons (h : w.Holds t₀ r visited t) (hbrings : ∀ d, ¬ w.Brings t₀ n d)
    (he : e ∈ t.entries) : e ∈ t₀.entries ∨
      (r ∈ n :: visited ∧ w.Open t₀ r) ∧ w.Nest t₀ (n :: visited) e ∨
        ∃ k ∈ n :: visited, w.Lifts t₀ k e := by
  rcases h.origin e he with hold | ⟨⟨hr, hopen⟩, hnest⟩ | ⟨k, hk, hlift⟩
  · exact .inl hold
  · exact .inr (.inl ⟨⟨.tail _ hr, hopen⟩, hnest.key, by simp [hnest.children, hbrings]⟩)
  · exact .inr (.inr ⟨k, .tail _ hk, hlift⟩)

/-- A node that neither brings nor lifts anything leaves the entries as they are. -/
theorem Walk.Holds.idle (h : w.Holds t₀ r visited t) (hbrings : ∀ d, ¬ w.Brings t₀ n d)
    (hlifts : ∀ e, ¬ w.Lifts t₀ n e) : w.Holds t₀ r (n :: visited) t where
  distinct := h.distinct
  kept := h.kept
  origin _ he := h.origin_cons hbrings he
  nested k hk d hd := by
    rcases List.mem_cons.mp hk with rfl | hk
    · exact absurd hd (hbrings d)
    · exact h.nested k hk d hd
  lifted k hk e he := by
    rcases List.mem_cons.mp hk with rfl | hk
    · exact absurd he (hlifts e)
    · exact h.lifted k hk e he

/-- A fraction is claimed with its subtree. -/
theorem Walk.Holds.claim (h : w.Holds t₀ r visited t) (hs : w.Starts t₀ r mr) (hn : n ∉ visited)
    (hm : w.Promotes t₀ n m) : w.Holds t₀ r (n :: visited)
      (t.claim (m.descriptor w.scope) (w.graph.descendants w.scope n)).2 := by
  have hfree : t.contains (m.descriptor w.scope) = false :=
    (h.contains_eq hs hn hm.module).trans hm.fresh
  have hbrings : ∀ d, ¬ w.Brings t₀ n d := fun _ =>
    not_brings hm.module fun _ ho => ho.plain hm.fraction
  refine ⟨h.distinct.claim, ?_, ?_, ?_, ?_⟩
  · exact fun e he => TopLevel.mem_claim.mpr (.inl (h.kept e he))
  · intro e he
    rcases TopLevel.mem_claim.mp he with he | ⟨_, rfl⟩
    · exact h.origin_cons hbrings he
    · exact .inr (.inr ⟨n, .head _, m, hm, rfl⟩)
  · intro k hk d hd
    rcases List.mem_cons.mp hk with rfl | hk
    · exact absurd hd (hbrings d)
    · obtain ⟨e, he, hkey⟩ := TopLevel.mem_keys.mp (h.nested k hk d hd)
      exact TopLevel.mem_keys.mpr ⟨e, TopLevel.mem_claim.mpr (.inl he), hkey⟩
  · intro k hk e he
    rcases List.mem_cons.mp hk with rfl | hk
    · obtain ⟨m', hm', rfl⟩ := he
      cases hm.module.symm.trans hm'.module
      exact TopLevel.mem_claim.mpr (.inr ⟨hfree, rfl⟩)
    · exact TopLevel.mem_claim.mpr (.inl (h.lifted k hk e he))

theorem Walk.Lifts.key_ne_root (h : w.Lifts t₀ n e) (hs : w.Starts t₀ r mr)
    (hr : w.Opens t₀ r mr) : e.key.identity ≠ w.root.identity := by
  obtain ⟨m, hm, rfl⟩ := h
  rw [hs.root]
  intro hkey
  obtain ⟨rfl, rfl, _⟩ := hs.graph.node_eq_of_identity hm.module hs.module hkey
  exact hr.plain hm.fraction

/-- Once the walk goes on below its root, the key of the root is that of the
nest alone. -/
theorem Walk.Holds.nest_of_key (h : w.Holds t₀ r visited t) (hs : w.Starts t₀ r mr)
    (hr : w.Opens t₀ r mr) (he : e ∈ t.entries) (hkey : e.key.identity = w.root.identity) :
    w.Nest t₀ visited e := by
  rcases h.origin e he with hold | ⟨_, hnest⟩ | ⟨k, _, hlift⟩
  · rw [hs.root] at hkey
    exact absurd hkey (TopLevel.contains_eq_false_iff.mp hr.fresh e hold)
  · exact hnest
  · exact absurd hkey (hlift.key_ne_root hs hr)

/-- A module with artifacts is attached to the root. -/
theorem Walk.Holds.attach (h : w.Holds t₀ r visited t) (hs : w.Starts t₀ r mr)
    (hr : w.Opens t₀ r mr) (hrn : r ∈ n :: visited) (hn : n ∉ visited) (hm : w.Opens t₀ n m)
    (ha : m.artifacts ≠ []) :
    w.Holds t₀ r (n :: visited) (t.attach w.root (m.descriptor w.scope)) := by
  have hbrings : w.Brings t₀ n (m.descriptor w.scope) := hm.brings_iff.mpr ⟨ha, rfl⟩
  refine ⟨h.distinct.attach, ?_, ?_, ?_, ?_⟩
  · intro e he
    refine TopLevel.mem_attach.mpr (.inl ⟨h.kept e he, ?_⟩)
    rw [hs.root]
    exact TopLevel.contains_eq_false_iff.mp hr.fresh e he
  · intro e he
    rcases TopLevel.mem_attach.mp he with ⟨he, hkey⟩ | ⟨hfree, rfl⟩ | ⟨e', he', hkey, rfl⟩
    · rcases h.origin e he with hold | ⟨_, hnest⟩ | ⟨k, hk, hlift⟩
      · exact .inl hold
      · exact absurd (congrArg Descriptor.identity hnest.key) hkey
      · exact .inr (.inr ⟨k, .tail _ hk, hlift⟩)
    · -- No node brought anything before, or the root would have an entry.
      have hnone : ∀ k ∈ visited, ∀ d, ¬ w.Brings t₀ k d := by
        intro k hk d hd
        have := TopLevel.contains_of_mem_keys (h.nested k hk d hd)
        simp [hfree] at this
      refine .inr (.inl ⟨⟨hrn, mr, hr⟩, rfl, fun x => ⟨fun hx => ?_, ?_⟩⟩)
      · exact ⟨n, .head _, List.mem_singleton.mp hx ▸ hbrings⟩
      · rintro ⟨k, hk, hx⟩
        rcases List.mem_cons.mp hk with rfl | hk
        · exact List.mem_singleton.mpr (hm.brings_iff.mp hx).2
        · exact absurd hx (hnone k hk x)
    · have hnest := h.nest_of_key hs hr he' hkey
      have hfresh : ∀ d ∈ e'.children, d.identity ≠ (m.descriptor w.scope).identity := by
        intro d hd hsame
        obtain ⟨k, hk, mk, hmk, _, rfl⟩ := (hnest.children d).mp hd
        exact hn ((hs.graph.node_eq_of_identity hmk.module hm.module hsame).1 ▸ hk)
      refine .inr (.inl ⟨⟨hrn, mr, hr⟩, hnest.key, fun x => ⟨fun hx => ?_, ?_⟩⟩)
      · rcases Descriptor.mem_insert.mp hx with hx | ⟨rfl, _⟩
        · obtain ⟨k, hk, hx⟩ := (hnest.children x).mp hx
          exact ⟨k, .tail _ hk, hx⟩
        · exact ⟨n, .head _, hbrings⟩
      · rintro ⟨k, hk, hx⟩
        rcases List.mem_cons.mp hk with rfl | hk
        · exact Descriptor.mem_insert.mpr (.inr ⟨(hm.brings_iff.mp hx).2, hfresh⟩)
        · exact Descriptor.mem_insert.mpr (.inl ((hnest.children x).mpr ⟨k, hk, hx⟩))
  · intro k _ d _
    cases hroot : t.contains w.root with
    | false =>
      exact TopLevel.mem_keys.mpr ⟨_, TopLevel.mem_attach.mpr (.inr (.inl ⟨hroot, rfl⟩)), rfl⟩
    | true =>
      obtain ⟨e, he, hkey⟩ := TopLevel.contains_iff.mp hroot
      exact TopLevel.mem_keys.mpr ⟨_, TopLevel.mem_attach.mpr (.inr (.inr ⟨e, he, hkey, rfl⟩)),
        (h.nest_of_key hs hr he hkey).key⟩
  · intro k hk e he
    rcases List.mem_cons.mp hk with rfl | hk
    · exact absurd he (not_lifts hm.module fun hp => hm.plain hp.fraction)
    · exact TopLevel.mem_attach.mpr (.inl ⟨h.lifted k hk e he, he.key_ne_root hs hr⟩)

-- ---------------------------------------------------------------------------
-- The whole walk
-- ---------------------------------------------------------------------------

/-- What a visit does at a node itself, before it turns to the children. -/
def Walk.enter (w : Walk) (n : Node) (m : Module) (st : State) : State :=
  let d := m.descriptor w.scope
  if st.result.contains d then st.mark n
  else if m.coordinates.key ∈ w.fractions then
    ((st.mark n).report (.promoted d)).claim d (w.graph.descendants w.scope n)
  else if m.artifacts.isEmpty then st.mark n
  else (st.mark n).attach w.root d

@[simp] theorem Walk.visited_enter : (w.enter n m st).visited = n :: st.visited := by
  simp only [enter]
  split_ifs <;> rfl

theorem Walk.visit_of_visited (hn : n ∈ st.visited) : w.visit (steps + 1) n st = st := by
  simp [visit, hn]

/-- A first visit enters the node, and then visits the children unless the
node is closed. -/
theorem Walk.visit_of_module? (hn : n ∉ st.visited) (hm : w.graph.module? n = some m) :
    w.visit (steps + 1) n st =
      if st.result.contains (m.descriptor w.scope) ∨ m.coordinates.key ∈ w.fractions then
        w.enter n m st
      else m.children.foldl (fun st c => w.visit steps c st) (w.enter n m st) := by
  have hresult : (st.mark n).result = st.result := rfl
  simp only [visit, hn, hm, enter, hresult, ↓reduceIte]
  split_ifs <;> simp_all

theorem Walk.Inv.enter (h : w.Inv t₀ r st) (hs : w.Starts t₀ r mr) (hn : n ∉ st.visited)
    (htrail : w.Trail t₀ r (n :: st.visited)) (hm : w.graph.module? n = some m) :
    w.Inv t₀ r (w.enter n m st) := by
  have hfresh := h.holds.contains_eq hs hn hm
  refine ⟨by simpa using htrail, ?_⟩
  rw [visited_enter]
  simp only [Walk.enter]
  split_ifs with hold hfraction hempty
  · refine h.holds.idle (fun _ => not_brings hm fun _ ho => ?_) fun _ => not_lifts hm fun hp => ?_
    · simp [hfresh, ho.fresh] at hold
    · simp [hfresh, hp.fresh] at hold
  · exact h.holds.claim hs hn ⟨hm, by simpa [hfresh] using hold, hfraction⟩
  · refine h.holds.idle (fun _ => not_brings hm fun ha => ?_) fun _ => not_lifts hm fun hp => ?_
    · simp_all
    · exact hfraction hp.fraction
  · have hopens : w.Opens t₀ n m := ⟨hm, by simpa [hfresh] using hold, hfraction⟩
    exact h.holds.attach hs (hs.opens_root (htrail.via n (.head _)) hopens)
      (htrail.start n (.head _)) hn hopens (by simpa using hempty)

/-- Nothing that a state holds is gone in the other. -/
structure State.Extends (st st' : State) : Prop where
  visited : st.visited ⊆ st'.visited
  events : st.events ⊆ st'.events

theorem State.Extends.refl (st : State) : st.Extends st := ⟨fun _ h => h, fun _ h => h⟩

theorem State.Extends.trans {st st' st'' : State} (h : st.Extends st') (h' : st'.Extends st'') :
    st.Extends st'' :=
  ⟨fun _ hn => h'.visited (h.visited hn), fun _ he => h'.events (h.events he)⟩

theorem State.extends_foldl {f : State → Node → State}
    (hf : ∀ (st : State) (c : Node), st.Extends (f st c)) (cs : List Node) :
    st.Extends (cs.foldl f st) := by
  induction cs generalizing st with
  | nil => exact .refl st
  | cons c cs ih => exact (hf st c).trans ih

theorem Walk.extends_enter : st.Extends (w.enter n m st) where
  visited := by simp
  events := by
    simp only [enter]
    split_ifs <;> simp [State.mark, State.report, State.claim, State.attach]

theorem Walk.extends_visit : st.Extends (w.visit steps n st) := by
  induction steps generalizing n st with
  | zero => exact ⟨fun _ h => h, by simp [visit, State.report]⟩
  | succ steps ih =>
    by_cases hn : n ∈ st.visited
    · rw [visit_of_visited hn]
      exact .refl st
    · cases hm : w.graph.module? n with
      | none =>
        simp only [visit, hn, hm, ↓reduceIte]
        exact ⟨by simp [State.mark], by simp [State.mark]⟩
      | some m =>
        rw [visit_of_module? hn hm]
        split_ifs
        · exact extends_enter
        · exact extends_enter.trans (State.extends_foldl (fun _ _ => ih) m.children)

theorem Walk.Trail.exists_module? (h : w.Trail t₀ r visited) (hs : w.Starts t₀ r mr)
    (hn : n ∈ visited) : ∃ m, w.graph.module? n = some m :=
  Graph.exists_module? <|
    hs.graph.reaches_lt (h.via n hn).reaches (Graph.lt_of_module? hs.module)

/-- The node is open exactly when the check at its first visit says so. -/
theorem Walk.Inv.open_iff (h : w.Inv t₀ r st) (hs : w.Starts t₀ r mr) (hn : n ∉ st.visited)
    (hm : w.graph.module? n = some m) : w.Open t₀ n ↔
      ¬ (st.result.contains (m.descriptor w.scope) ∨ m.coordinates.key ∈ w.fractions) := by
  rw [h.holds.contains_eq hs hn hm, not_or, Bool.not_eq_true]
  constructor
  · rintro ⟨m', hm'⟩
    cases hm.symm.trans hm'.module
    exact ⟨hm'.fresh, hm'.plain⟩
  · exact fun hc => ⟨m, hm, hc.1, hc.2⟩

theorem Walk.Inv.visit (h : w.Inv t₀ r st) (hs : w.Starts t₀ r mr)
    (htrail : w.Trail t₀ r (n :: st.visited)) : w.Inv t₀ r (w.visit steps n st) := by
  induction steps generalizing n st with
  | zero => exact ⟨h.trail, h.holds⟩
  | succ steps ih =>
    by_cases hn : n ∈ st.visited
    · rwa [visit_of_visited hn]
    · obtain ⟨m, hm⟩ := htrail.exists_module? hs (.head _)
      rw [visit_of_module? hn hm]
      have henter := h.enter hs hn htrail hm
      split_ifs with hclosed
      · exact henter
      · have hopen := (h.open_iff hs hn hm).mpr hclosed
        have hr : r ∈ (w.enter n m st).visited := by simpa using htrail.start n (.head _)
        refine (List.foldlRecOn (motive := fun st => w.Inv t₀ r st ∧ r ∈ st.visited) m.children _
          ⟨henter, hr⟩ fun st hst c hc => ?_).1
        have hvia : ReachesVia w.graph.children (w.Open t₀) r c :=
          (htrail.via n (.head _)).tail hopen (Graph.children_of_module? hm ▸ hc)
        exact ⟨ih hst.1 (hst.1.trail.cons hst.2 hvia), extends_visit.visited hst.2⟩

-- ---------------------------------------------------------------------------
-- The walk from its root
-- ---------------------------------------------------------------------------

theorem Walk.Trail.root : w.Trail t₀ r [r] where
  start _ _ := .head _
  via _ hn := List.mem_singleton.mp hn ▸ .refl

theorem Walk.Starts.inv_final (hs : w.Starts t₀ r mr) :
    w.Inv t₀ r (w.visit depthLimit r { result := t₀ }) :=
  hs.inv.visit hs .root

theorem Walk.Starts.root_mem (hs : w.Starts t₀ r mr) :
    r ∈ (w.visit depthLimit r { result := t₀ }).visited := by
  obtain ⟨steps, hsteps⟩ : ∃ steps, depthLimit = steps + 1 := ⟨_, rfl⟩
  rw [hsteps, visit_of_module? (by simp) hs.module]
  split_ifs
  · simp
  · exact (State.extends_foldl (fun _ _ => extends_visit) _).visited (by simp)

end ServerFractions.Promotion
