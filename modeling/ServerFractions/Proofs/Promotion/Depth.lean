import Mathlib.Data.List.Perm.Subperm
import ServerFractions.Proofs.Promotion.Walk

/-!
# The depth of a walk

Which nodes a walk comes to does not depend on the entries that it makes:
`comeTo` tells it from the graph and the open nodes alone
(`Inv.visited_visit`). A walk takes the first way to a node that it finds,
however long, and never comes back on a shorter one. So the depth limit can
keep it from a node that also has a short way; what `mem_comeTo_or_deep`
promises is that some way as long as the limit, without a repetition, ends
above every node that is missed. In a graph with no more modules than that there
is no such way, and a walk that reports no cut does the same with more levels,
so in both cases nothing is missed (`Starts.mem_of_via`).
-/

namespace ServerFractions

-- ---------------------------------------------------------------------------
-- Ways down
-- ---------------------------------------------------------------------------

/-- A way down from `r` to a node that visits no node twice: `path` holds the
nodes above the last one, the lowest first, and all of them have `P`. There are
as many edges as nodes in `path`. -/
inductive Descends {α : Type} (next : α → List α) (P : α → Prop) (r : α) : List α → α → Prop
  | start : Descends next P r [] r
  | step {path : List α} {a b : α} (h : Descends next P r path a) (ha : P a) (hb : b ∈ next a)
    (hnew : b ∉ a :: path) : Descends next P r (a :: path) b

namespace Descends

variable {α : Type} {next : α → List α} {P Q : α → Prop} {r a b : α} {path : List α}

theorem mono (h : Descends next P r path a) (hPQ : ∀ x, P x → Q x) :
    Descends next Q r path a := by
  induction h with
  | start => exact .start
  | step _ ha hb hnew ih => exact .step ih (hPQ _ ha) hb hnew

theorem nodup (h : Descends next P r path a) : (a :: path).Nodup := by
  induction h with
  | start => exact List.nodup_singleton _
  | step _ _ _ hnew ih => exact List.nodup_cons.mpr ⟨hnew, ih⟩

theorem reachesVia (h : Descends next P r path a) : ∀ x ∈ a :: path, ReachesVia next P r x := by
  induction h with
  | start => exact List.forall_mem_singleton.mpr .refl
  | step _ ha hb _ ih =>
    exact List.forall_mem_cons.mpr ⟨(ih _ (.head _)).tail ha hb, ih⟩

end Descends

namespace Promotion

variable {w : Walk} {t₀ : TopLevel} {r n k : Node} {mr m : Module} {st : State} {steps limit : Nat}
  {next : Node → List Node} {opens : Node → Bool} {path visited : List Node}

-- ---------------------------------------------------------------------------
-- The nodes that a walk comes to
-- ---------------------------------------------------------------------------

/-- The nodes that are visited after a visit of `n`, the latest first. -/
def comeTo (next : Node → List Node) (opens : Node → Bool) :
    (steps : Nat) → Node → List Node → List Node
  | 0, _, visited => visited
  | steps + 1, n, visited =>
    if n ∈ visited then visited
    else if opens n then
      (next n).foldl (fun visited c => comeTo next opens steps c visited) (n :: visited)
    else n :: visited

theorem State.visited_foldl {f : State → Node → State} {g : List Node → Node → List Node}
    {P : State → Prop} {cs : List Node}
    (hstep : ∀ st, ∀ c ∈ cs, P st → P (f st c) ∧ (f st c).visited = g st.visited c) (h : P st) :
    (cs.foldl f st).visited = cs.foldl g st.visited := by
  induction cs generalizing st with
  | nil => rfl
  | cons c cs ih =>
    obtain ⟨hc, hvisited⟩ := hstep st c (.head _) h
    rw [List.foldl_cons, List.foldl_cons, ← hvisited]
    exact ih (fun st k hk => hstep st k (.tail _ hk)) hc

theorem Walk.Inv.visited_visit (h : w.Inv t₀ r st) (hs : w.Starts t₀ r mr)
    (hopens : ∀ n, opens n = true ↔ w.Open t₀ n) (htrail : w.Trail t₀ r (n :: st.visited)) :
    (w.visit steps n st).visited = comeTo w.graph.children opens steps n st.visited := by
  induction steps generalizing n st with
  | zero => rfl
  | succ steps ih =>
    by_cases hn : n ∈ st.visited
    · simp [visit_of_visited hn, comeTo, hn]
    · obtain ⟨m, hm⟩ := htrail.exists_module? hs (.head _)
      have hopen := h.open_iff hs hn hm
      rw [visit_of_module? hn hm, comeTo, if_neg hn]
      split_ifs with hclosed hyes hyes
      · exact absurd hclosed (hopen.mp ((hopens n).mp hyes))
      · exact visited_enter
      · have henter := h.enter hs hn htrail hm
        have hr : r ∈ (w.enter n m st).visited := by simpa using htrail.start n (.head _)
        have hvia : ∀ c ∈ m.children, ReachesVia w.graph.children (w.Open t₀) r c := fun c hc =>
          (htrail.via n (.head _)).tail (hopen.mpr hclosed) (Graph.children_of_module? hm ▸ hc)
        rw [Graph.children_of_module? hm, ← visited_enter (w := w) (m := m)]
        refine State.visited_foldl (P := fun st => w.Inv t₀ r st ∧ r ∈ st.visited) ?_ ⟨henter, hr⟩
        rintro st c hc ⟨hst, hr⟩
        have htrail := hst.trail.cons hr (hvia c hc)
        exact ⟨⟨hst.visit hs htrail, extends_visit.visited hr⟩, ih hst htrail⟩
      · exact absurd ((hopens n).mpr (hopen.mpr hclosed)) hyes

-- ---------------------------------------------------------------------------
-- What is missed
-- ---------------------------------------------------------------------------

/-- A way down to `n` with as many edges as there are levels. -/
def Deep (next : Node → List Node) (P : Node → Prop) (limit : Nat) (r n : Node) : Prop :=
  ∃ path, path.length = limit ∧ Descends next P r path n

/-- Below the open nodes off the current path everything was visited, except
for what is too deep. -/
structure Explored (next : Node → List Node) (opens : Node → Bool) (limit : Nat) (r : Node)
    (path visited : List Node) : Prop where
  subset : path ⊆ visited
  done : ∀ k ∈ visited, opens k = true → k ∉ path → ∀ c ∈ next k,
    c ∈ visited ∨ Deep next (opens · = true) limit r c

theorem Explored.push (h : Explored next opens limit r path visited) :
    Explored next opens limit r (n :: path) (n :: visited) where
  subset := List.cons_subset_cons _ h.subset
  done k hk hopen hnot c hc := by
    simp only [List.mem_cons, not_or] at hk hnot
    exact (h.done k (hk.resolve_left hnot.1) hopen hnot.2 c hc).imp_left (.tail _)

theorem Explored.pop (h : Explored next opens limit r (n :: path) visited)
    (hn : opens n = true → ∀ c ∈ next n, c ∈ visited ∨ Deep next (opens · = true) limit r c) :
    Explored next opens limit r path visited where
  subset _ hk := h.subset (.tail _ hk)
  done k hk hopen hpath c hc := by
    by_cases hkn : k = n
    · exact hn (hkn ▸ hopen) c (hkn ▸ hc)
    · exact h.done k hk hopen (by simp [hkn, hpath]) c hc

theorem subset_foldl {f : List Node → Node → List Node} (hf : ∀ v c, v ⊆ f v c)
    (cs visited : List Node) : visited ⊆ cs.foldl f visited := by
  induction cs generalizing visited with
  | nil => exact List.Subset.refl _
  | cons c cs ih => exact List.Subset.trans (hf visited c) (ih _)

theorem subset_comeTo : visited ⊆ comeTo next opens steps n visited := by
  induction steps generalizing n visited with
  | zero => exact List.Subset.refl _
  | succ steps ih =>
    rw [comeTo]
    split_ifs
    · exact List.Subset.refl _
    · exact List.Subset.trans (List.subset_cons_self _ _) (subset_foldl (fun _ _ => ih) _ _)
    · exact List.subset_cons_self _ _

/-- The children of a node are taken one after the other; what holds of one
when it was taken holds in the end. -/
theorem foldl_comeTo {Q : Node → Prop} {P : List Node → Prop} {cs : List Node}
    (hstep : ∀ v, ∀ c ∈ cs, P v →
      P (comeTo next opens steps c v) ∧ (c ∈ comeTo next opens steps c v ∨ Q c))
    (h : P visited) : P (cs.foldl (fun v c => comeTo next opens steps c v) visited) ∧
      ∀ c ∈ cs, c ∈ cs.foldl (fun v c => comeTo next opens steps c v) visited ∨ Q c := by
  induction cs generalizing visited with
  | nil => exact ⟨h, by simp⟩
  | cons c cs ih =>
    obtain ⟨hc, hmem⟩ := hstep visited c (.head _) h
    obtain ⟨hP, hcs⟩ := ih (fun v k hk => hstep v k (.tail _ hk)) hc
    refine ⟨hP, List.forall_mem_cons.mpr ⟨hmem.imp_left fun hmem => ?_, hcs⟩⟩
    exact subset_foldl (fun _ _ => subset_comeTo) cs _ hmem

/-- One visit. `path` is the way by which the walk has come to `n`, so it gets
longer by one with each level. -/
theorem Explored.visit (h : Explored next opens limit r path visited)
    (hdown : n ∉ visited → Descends next (opens · = true) r path n)
    (hdepth : path.length + steps = limit) :
    Explored next opens limit r path (comeTo next opens steps n visited) ∧
      (n ∈ comeTo next opens steps n visited ∨ Deep next (opens · = true) limit r n) := by
  induction steps generalizing n path visited with
  | zero =>
    refine ⟨h, ?_⟩
    by_cases hn : n ∈ visited
    · exact .inl hn
    · exact .inr ⟨path, by simpa using hdepth, hdown hn⟩
  | succ steps ih =>
    rw [comeTo]
    split_ifs with hn hopen
    · exact ⟨h, .inl hn⟩
    · have hpush : Explored next opens limit r (n :: path) (n :: visited) := h.push
      have hstep : ∀ v, ∀ c ∈ next n, Explored next opens limit r (n :: path) v →
          Explored next opens limit r (n :: path) (comeTo next opens steps c v) ∧
            (c ∈ comeTo next opens steps c v ∨
              Deep next (opens · = true) limit r c) := by
        intro v c hc hv
        refine ih hv (fun hcv => ?_) (by simp only [List.length_cons]; omega)
        exact .step (hdown hn) hopen hc fun hmem => hcv (hv.subset hmem)
      obtain ⟨hdone, hchildren⟩ := foldl_comeTo hstep hpush
      exact ⟨hdone.pop fun _ => hchildren, .inl (hdone.subset (.head _))⟩
    · exact ⟨h.push.pop fun hyes => absurd hyes hopen, .inl (.head _)⟩

/-- Whatever open nodes lead to, the walk comes to it, or it lies at or below
the end of a way down that is as long as the limit. -/
theorem mem_comeTo_or_deep (hvia : ReachesVia next (opens · = true) r n) :
    n ∈ comeTo next opens limit r [] ∨
      ∃ x, Deep next (opens · = true) limit r x ∧ ReachesVia next (opens · = true) x n := by
  have hempty : Explored next opens limit r [] [] := ⟨List.Subset.refl _, by simp⟩
  obtain ⟨hdone, hr⟩ : Explored next opens limit r [] (comeTo next opens limit r []) ∧
      (r ∈ comeTo next opens limit r [] ∨ Deep next (opens · = true) limit r r) :=
    hempty.visit (fun _ => .start) (by simp)
  induction hvia with
  | refl => exact hr.imp_right fun hdeep => ⟨r, hdeep, .refl⟩
  | @tail b c _ hstep ih =>
    rcases ih with hb | ⟨x, hdeep, hvia⟩
    · exact (hdone.done b hb hstep.1 (by simp) c hstep.2).imp_right fun hdeep => ⟨c, hdeep, .refl⟩
    · exact .inr ⟨x, hdeep, hvia.tail hstep.1 hstep.2⟩

theorem Walk.Starts.visited_visit (hs : w.Starts t₀ r mr)
    (hopens : ∀ n, opens n = true ↔ w.Open t₀ n) :
    (w.visit limit r { result := t₀ }).visited = comeTo w.graph.children opens limit r [] :=
  hs.inv.visited_visit hs hopens .root

open Classical in
theorem Walk.Starts.mem_or_deep (hs : w.Starts t₀ r mr)
    (hvia : ReachesVia w.graph.children (w.Open t₀) r n) :
    n ∈ (w.visit limit r { result := t₀ }).visited ∨
      ∃ x, Deep w.graph.children (w.Open t₀) limit r x ∧
        ReachesVia w.graph.children (w.Open t₀) x n := by
  have hopens : ∀ n, decide (w.Open t₀ n) = true ↔ w.Open t₀ n := fun _ => decide_eq_true_iff
  rw [hs.visited_visit hopens]
  simpa only [hopens] using mem_comeTo_or_deep (hvia.mono fun n => (hopens n).mpr)

-- ---------------------------------------------------------------------------
-- Nothing is missed
-- ---------------------------------------------------------------------------

/-- No chain is lost to the depth limit: the graph is too small for that, or
nothing reports it. -/
def Untruncated (g : Graph) (events : List Event) : Prop :=
  g.size ≤ depthLimit ∨ ∀ root, Event.truncated root ∉ events

theorem Untruncated.mono {g : Graph} {es es' : List Event} (h : Untruncated g es')
    (hsub : es ⊆ es') : Untruncated g es :=
  h.imp_right fun hnone root he => hnone root (hsub he)

/-- The nodes of a way are as many as its edges and one more. -/
theorem not_deep {P : Node → Prop} {size : Nat} (hlt : ∀ x, ReachesVia next P r x → x < size)
    (hsize : size ≤ limit) : ¬ Deep next P limit r n := by
  rintro ⟨path, rfl, hdown⟩
  have hsub : n :: path ⊆ List.range size := fun x hx =>
    List.mem_range.mpr (hlt x (hdown.reachesVia x hx))
  have hlength := (hdown.nodup.subperm hsub).length_le
  simp only [List.length_cons, List.length_range] at hlength
  omega

theorem State.foldl_eq_of_untruncated {f g : State → Node → State} {cs : List Node}
    (hf : ∀ (st : State) (c : Node), st.Extends (f st c))
    (hstep : ∀ st c, (∀ root, Event.truncated root ∉ (f st c).events) → g st c = f st c)
    (hnone : ∀ root, Event.truncated root ∉ (cs.foldl f st).events) :
    cs.foldl g st = cs.foldl f st := by
  induction cs generalizing st with
  | nil => rfl
  | cons c cs ih =>
    have hrest : (f st c).Extends (cs.foldl f (f st c)) := extends_foldl hf cs
    rw [List.foldl_cons, hstep st c fun root he => hnone root (hrest.events he)]
    exact ih hnone

/-- A walk that reports no cut does not need the levels that it has left. -/
theorem Walk.visit_succ_of_untruncated
    (hnone : ∀ root, Event.truncated root ∉ (w.visit steps n st).events) :
    w.visit (steps + 1) n st = w.visit steps n st := by
  induction steps generalizing n st with
  | zero => exact absurd (by simp [visit, State.report]) (hnone w.root)
  | succ steps ih =>
    by_cases hn : n ∈ st.visited
    · rw [visit_of_visited hn, visit_of_visited hn]
    · cases hm : w.graph.module? n with
      | none => simp [visit, hn, hm]
      | some m =>
        rw [visit_of_module? hn hm] at hnone
        rw [visit_of_module? hn hm, visit_of_module? hn hm]
        split_ifs at hnone ⊢
        · rfl
        · exact State.foldl_eq_of_untruncated (fun _ _ => extends_visit) (fun _ _ => ih) hnone

theorem Walk.visit_add_of_untruncated (more : Nat)
    (hnone : ∀ root, Event.truncated root ∉ (w.visit steps n st).events) :
    w.visit (steps + more) n st = w.visit steps n st := by
  induction more with
  | zero => rfl
  | succ more ih =>
    rw [← ih] at hnone
    rw [← Nat.add_assoc, visit_succ_of_untruncated hnone, ih]

/-- The walk comes to everything that open nodes lead to. -/
theorem Walk.Starts.mem_of_via (hs : w.Starts t₀ r mr)
    (hall : Untruncated w.graph (w.visit depthLimit r { result := t₀ }).events)
    (hvia : ReachesVia w.graph.children (w.Open t₀) r n) :
    n ∈ (w.visit depthLimit r { result := t₀ }).visited := by
  -- With at least as many levels as modules no way is too deep.
  obtain ⟨limit, hlimit, hsame⟩ : ∃ limit, w.graph.size ≤ limit ∧
      w.visit limit r { result := t₀ } = w.visit depthLimit r { result := t₀ } := by
    rcases hall with hsmall | hnone
    · exact ⟨depthLimit, hsmall, rfl⟩
    · exact ⟨depthLimit + w.graph.size, by omega, visit_add_of_untruncated _ hnone⟩
  have hlt : ∀ x, ReachesVia w.graph.children (w.Open t₀) r x → x < w.graph.size := fun x hx =>
    hs.graph.reaches_lt hx.reaches (Graph.lt_of_module? hs.module)
  rw [← hsame]
  exact (hs.mem_or_deep hvia).resolve_right fun ⟨x, hdeep, _⟩ => not_deep hlt hlimit hdeep

end Promotion

end ServerFractions
