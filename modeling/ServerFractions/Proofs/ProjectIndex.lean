import ServerFractions.ProjectIndex
import ServerFractions.Proofs.Cache

/-!
# Lookups through a cache

An index answers from the two lookups that are seen through its cache: the
stored ones, or else those that the build itself gives (`Registry.seen`).
Asking fills the cache and changes nothing of what is seen (`Fills.seen_eq`).
A cache is honest about a build when the build would give the same; whatever
fills it on behalf of another build keeps that (`Fills.honest`).
-/

namespace ServerFractions

/-- The two lookups over the projects of a build. -/
structure Lookups where
  projects : List (String × Project)
  included : List String

namespace Lookups

variable (l : Lookups) (x : Coordinates)

def find : Option Project :=
  l.projects.lookup x.gav

def contains : Bool :=
  (l.find x).isSome || l.included.contains x.gav

end Lookups

namespace Registry

variable {r r' : Registry} {c c' c'' : Cache} {α : Type} {kind : CacheKind α} {key : CacheKey}
  {name : String}

/-- The lookups that the build itself gives. -/
def lookups (r : Registry) : Lookups where
  projects := r.projectsByGav
  included := r.includedGavs.value

/-- The key under which the projects of the build are stored. -/
def projectsKey (r : Registry) : CacheKey :=
  ProjectIndex.projectsKey ⟨r, .empty⟩

/-- The key under which the modules of included builds are stored. -/
def includedKey (r : Registry) : CacheKey :=
  ProjectIndex.includedKey ⟨r, .empty⟩

theorem projectsKey_ne_includedKey : r.projectsKey ≠ r.includedKey := by
  simp [projectsKey, includedKey, ProjectIndex.projectsKey, ProjectIndex.includedKey]

/-- The lookups of the build as an index sees them. -/
def seen (r : Registry) (c : Cache) : Lookups where
  projects := (c.get? .projects r.projectsKey).getD r.projectsByGav
  included := (c.get? .texts r.includedKey).getD r.includedGavs.value

theorem seen_empty : r.seen .empty = r.lookups := rfl

-- ---------------------------------------------------------------------------
-- Filling a cache
-- ---------------------------------------------------------------------------

/-- Asking for the lookups of the build, any number of times, turns `c` into
the other cache. -/
inductive Fills (r : Registry) (c : Cache) : Cache → Prop
  | refl : Fills r c c
  | projects {c' : Cache} (h : Fills r c c') : Fills r c (ProjectIndex.projects ⟨r, c'⟩).value.2
  | included {c' : Cache} (h : Fills r c c') : Fills r c (ProjectIndex.included ⟨r, c'⟩).value.2

theorem Fills.trans (h : r.Fills c c') (h' : r.Fills c' c'') : r.Fills c c'' := by
  induction h' with
  | refl => exact h
  | projects _ ih => exact .projects ih
  | included _ ih => exact .included ih

theorem seen_projects : r.seen (ProjectIndex.projects ⟨r, c⟩).value.2 = r.seen c := by
  have hself : (ProjectIndex.projects ⟨r, c⟩).value.2.get? .projects r.projectsKey =
      some (r.seen c).projects := Cache.get?_fetch_self
  have hother : (ProjectIndex.projects ⟨r, c⟩).value.2.get? .texts r.includedKey =
      c.get? .texts r.includedKey := Cache.get?_fetch_of_ne projectsKey_ne_includedKey.symm
  simp [seen, hself, hother]

theorem seen_included : r.seen (ProjectIndex.included ⟨r, c⟩).value.2 = r.seen c := by
  have hself : (ProjectIndex.included ⟨r, c⟩).value.2.get? .texts r.includedKey =
      some (r.seen c).included := Cache.get?_fetch_self
  have hother : (ProjectIndex.included ⟨r, c⟩).value.2.get? .projects r.projectsKey =
      c.get? .projects r.projectsKey := Cache.get?_fetch_of_ne projectsKey_ne_includedKey
  simp [seen, hself, hother]

theorem Fills.seen_eq (h : r.Fills c c') : r.seen c' = r.seen c := by
  induction h with
  | refl => rfl
  | projects _ ih => rw [seen_projects, ih]
  | included _ ih => rw [seen_included, ih]

theorem Fills.get?_of_ne (h : r.Fills c c') (hne : key.owner ≠ r.rootProject) :
    c'.get? kind key = c.get? kind key := by
  have hkey : ∀ name, key ≠ ⟨r.rootProject, name⟩ := fun name heq => hne (by rw [heq])
  induction h with
  | refl => rfl
  | projects _ ih => exact (Cache.get?_fetch_of_ne (hkey _)).trans ih
  | included _ ih => exact (Cache.get?_fetch_of_ne (hkey _)).trans ih

theorem Fills.keys_subset (h : r.Fills c c') : c.keys ⊆ c'.keys := by
  induction h with
  | refl => exact fun _ hk => hk
  | projects _ ih => exact fun _ hk => Cache.mem_keys_fetch.mpr (.inl (ih hk))
  | included _ ih => exact fun _ hk => Cache.mem_keys_fetch.mpr (.inl (ih hk))

theorem Fills.subset_keys (h : r.Fills c c') :
    c'.keys ⊆ r.projectsKey :: r.includedKey :: c.keys := by
  induction h with
  | refl => exact fun _ hk => .tail _ (.tail _ hk)
  | projects _ ih =>
    intro k hk
    rcases Cache.mem_keys_fetch.mp hk with hk | rfl
    · exact ih hk
    · exact .head _
  | included _ ih =>
    intro k hk
    rcases Cache.mem_keys_fetch.mp hk with hk | rfl
    · exact ih hk
    · exact .tail _ (.head _)

theorem Fills.distinct (h : r.Fills c c') (hc : c.Distinct) : c'.Distinct := by
  induction h with
  | refl => exact hc
  | projects _ ih => exact ih.fetch
  | included _ ih => exact ih.fetch

-- ---------------------------------------------------------------------------
-- Honest caches
-- ---------------------------------------------------------------------------

/-- What is seen of the build through the cache is what the build gives. -/
def Honest (r : Registry) (c : Cache) : Prop :=
  r.seen c = r.lookups

theorem honest_empty : r.Honest .empty := seen_empty

/-- Builds of the same name give the same lookups. -/
def Alike (r r' : Registry) : Prop :=
  r.rootProject = r'.rootProject → r.lookups = r'.lookups

theorem seen_congr (hroot : r.rootProject = r'.rootProject) (h : r.lookups = r'.lookups) :
    r.seen c = r'.seen c := by
  simp only [lookups, Lookups.mk.injEq] at h
  simp only [seen, projectsKey, includedKey, ProjectIndex.projectsKey, ProjectIndex.includedKey,
    hroot, h.1, h.2]

theorem Fills.honest (h : r.Fills c c') (halike : r.Alike r') (hr : r.Honest c)
    (hr' : r'.Honest c) : r'.Honest c' := by
  by_cases hroot : r.rootProject = r'.rootProject
  · have hlookups := halike hroot
    calc r'.seen c'
      _ = r.seen c' := (seen_congr hroot hlookups).symm
      _ = r.seen c := h.seen_eq
      _ = r.lookups := hr
      _ = r'.lookups := hlookups
  · have hprojects : c'.get? .projects r'.projectsKey = c.get? .projects r'.projectsKey :=
      h.get?_of_ne (Ne.symm hroot)
    have hincluded : c'.get? .texts r'.includedKey = c.get? .texts r'.includedKey :=
      h.get?_of_ne (Ne.symm hroot)
    calc r'.seen c'
      _ = r'.seen c := by rw [seen, seen, hprojects, hincluded]
      _ = r'.lookups := hr'

end Registry

-- ---------------------------------------------------------------------------
-- Asking an index
-- ---------------------------------------------------------------------------

namespace ProjectIndex

variable {r : Registry} {c : Cache} {x : Coordinates}

theorem value_projects : (projects ⟨r, c⟩).value.1 = (r.seen c).projects :=
  Cache.value_fetch

theorem value_included : (included ⟨r, c⟩).value.1 = (r.seen c).included :=
  Cache.value_fetch

theorem value_find : (find ⟨r, c⟩ x).value.1 = (r.seen c).find x := by
  simp [find, Lookups.find, value_projects]

theorem fills_find (x : Coordinates) : r.Fills c (find ⟨r, c⟩ x).value.2 :=
  .projects .refl

/-- Included builds are asked only when no project was found. -/
theorem value_contains_eq : (contains ⟨r, c⟩ x).value =
    if ((r.seen c).find x).isSome then (true, (find ⟨r, c⟩ x).value.2)
    else
      let included := (included ⟨r, (find ⟨r, c⟩ x).value.2⟩).value
      (included.1.contains x.gav, included.2) := by
  simp only [contains, Logged.value_bind, value_find]
  split <;> rfl

theorem value_contains : (contains ⟨r, c⟩ x).value.1 = (r.seen c).contains x := by
  rw [value_contains_eq, Lookups.contains]
  split
  · rename_i hfound
    simp [hfound]
  · rename_i hfound
    simp [hfound, value_included, (fills_find x).seen_eq]

theorem fills_contains : r.Fills c (contains ⟨r, c⟩ x).value.2 := by
  rw [value_contains_eq]
  split
  · exact fills_find x
  · exact .included (fills_find x)

end ProjectIndex

end ServerFractions
