import BuildProgress.Proofs.Path

/-!
# Where paths lead

A path leads to a place in the tree along names: `.`, `..` and the targets of links are followed on the
way and do not stay. So its canonical path is the path of that place, and one place does not hold two
things.
-/

namespace BuildProgress.FileTree

set_option autoImplicit false

open BuildProgress.Text BuildProgress.Path

/-- A trail along names. -/
def Named (trail : Trail) : Prop :=
  ∀ name ∈ trail.place, IsName name

/-- If a walk arrives, then along names. -/
def NamedTo : Target → Prop
  | .found trail => Named trail
  | _ => True

/-- The segments are parts of a path. -/
def Split (segments : List (List Char)) : Prop :=
  ∀ segment ∈ segments, '/' ∉ segment

section Walking

variable {tree : FileTree} {trail : Trail} {segment : List Char} {segments : List (List Char)}

theorem Named.tail (h : Named trail) : Named trail.tail := by
  cases trail with
  | nil => exact h
  | cons step trail =>
    obtain ⟨name, node⟩ := step
    unfold Named at h
    rw [Trail.place_cons] at h
    exact (List.forall_mem_append.1 h).1

theorem Named.cons (h : Named trail) (hname : IsName segment) (node : FileNode) :
    Named ((segment, node) :: trail) := by
  unfold Named
  rw [Trail.place_cons, List.forall_mem_append, List.forall_mem_singleton]
  exact ⟨h, hname⟩

theorem Split.append {more : List (List Char)} (h : Split segments) (hmore : Split more) :
    Split (segments ++ more) :=
  List.forall_mem_append.2 ⟨h, hmore⟩

theorem split_splitAll (text : List Char) : Split (splitAll '/' text) :=
  fun _ hin => notMem_splitAll hin

theorem walk_named {follow : Trail → List (List Char) → Target} (hsegments : Split segments)
    (hfollow : ∀ trail segments, Split segments → Named trail → NamedTo (follow trail segments))
    (h : Named trail) : NamedTo (tree.walk follow trail segments) := by
  induction segments generalizing trail with
  | nil => exact h
  | cons segment rest ih =>
    have hslash : '/' ∉ segment := hsegments segment List.mem_cons_self
    have hrest : Split rest := fun other hin => hsegments other (List.mem_cons_of_mem _ hin)
    rcases Bool.eq_false_or_eq_true (tree.atEnd trail).isDirectory with hdir | hfile
    · rcases segment_cases segment with hidle | rfl | hsegment
      · rw [walk_idle hdir hidle]
        exact ih hrest h
      · rw [walk_up hdir]
        exact ih hrest h.tail
      · cases hentry : FileNode.entry? (tree.atEnd trail) segment with
        | none =>
          rw [walk_none hdir hsegment hentry]
          split
          · split <;> trivial
          · trivial
        | some next =>
          by_cases hlink : ∃ target, next = .link target
          · obtain ⟨target, rfl⟩ := hlink
            rw [walk_link hsegment hentry]
            apply hfollow _ _ ((split_splitAll _).append hrest)
            split
            · exact nofun
            · exact h
          · rw [walk_some hsegment hentry (not_exists.1 hlink)]
            exact ih hrest (h.cons ⟨hsegment, hslash⟩ next)
    · rw [walk_file hfile]
      trivial

theorem resolveFrom_named (links : Nat) (hsegments : Split segments) (h : Named trail) :
    NamedTo (tree.resolveFrom links trail segments) := by
  induction links generalizing trail segments with
  | zero => exact walk_named hsegments (fun _ _ _ _ => trivial) h
  | succ links ih => exact walk_named hsegments (fun _ _ hmore h => ih hmore h) h

end Walking

section Lookup

variable {tree : FileTree} {p : Path} {place : Place} {node : FileNode}

theorem start?_named {start : Trail} (h : tree.start? p = some start) : Named start := by
  rcases start?_cases h with ⟨-, rfl⟩ | ⟨-, hworking⟩
  · exact nofun
  · have hnamed : NamedTo (tree.resolveFrom maxLinks [] (splitAll '/' tree.workingDirectory.toList)) :=
      resolveFrom_named _ (split_splitAll _) nofun
    rwa [hworking] at hnamed

theorem resolve_named (tree : FileTree) (p : Path) : NamedTo (tree.resolve p) := by
  unfold resolve resolveIn
  split
  · cases hstart : tree.start? p with
    | some start => exact resolveFrom_named _ (split_splitAll _) (start?_named hstart)
    | none => trivial
  · trivial

/-- What a path leads to stands at its place. -/
theorem lookup_place (h : tree.lookup p = some (place, node)) :
    (∀ name ∈ place, IsName name) ∧ tree.node? place = some node := by
  have hleads := tree.resolve_leads p
  have hnamed := tree.resolve_named p
  unfold lookup at h
  cases hresolve : tree.resolve p with
  | found trail =>
    rw [hresolve] at h hleads hnamed
    cases h
    exact ⟨hnamed, hleads.node?_place⟩
  | vacant trail name =>
    rw [hresolve] at h
    cases h
  | missing =>
    rw [hresolve] at h
    cases h
  | refused =>
    rw [hresolve] at h
    cases h

theorem canonical?_eq (h : tree.lookup p = some (place, node)) :
    tree.canonical? p = some (placePath place) := by
  rw [canonical?, h]
  rfl

theorem exists_lookup_of_isDirectory (h : tree.isDirectory p = true) :
    ∃ place node, tree.lookup p = some (place, node) ∧ node.isDirectory = true := by
  unfold isDirectory at h
  split at h
  · exact ⟨_, _, ‹_›, h⟩
  · cases h

theorem exists_lookup_of_isFile (h : tree.isFile p = true) :
    ∃ place content, tree.lookup p = some (place, .file content) := by
  unfold isFile content? at h
  split at h
  · exact ⟨_, _, ‹_›⟩
  · cases h

end Lookup

end BuildProgress.FileTree
