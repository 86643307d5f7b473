import BuildProgress.Proofs.Canonical
import BuildProgress.Submission

/-!
# The Dockerfile lies in its context

A request that was checked names its context and its Dockerfile by canonical paths, and the Dockerfile
lies below the context: as the components go, which is more than that the one text begins with the
other. So the two ways in which the builders are told of the Dockerfile come to the same: by its path
from the context, and by its directory and its name.
-/

namespace BuildProgress

set_option autoImplicit false

open BuildProgress.Text BuildProgress.Path FileTree

namespace Path

theorem startsWith_iff (p base : Path) :
    p.startsWith base = true ↔ base.components <+: p.components := by
  rw [startsWith, componentsAfter?, List.isSome_isPrefixOf?_eq_isPrefixOf,
    List.isPrefixOf_iff_prefix]

section Places

variable {place other : Place}

/-- The one path begins with the other if the one place is below the other or the same. -/
theorem components_prefix_iff (h : ∀ name ∈ place, IsName name) (hother : ∀ name ∈ other, IsName name) :
    (placePath place).components <+: (placePath other).components ↔ place <+: other := by
  have hinj : Function.Injective Component.name := fun _ _ heq => Component.name.inj heq
  rw [components_placePath h, components_placePath hother, List.prefix_cons_inj,
    List.prefix_map_iff_of_injective hinj]

/-- In the text of a path below another a slash comes after the text of the other. -/
theorem eq_of_no_slash {more : List Char} (h : place <+: other) (hplace : place ≠ [])
    (hmore : (placePath other).toList = (placePath place).toList ++ more)
    (hslash : more.head? ≠ some '/') : other = place := by
  obtain ⟨below, rfl⟩ := h
  by_cases hbelow : below = []
  · rw [hbelow, List.append_nil]
  · rw [toList_placePath, toList_placePath, joinSegments_append hplace hbelow, List.cons_append,
      List.cons.injEq, List.append_cancel_left_eq] at hmore
    rw [← hmore.2] at hslash
    exact absurd rfl hslash

end Places

end Path

namespace Request

/-- The Dockerfile lies below the context, and is found again from there and from its directory. -/
structure Contained (r : Request) : Prop where
  extends_context : r.context.components <+: r.dockerfile.components
  apart : r.dockerfile.components ≠ r.context.components
  from_context : r.context.join r.dockerfileInContext = r.dockerfile
  from_directory : r.dockerfileDirectory.join r.dockerfileName = r.dockerfile
  relative : Path.isAbsolute r.dockerfileInContext = false
  plain : ∀ c ∈ Path.components r.dockerfileInContext, c ≠ .here ∧ c ≠ .up
  /-- Nor is there a `.` that would not count as a component. -/
  spelled : ∀ segment ∈ splitAll '/' r.dockerfileInContext.toList,
    segment ≠ [] ∧ segment ≠ ['.'] ∧ segment ≠ ['.', '.']

section Places

variable {r : Request} {place below : Place}

theorem dockerfileInContext_eq (hcontext : r.context = placePath place)
    (hdockerfile : r.dockerfile = placePath (place ++ below))
    (hnames : ∀ name ∈ place ++ below, IsName name) :
    r.dockerfileInContext = String.ofList (joinSegments below) := by
  have hplace := (List.forall_mem_append.1 hnames).1
  have hafter : r.dockerfile.componentsAfter? r.context = some (below.map .name) := by
    rw [componentsAfter?, hcontext, hdockerfile, components_placePath hplace,
      components_placePath hnames, List.map_append, ← List.cons_append]
    exact List.isPrefixOf?_eq_some_iff_append_eq.2 rfl
  have hid : Component.text ∘ Component.name = id := rfl
  rw [dockerfileInContext, hafter, Option.getD_some, joinComponents, List.map_map, hid, List.map_id]

theorem join_dockerfileName (hdockerfile : r.dockerfile = placePath (place ++ below))
    (hnames : ∀ name ∈ place ++ below, IsName name) (hbelow : below ≠ []) :
    r.dockerfileDirectory.join r.dockerfileName = r.dockerfile := by
  obtain ⟨before, name, rfl⟩ := (List.eq_nil_or_concat below).resolve_left hbelow
  rw [List.concat_eq_append, ← List.append_assoc] at hdockerfile hnames
  rw [dockerfileDirectory, dockerfileName, hdockerfile, parent?_placePath hnames,
    fileName?_placePath hnames, Option.getD_some, Option.getD_some]
  have hjoin := join_placePath hnames (List.cons_ne_nil name [])
  rwa [joinSegments_singleton] at hjoin

/-- A request for a Dockerfile at a place below the context. -/
theorem contained_of_places (hcontext : r.context = placePath place)
    (hdockerfile : r.dockerfile = placePath (place ++ below))
    (hnames : ∀ name ∈ place ++ below, IsName name) (hbelow : below ≠ []) : r.Contained := by
  obtain ⟨hplace, hinside⟩ := List.forall_mem_append.1 hnames
  have hseen := dockerfileInContext_eq hcontext hdockerfile hnames
  constructor
  · rw [hcontext, hdockerfile, components_prefix_iff hplace hnames]
    exact List.prefix_append place below
  · intro heq
    have hback : place ++ below <+: place := by
      rw [← components_prefix_iff hnames hplace, ← hcontext, ← hdockerfile]
      exact heq ▸ List.prefix_rfl
    have hlength := hback.length_le
    rw [List.length_append] at hlength
    apply hbelow
    apply List.eq_nil_of_length_eq_zero
    omega
  · rw [hseen, hcontext, hdockerfile]
    exact join_placePath hnames hbelow
  · exact join_dockerfileName hdockerfile hnames hbelow
  · rw [hseen]
    exact isAbsolute_joinSegments hinside
  · rw [hseen, components_joinSegments hinside]
    intro c hin
    obtain ⟨name, -, rfl⟩ := List.mem_map.1 hin
    exact ⟨nofun, nofun⟩
  · rw [hseen, String.toList_ofList, splitAll_joinSegments (fun _ hin => (hinside _ hin).slash) hbelow]
    exact fun name hin => (hinside name hin).spelled

end Places

/-- Both builders are told of the Dockerfile: the one that gets the context by its path from there, and
the one that fetches it over a session by its name in the directory of the session. -/
structure Told (r : Request) : Prop where
  legacy : ∀ config host, ∃ context, (Submission.legacy r config host).context = some context ∧
    context.join (Submission.legacy r config host).dockerfile = r.dockerfile
  buildKit : ∀ node id buildId config host,
    let session := Session.ofRequest r node id
    session.context = r.context ∧ session.dockerfileDirectory.join
      (Submission.buildKit r session buildId config host).dockerfile = r.dockerfile

theorem Contained.told {r : Request} (h : r.Contained) : r.Told where
  legacy _ _ := ⟨r.context, rfl, h.from_context⟩
  buildKit _ _ _ _ _ := ⟨rfl, h.from_directory⟩

end Request

namespace Draft

variable {tree : FileTree} {d : Draft} {r : Request} {place other : Place} {node : FileNode}
  {content : List UInt8}

/-- What a check comes to if the context and the Dockerfile are there. -/
theorem check_eq (hcontext : tree.lookup d.context = some (place, node))
    (hdirectory : node.isDirectory = true)
    (hdockerfile : tree.lookup (d.dockerfilePath (placePath place)) = some (other, .file content)) :
    d.check tree =
      if (placePath place).components <+: (placePath other).components then
        .ok { toRequestOptions := d.toRequestOptions, context := placePath place
              dockerfile := placePath other }
      else .error (.invalidRequest (.dockerfileOutside (placePath other) (placePath place))) := by
  have hisDirectory : tree.isDirectory d.context = true := by
    rw [isDirectory, hcontext]
    exact hdirectory
  have hisFile : tree.isFile (d.dockerfilePath (placePath place)) = true := by
    rw [isFile, content?, hdockerfile]
    rfl
  have hfirst : d.checkContext tree = .ok (placePath place) := by
    rw [checkContext, hisDirectory, canonical?_eq hcontext]
    rfl
  rw [check, hfirst]
  simp only [bind, Except.bind]
  rw [checkDockerfile, hisFile, canonical?_eq hdockerfile]
  simp only [Bool.not_true, Bool.false_eq_true, if_false, ← startsWith_iff]
  by_cases hstarts : (placePath other).startsWith (placePath place) = true
  · rw [if_pos hstarts, if_pos hstarts]
  · rw [if_neg hstarts, if_neg hstarts]

/-- A check that succeeds found a directory and a file. -/
theorem places_of_check (h : d.check tree = .ok r) :
    ∃ place node other content, tree.lookup d.context = some (place, node) ∧
      node.isDirectory = true ∧
      tree.lookup (d.dockerfilePath (placePath place)) = some (other, .file content) := by
  by_cases hdirectory : tree.isDirectory d.context = true
  · obtain ⟨place, node, hcontext, hnode⟩ := exists_lookup_of_isDirectory hdirectory
    by_cases hfile : tree.isFile (d.dockerfilePath (placePath place)) = true
    · obtain ⟨other, content, hdockerfile⟩ := exists_lookup_of_isFile hfile
      exact ⟨place, node, other, content, hcontext, hnode, hdockerfile⟩
    · simp [check, checkContext, checkDockerfile, hdirectory, canonical?_eq hcontext, hfile, bind,
        Except.bind] at h
  · simp [check, checkContext, hdirectory, bind, Except.bind] at h

/-- One place does not hold a directory and a file. -/
theorem place_ne (hcontext : tree.lookup d.context = some (place, node))
    (hdirectory : node.isDirectory = true)
    (hdockerfile : tree.lookup (d.dockerfilePath (placePath place)) = some (other, .file content)) :
    other ≠ place := by
  rintro rfl
  have hnode := (lookup_place hcontext).2
  rw [(lookup_place hdockerfile).2] at hnode
  cases hnode
  cases hdirectory

theorem contained_of_check (h : d.check tree = .ok r) :
    tree.canonical? d.context = some r.context ∧
      tree.canonical? (d.dockerfilePath r.context) = some r.dockerfile ∧ r.Contained := by
  obtain ⟨place, node, other, content, hcontext, hdirectory, hdockerfile⟩ := places_of_check h
  have hnames := (lookup_place hdockerfile).1
  rw [check_eq hcontext hdirectory hdockerfile] at h
  split at h
  next hprefix =>
    cases h
    refine ⟨canonical?_eq hcontext, canonical?_eq hdockerfile, ?_⟩
    obtain ⟨below, rfl⟩ := (components_prefix_iff (lookup_place hcontext).1 hnames).1 hprefix
    apply Request.contained_of_places rfl rfl hnames
    rintro rfl
    exact place_ne hcontext hdirectory hdockerfile (List.append_nil place)
  next => cases h

/-- The parts of a check, once it is known where the paths lead. -/
theorem lookups_of_canonical? {context dockerfile : Path} (hdirectory : tree.isDirectory d.context = true)
    (hcontext : tree.canonical? d.context = some context)
    (hfile : tree.isFile (d.dockerfilePath context) = true)
    (hdockerfile : tree.canonical? (d.dockerfilePath context) = some dockerfile) :
    ∃ place node other content, tree.lookup d.context = some (place, node) ∧
      node.isDirectory = true ∧ context = placePath place ∧
      tree.lookup (d.dockerfilePath (placePath place)) = some (other, .file content) ∧
      dockerfile = placePath other := by
  obtain ⟨place, node, hplace, hnode⟩ := exists_lookup_of_isDirectory hdirectory
  rw [canonical?_eq hplace, Option.some.injEq] at hcontext
  subst hcontext
  obtain ⟨other, content, hother⟩ := exists_lookup_of_isFile hfile
  rw [canonical?_eq hother, Option.some.injEq] at hdockerfile
  exact ⟨place, node, other, content, hplace, hnode, rfl, hother, hdockerfile.symm⟩

/-- A draft that passes its check becomes a request whose Dockerfile is contained in its context, and
no other Dockerfile passes: not even one whose path continues the text of the path of the context, if
it does so without a slash. -/
theorem check_containment (tree : FileTree) (d : Draft) :
    (∀ r, d.check tree = .ok r → tree.canonical? d.context = some r.context ∧
      tree.canonical? (d.dockerfilePath r.context) = some r.dockerfile ∧ r.Contained ∧ r.Told) ∧
    ∀ context dockerfile, tree.isDirectory d.context = true →
      tree.canonical? d.context = some context →
      tree.isFile (d.dockerfilePath context) = true →
      tree.canonical? (d.dockerfilePath context) = some dockerfile →
      (context.components <+: dockerfile.components →
        d.check tree = .ok { toRequestOptions := d.toRequestOptions, context, dockerfile }) ∧
      (¬ context.components <+: dockerfile.components →
        d.check tree = .error (.invalidRequest (.dockerfileOutside dockerfile context))) ∧
      ∀ more, context ≠ "/" → dockerfile.toList = context.toList ++ more → more.head? ≠ some '/' →
        d.check tree = .error (.invalidRequest (.dockerfileOutside dockerfile context)) := by
  constructor
  · intro r h
    obtain ⟨hcontext, hdockerfile, hcontained⟩ := contained_of_check h
    exact ⟨hcontext, hdockerfile, hcontained, hcontained.told⟩
  · intro context dockerfile hdirectory hcontext hfile hdockerfile
    obtain ⟨place, node, other, content, hplace, hnode, rfl, hother, rfl⟩ :=
      lookups_of_canonical? hdirectory hcontext hfile hdockerfile
    have hcheck := check_eq hplace hnode hother
    refine ⟨?_, ?_, ?_⟩
    · intro hprefix
      rw [hcheck, if_pos hprefix]
    · intro hapart
      rw [hcheck, if_neg hapart]
    · intro more hroot hmore hslash
      rw [hcheck, if_neg]
      rw [components_prefix_iff (lookup_place hplace).1 (lookup_place hother).1]
      intro hprefix
      have hsome : place ≠ [] := by
        rintro rfl
        exact hroot rfl
      exact place_ne hplace hnode hother (eq_of_no_slash hprefix hsome hmore hslash)

/-- A directory, a link to it, and beside it a directory whose name begins with its name. -/
def siblings : FileTree where
  root := .directory [("w".toList, .directory [
    ("app".toList, .directory [("docker".toList, .directory [("Dockerfile".toList, .file [])])]),
    ("app-old".toList, .directory [("Dockerfile".toList, .file [])]),
    ("current".toList, .link "app")])]

/-- The Dockerfile, reached through the link. -/
def throughLink : Draft :=
  { context := "/w/current/docker/..", dockerfile := some "./docker//Dockerfile" }

/-- A directory below the working directory, which is itself named by a link. -/
def belowCurrent : Draft :=
  { context := "./docker" }

/-- The Dockerfile of the directory beside the context. -/
def beside : Draft :=
  { context := "/w/app", dockerfile := some "../app-old/Dockerfile" }

theorem check_containment_siblings :
    (∃ r, throughLink.check siblings = .ok r ∧ r.context = "/w/app" ∧
      r.dockerfileInContext = "docker/Dockerfile" ∧ r.Contained ∧ r.Told) ∧
    (∃ r, belowCurrent.check { siblings with workingDirectory := "/w/current" } = .ok r ∧
      r.context = "/w/app/docker" ∧ r.dockerfileInContext = "Dockerfile" ∧ r.Contained ∧ r.Told) ∧
    beside.check siblings =
      .error (.invalidRequest (.dockerfileOutside "/w/app-old/Dockerfile" "/w/app")) := by
  refine ⟨?_, ?_, ?_⟩
  · have haccepts := (check_containment siblings throughLink).2 "/w/app" "/w/app/docker/Dockerfile"
      (by decide +kernel) (by decide +kernel) (by decide +kernel) (by decide +kernel)
    have hcheck := haccepts.1 (by decide +kernel)
    obtain ⟨-, -, hcontained, htold⟩ := (check_containment siblings throughLink).1 _ hcheck
    exact ⟨_, hcheck, rfl, by decide +kernel, hcontained, htold⟩
  · let tree : FileTree := { siblings with workingDirectory := "/w/current" }
    have haccepts := (check_containment tree belowCurrent).2 "/w/app/docker"
      "/w/app/docker/Dockerfile" (by decide +kernel) (by decide +kernel) (by decide +kernel)
      (by decide +kernel)
    have hcheck := haccepts.1 (by decide +kernel)
    obtain ⟨-, -, hcontained, htold⟩ := (check_containment tree belowCurrent).1 _ hcheck
    exact ⟨_, hcheck, rfl, by decide +kernel, hcontained, htold⟩
  · have hrejects := (check_containment siblings beside).2 "/w/app" "/w/app-old/Dockerfile"
      (by decide +kernel) (by decide +kernel) (by decide +kernel) (by decide +kernel)
    exact hrejects.2.2 "-old/Dockerfile".toList (by decide) (by decide +kernel) (by decide +kernel)

end Draft

end BuildProgress
