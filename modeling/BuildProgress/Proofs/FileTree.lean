import BuildProgress.FileTree
import Mathlib.Tactic.SplitIfs

/-!
# What is written to a file is read from it

A path leads to the same place after a file was written there: the directories and the links on the way
are the same ones, and at the end stands the file with what was written. So the content of the file is
what was written, through whichever links the path goes.
-/

namespace BuildProgress

set_option autoImplicit false

open BuildProgress.Text

namespace FileNode

theorem isDirectory_of_entry? {node next : FileNode} {name : List Char}
    (h : node.entry? name = some next) : node.isDirectory = true := by
  cases node with
  | directory => rfl
  | file | link => cases h

theorem isDirectory_of_node? {node below : FileNode} {place : Place}
    (h : node.node? place = some below) (hplace : place ≠ []) : node.isDirectory = true := by
  obtain ⟨name, rest, rfl⟩ := List.exists_cons_of_ne_nil hplace
  rw [node?] at h
  cases hentry : node.entry? name with
  | none =>
    rw [hentry] at h
    cases h
  | some next => exact isDirectory_of_entry? hentry

theorem find?_setEntry (name other : List Char) (new : FileNode)
    (entries : List (List Char × FileNode)) :
    (setEntry name new entries).find? (·.1 = other) =
      if other = name then some (name, new) else entries.find? (·.1 = other) := by
  induction entries with
  | nil =>
    by_cases hname : other = name
    · simp [setEntry, hname]
    · simp [setEntry, hname, Ne.symm hname]
  | cons entry entries ih =>
    obtain ⟨first, old⟩ := entry
    rw [setEntry]
    by_cases hfirst : first = name
    · by_cases hname : other = name
      · simp [hfirst, hname]
      · simp [hfirst, hname, Ne.symm hname]
    · rw [if_neg hfirst, List.find?_cons, ih]
      by_cases hother : first = other
      · have hname : other ≠ name := hother ▸ hfirst
        simp [hother, hname]
      · simp [hother]

theorem entry?_put (new : FileNode) (name other : List Char) (rest : Place) (node : FileNode) :
    entry? (put new (name :: rest) node) other =
      if other = name then some (put new rest ((node.entry? name).getD (.directory [])))
      else node.entry? other := by
  rw [put, entry?, entries, find?_setEntry]
  split_ifs <;> rfl

theorem node?_append (node : FileNode) (place rest : Place) :
    node.node? (place ++ rest) = (node.node? place).bind (·.node? rest) := by
  induction place generalizing node with
  | nil => rfl
  | cons name place ih =>
    rw [List.cons_append, node?, node?]
    cases node.entry? name with
    | none => rfl
    | some next => exact ih next

end FileNode

theorem Trail.place_cons (name : List Char) (node : FileNode) (trail : Trail) :
    Trail.place ((name, node) :: trail) = trail.place ++ [name] := by
  simp [Trail.place]

namespace FileTree

open FileNode

section Leading

variable {tree : FileTree} {trail : Trail}

/-- A trail leads down a tree: each of its nodes is an entry of the one before. -/
def Leads (tree : FileTree) : Trail → Prop
  | [] => True
  | (name, node) :: trail => FileNode.entry? (tree.atEnd trail) name = some node ∧ Leads tree trail

theorem Leads.tail (h : tree.Leads trail) : tree.Leads trail.tail := by
  cases trail with
  | nil => trivial
  | cons => exact h.2

theorem Leads.node?_place (h : tree.Leads trail) :
    tree.node? trail.place = some (tree.atEnd trail) := by
  induction trail with
  | nil => rfl
  | cons step trail ih =>
    obtain ⟨name, node⟩ := step
    obtain ⟨hentry, hleads⟩ := h
    have hplace : tree.root.node? (Trail.place trail) = some (tree.atEnd trail) := ih hleads
    rw [Trail.place_cons, FileTree.node?, node?_append, hplace, Option.bind_some, FileNode.node?,
      hentry]
    rfl

/-- What stands at the end of a trail stands below every place on the way to it. -/
theorem Leads.node?_below {other : Trail} {below : Place} (h : tree.Leads trail)
    (hother : tree.Leads other) (hplace : trail.place = other.place ++ below) :
    (tree.atEnd other).node? below = some (tree.atEnd trail) := by
  have hnode := h.node?_place
  have hbefore : tree.root.node? other.place = some (tree.atEnd other) := hother.node?_place
  rwa [hplace, FileTree.node?, node?_append, hbefore, Option.bind_some] at hnode

/-- What is known of the place where a walk ends. -/
def LeadsTo (tree : FileTree) : Target → Prop
  | .found trail => tree.Leads trail
  | .vacant trail name =>
    tree.Leads trail ∧ (tree.atEnd trail).isDirectory = true ∧
      FileNode.entry? (tree.atEnd trail) name = none
  | .missing | .refused => True

variable {follow : Trail → List (List Char) → Target} {segment : List Char}
  {rest : List (List Char)}

theorem walk_file (h : (tree.atEnd trail).isDirectory = false) :
    tree.walk follow trail (segment :: rest) = .refused := by
  simp [walk, h]

theorem walk_idle (h : (tree.atEnd trail).isDirectory = true) (hidle : Path.isIdle segment = true) :
    tree.walk follow trail (segment :: rest) = tree.walk follow trail rest := by
  simp [walk, h, hidle]

theorem walk_up (h : (tree.atEnd trail).isDirectory = true) :
    tree.walk follow trail (['.', '.'] :: rest) = tree.walk follow trail.tail rest := by
  simp [walk, h, Path.isIdle]

/-- A segment that is the name of something, or could be. -/
def IsEntry (segment : List Char) : Prop :=
  Path.isIdle segment = false ∧ segment ≠ ['.', '.']

theorem segment_cases (segment : List Char) :
    Path.isIdle segment = true ∨ segment = ['.', '.'] ∨ IsEntry segment := by
  rcases Bool.eq_false_or_eq_true (Path.isIdle segment) with hidle | hidle
  · exact .inl hidle
  · by_cases hup : segment = ['.', '.']
    · exact .inr (.inl hup)
    · exact .inr (.inr ⟨hidle, hup⟩)

theorem walk_none (h : (tree.atEnd trail).isDirectory = true) (hsegment : IsEntry segment)
    (hentry : FileNode.entry? (tree.atEnd trail) segment = none) :
    tree.walk follow trail (segment :: rest) =
      if isName segment then if rest = [] then .vacant trail segment else .missing
      else .refused := by
  cases hname : isName segment <;> simp [walk, h, hsegment.1, hsegment.2, hentry, hname]

theorem walk_link {target : String} (hsegment : IsEntry segment)
    (hentry : FileNode.entry? (tree.atEnd trail) segment = some (.link target)) :
    tree.walk follow trail (segment :: rest) =
      follow (if Path.isAbsolute target then [] else trail)
        (splitAll '/' target.toList ++ rest) := by
  simp [walk, isDirectory_of_entry? hentry, hsegment.1, hsegment.2, hentry]

theorem walk_some {next : FileNode} (hsegment : IsEntry segment)
    (hentry : FileNode.entry? (tree.atEnd trail) segment = some next)
    (hnext : ∀ target, next ≠ .link target) :
    tree.walk follow trail (segment :: rest) = tree.walk follow ((segment, next) :: trail) rest := by
  cases next with
  | link target => exact absurd rfl (hnext target)
  | directory | file =>
    simp [walk, isDirectory_of_entry? hentry, hsegment.1, hsegment.2, hentry]

theorem walk_leads (segments : List (List Char))
    (hfollow : ∀ trail segments, tree.Leads trail → tree.LeadsTo (follow trail segments))
    (h : tree.Leads trail) : tree.LeadsTo (tree.walk follow trail segments) := by
  induction segments generalizing trail with
  | nil => exact h
  | cons segment rest ih =>
    rcases Bool.eq_false_or_eq_true (tree.atEnd trail).isDirectory with hdir | hfile
    · rcases segment_cases segment with hidle | rfl | hsegment
      · rw [walk_idle hdir hidle]
        exact ih h
      · rw [walk_up hdir]
        exact ih h.tail
      · cases hentry : FileNode.entry? (tree.atEnd trail) segment with
        | none =>
          rw [walk_none hdir hsegment hentry]
          split_ifs
          · exact ⟨h, hdir, hentry⟩
          · trivial
          · trivial
        | some next =>
          by_cases hlink : ∃ target, next = .link target
          · obtain ⟨target, rfl⟩ := hlink
            rw [walk_link hsegment hentry]
            refine hfollow _ _ ?_
            split_ifs
            · trivial
            · exact h
          · rw [walk_some hsegment hentry (not_exists.1 hlink)]
            exact ih ⟨hentry, h⟩
    · rw [walk_file hfile]
      trivial

theorem resolveFrom_leads (links : Nat) (segments : List (List Char)) (h : tree.Leads trail) :
    tree.LeadsTo (tree.resolveFrom links trail segments) := by
  induction links generalizing trail segments with
  | zero => exact walk_leads segments (fun _ _ _ => trivial) h
  | succ links ih => exact walk_leads segments (fun _ segments h => ih segments h) h

end Leading

section Writing

/-- What stands at a place after another node was put at a target: the node itself with the new one
put below it, or the same node if the target is not below it. -/
def Replaced (target : Place) (new : FileNode) (place : Place) (old later : FileNode) : Prop :=
  (∃ rest, target = place ++ rest ∧ later = FileNode.put new rest old) ∨
    ¬ place <+: target ∧ later = old

/-- Trails along the same names before and after a node was put at a target. -/
inductive Follows (target : Place) (new : FileNode) : Trail → Trail → Prop where
  | nil : Follows target new [] []
  | cons {trail trail' : Trail} {name : List Char} {node node' : FileNode}
      (h : Follows target new trail trail')
      (hnode : Replaced target new (trail.place ++ [name]) node node') :
      Follows target new ((name, node) :: trail) ((name, node') :: trail')

/-- What may be written to: on the way to the target there are only directories, and at the target
there is a file or nothing. -/
def Writable (tree : FileTree) (target : Place) : Prop :=
  ∀ trail rest, tree.Leads trail → target = trail.place ++ rest →
    (rest = [] → ∃ content, tree.atEnd trail = .file content) ∧
      (rest ≠ [] → (tree.atEnd trail).isDirectory = true)

variable {tree : FileTree} {target : Place} {new : FileNode} {trail trail' : Trail}

theorem Follows.tail (h : Follows target new trail trail') :
    Follows target new trail.tail trail'.tail := by
  cases h with
  | nil => exact .nil
  | cons h _ => exact h

theorem Follows.atEnd (tree : FileTree) (h : Follows target new trail trail') :
    Replaced target new trail.place (tree.atEnd trail) ((tree.put target new).atEnd trail') := by
  cases h with
  | nil => exact .inl ⟨target, rfl, rfl⟩
  | cons h hnode =>
    rw [Trail.place_cons]
    exact hnode

section Entries

variable {place : Place} {old later next : FileNode} {name : List Char}

theorem Replaced.isDirectory (h : Replaced target new place old later)
    (hold : old.isDirectory = true) (hplace : target ≠ place) : later.isDirectory = true := by
  rcases h with ⟨rest, htarget, rfl⟩ | ⟨-, rfl⟩
  · cases rest with
    | nil => exact absurd (by simpa using htarget) hplace
    | cons => rfl
  · exact hold

theorem Replaced.entry_some (h : Replaced target new place old later) (hplace : target ≠ place)
    (hentry : old.entry? name = some next) :
    ∃ next', later.entry? name = some next' ∧ Replaced target new (place ++ [name]) next next' := by
  rcases h with ⟨rest, htarget, rfl⟩ | ⟨hapart, rfl⟩
  · cases rest with
    | nil => exact absurd (by simpa using htarget) hplace
    | cons first rest =>
      rw [entry?_put]
      split_ifs with hname
      · subst hname
        refine ⟨_, rfl, .inl ⟨rest, by simpa using htarget, ?_⟩⟩
        rw [hentry, Option.getD_some]
      · refine ⟨next, hentry, .inr ⟨?_, rfl⟩⟩
        rintro ⟨more, hmore⟩
        rw [htarget, List.append_assoc] at hmore
        exact hname (List.cons.inj (List.append_cancel_left hmore)).1
  · refine ⟨next, hentry, .inr ⟨fun hprefix => hapart ?_, rfl⟩⟩
    exact (List.prefix_append place [name]).trans hprefix

theorem Replaced.eq_new (h : Replaced target new target old later) : later = new := by
  rcases h with ⟨rest, hrest, rfl⟩ | ⟨hapart, -⟩
  · rw [List.self_eq_append_right.1 hrest]
    rfl
  · exact absurd List.prefix_rfl hapart

theorem Replaced.ne_link (h : Replaced target new place old later)
    (hold : ∀ link, old ≠ .link link) (hnew : ∀ link, new ≠ .link link) :
    ∀ link, later ≠ .link link := by
  rcases h with ⟨rest, -, rfl⟩ | ⟨-, rfl⟩
  · cases rest with
    | nil => exact hnew
    | cons => exact nofun
  · exact hold

/-- Where there was nothing stands the new node. -/
theorem Replaced.entry?_target (h : Replaced target new place old later)
    (htarget : target = place ++ [name]) : later.entry? name = some new := by
  rcases h with ⟨rest, hrest, rfl⟩ | ⟨hapart, -⟩
  · obtain rfl : [name] = rest := List.append_cancel_left (htarget.symm.trans hrest)
    rw [entry?_put, if_pos rfl]
    rfl
  · exact absurd ⟨[name], htarget.symm⟩ hapart

end Entries

/-- A link on the way stays as it is. -/
theorem Writable.link_eq {link : String} {name : List Char} {next : FileNode}
    (hwritable : Writable tree target) (hleads : tree.Leads trail)
    (hentry : FileNode.entry? (tree.atEnd trail) name = some (.link link))
    (h : Replaced target new (trail.place ++ [name]) (.link link) next) : next = .link link := by
  rcases h with ⟨rest, hrest, -⟩ | ⟨-, h⟩
  · have hstep : tree.Leads ((name, .link link) :: trail) := ⟨hentry, hleads⟩
    obtain ⟨hfile, hdirectory⟩ := hwritable _ rest hstep (by rwa [Trail.place_cons])
    by_cases hsome : rest = []
    · obtain ⟨content, hcontent⟩ := hfile hsome
      cases hcontent
    · cases hdirectory hsome
  · exact h

/-- A directory is not the target itself. -/
theorem Writable.ne_place (hwritable : Writable tree target) (hleads : tree.Leads trail)
    (hdir : (tree.atEnd trail).isDirectory = true) : target ≠ trail.place := by
  intro htarget
  obtain ⟨content, hcontent⟩ := (hwritable trail [] hleads (by simpa using htarget)).1 rfl
  rw [hcontent] at hdir
  cases hdir

/-- Where a walk arrives after a node was put at a target, given where it arrived before. -/
def Arrives (target : Place) (new : FileNode) (before after : Target) : Prop :=
  match before with
  | .found trail => ∃ trail', after = .found trail' ∧ Follows target new trail trail'
  | .vacant trail name => target = trail.place ++ [name] →
    ∃ trail', after = .found ((name, new) :: trail')
  | .missing | .refused => True

/-- A walk goes the same way after a node was put at a target. -/
theorem walk_put {follow follow' : Trail → List (List Char) → Target}
    (hwritable : Writable tree target) (segments : List (List Char))
    (hfollow : ∀ trail trail' segments, tree.Leads trail → Follows target new trail trail' →
      Arrives target new (follow trail segments) (follow' trail' segments))
    (hnew : ∀ link, new ≠ .link link) (hleads : tree.Leads trail)
    (h : Follows target new trail trail') :
    Arrives target new (tree.walk follow trail segments)
      ((tree.put target new).walk follow' trail' segments) := by
  induction segments generalizing trail trail' with
  | nil => exact ⟨trail', rfl, h⟩
  | cons segment rest ih =>
    rcases Bool.eq_false_or_eq_true (tree.atEnd trail).isDirectory with hdir | hfile
    · have hplace := hwritable.ne_place hleads hdir
      have hend := h.atEnd tree
      have hdir' := hend.isDirectory hdir hplace
      rcases segment_cases segment with hidle | rfl | hsegment
      · rw [walk_idle hdir hidle, walk_idle hdir' hidle]
        exact ih hleads h
      · rw [walk_up hdir, walk_up hdir']
        exact ih hleads.tail h.tail
      · cases hentry : FileNode.entry? (tree.atEnd trail) segment with
        | none =>
          rw [walk_none hdir hsegment hentry]
          split_ifs with _ hrest
          · intro htarget
            -- The walk ended where the new node stands now.
            have hentry' := hend.entry?_target htarget
            rw [walk_some hsegment hentry' hnew, hrest]
            exact ⟨trail', rfl⟩
          · trivial
          · trivial
        | some next =>
          obtain ⟨next', hentry', hnext⟩ := hend.entry_some hplace hentry
          by_cases hlink : ∃ link, next = .link link
          · obtain ⟨link, rfl⟩ := hlink
            rw [hwritable.link_eq hleads hentry hnext] at hentry'
            rw [walk_link hsegment hentry, walk_link hsegment hentry']
            split_ifs
            · exact hfollow _ _ _ trivial .nil
            · exact hfollow _ _ _ hleads h
          · have hnext' := hnext.ne_link (not_exists.1 hlink) hnew
            rw [walk_some hsegment hentry (not_exists.1 hlink), walk_some hsegment hentry' hnext']
            exact ih ⟨hentry, hleads⟩ (.cons h hnext)
    · rw [walk_file hfile]
      trivial

theorem resolveFrom_put (hwritable : Writable tree target) (hnew : ∀ link, new ≠ .link link)
    (links : Nat) (segments : List (List Char)) (hleads : tree.Leads trail)
    (h : Follows target new trail trail') :
    Arrives target new (tree.resolveFrom links trail segments)
      ((tree.put target new).resolveFrom links trail' segments) := by
  induction links generalizing trail trail' segments with
  | zero => exact walk_put hwritable segments (fun _ _ _ _ _ => trivial) hnew hleads h
  | succ links ih =>
    exact walk_put hwritable segments (fun _ _ segments hleads h => ih segments hleads h) hnew hleads h

end Writing

section Content

variable {tree : FileTree} {trail : Trail}

theorem writable_of_file {content : List UInt8} (h : tree.Leads trail)
    (hfile : tree.atEnd trail = .file content) : Writable tree trail.place := by
  intro other rest hother htarget
  have hnode := h.node?_below hother htarget
  refine ⟨fun hrest => ⟨content, ?_⟩, isDirectory_of_node? hnode⟩
  rw [hrest, hfile] at hnode
  exact Option.some.inj hnode

theorem writable_of_vacant {name : List Char} (h : tree.Leads trail)
    (hdir : (tree.atEnd trail).isDirectory = true)
    (hentry : FileNode.entry? (tree.atEnd trail) name = none) :
    Writable tree (trail.place ++ [name]) := by
  intro other rest hother htarget
  rcases List.eq_nil_or_concat rest with rfl | ⟨before, last, rfl⟩
  · -- Nothing leads to the place.
    have hnode := hother.node?_below h (htarget.trans (List.append_nil _)).symm
    rw [FileNode.node?, hentry] at hnode
    cases hnode
  · rw [List.concat_eq_append, ← List.append_assoc] at htarget
    have hplace := (List.append_inj' htarget rfl).1
    have hnode := h.node?_below hother hplace
    refine ⟨fun hrest => absurd hrest (by simp), fun _ => ?_⟩
    by_cases hbefore : before = []
    · rw [hbefore] at hnode
      rw [Option.some.inj hnode]
      exact hdir
    · exact isDirectory_of_node? hnode hbefore

section Starting

variable {p : Path} {start : Trail}

theorem start?_cases (h : tree.start? p = some start) :
    Path.isAbsolute p = true ∧ start = [] ∨
      Path.isAbsolute p = false ∧
        tree.resolveFrom maxLinks [] (splitAll '/' tree.workingDirectory.toList) = .found start := by
  unfold start? at h
  split at h
  case isTrue habsolute => exact .inl ⟨habsolute, (Option.some.inj h).symm⟩
  case isFalse hrelative =>
    refine .inr ⟨by simpa using hrelative, ?_⟩
    split at h
    case h_1 trail hworking => exact Option.some.inj h ▸ hworking
    case h_2 => cases h

theorem start?_leads (h : tree.start? p = some start) : tree.Leads start := by
  rcases start?_cases h with ⟨-, rfl⟩ | ⟨-, hworking⟩
  · trivial
  · have hleads : tree.LeadsTo (.found start) := hworking ▸ resolveFrom_leads _ _ trivial
    exact hleads

/-- The working directory is the same one after a node was put at a target. -/
theorem start?_put {target : Place} {new : FileNode} (hwritable : Writable tree target)
    (hnew : ∀ link, new ≠ .link link) (h : tree.start? p = some start) :
    ∃ start', (tree.put target new).start? p = some start' ∧ Follows target new start start' := by
  rcases start?_cases h with ⟨habsolute, rfl⟩ | ⟨hrelative, hworking⟩
  · exact ⟨[], if_pos habsolute, .nil⟩
  · have harrives : Arrives target new (.found start) ((tree.put target new).resolveFrom maxLinks []
        (splitAll '/' tree.workingDirectory.toList)) :=
      hworking ▸ resolveFrom_put hwritable hnew _ _ trivial .nil
    obtain ⟨start', hworking', hfollows⟩ := harrives
    refine ⟨start', ?_, hfollows⟩
    have hsame : (tree.put target new).workingDirectory = tree.workingDirectory := rfl
    rw [start?, hrelative, if_neg Bool.false_ne_true, hsame, hworking']

end Starting

theorem resolve_leads (tree : FileTree) (p : Path) : tree.LeadsTo (tree.resolve p) := by
  unfold resolve resolveIn
  split_ifs
  · cases hstart : tree.start? p with
    | some start => exact resolveFrom_leads _ _ (start?_leads hstart)
    | none => trivial
  · trivial

theorem resolve_put {target : Place} (new : FileNode) (hwritable : Writable tree target)
    (hnew : ∀ link, new ≠ .link link) (p : Path) :
    Arrives target new (tree.resolve p) ((tree.put target new).resolve p) := by
  unfold resolve resolveIn
  split_ifs
  · cases hstart : tree.start? p with
    | some start =>
      obtain ⟨start', hstart', hfollows⟩ := start?_put hwritable hnew hstart
      rw [hstart']
      exact resolveFrom_put hwritable hnew _ _ (start?_leads hstart) hfollows
    | none => trivial
  · trivial

/-- A file has the content that was written to it, by the same path. -/
theorem content?_of_write? {later : FileTree} {p : Path} {content : List UInt8}
    (h : tree.write? p content = some later) : later.content? p = some content := by
  have hleads := tree.resolve_leads p
  rw [write?] at h
  cases hresolve : tree.resolve p with
  | missing | refused =>
    rw [hresolve] at h
    cases h
  | found trail =>
    rw [hresolve] at h hleads
    cases hend : tree.atEnd trail with
    | directory | link =>
      simp only [hend] at h
      cases h
    | file old =>
      simp only [hend, Option.some.injEq] at h
      have harrives := resolve_put (.file content) (writable_of_file hleads hend) nofun p
      rw [hresolve, h] at harrives
      obtain ⟨trail', hlater, hfollows⟩ := harrives
      have hnode := (hfollows.atEnd tree).eq_new
      rw [h] at hnode
      rw [content?, lookup, hlater]
      simp only [hnode]
  | vacant trail name =>
    rw [hresolve] at h hleads
    obtain ⟨hleads, hdir, hentry⟩ := hleads
    have harrives := resolve_put (.file content) (writable_of_vacant hleads hdir hentry) nofun p
    rw [hresolve] at harrives
    obtain ⟨trail', hlater⟩ := harrives rfl
    rw [Option.some.inj h] at hlater
    rw [content?, lookup, hlater]
    rfl

end Content

end FileTree

end BuildProgress
