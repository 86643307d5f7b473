import BuildProgress.Proofs.FileTree
import BuildProgress.Proofs.Text.Lines
import Mathlib.Data.List.Basic

/-!
# The path of a place

The canonical path of a place is a slash and the names that lead to it, with slashes between them. Its
components are the root and these names, so that it can be taken apart at any of them and put together
again.
-/

namespace BuildProgress.Path

set_option autoImplicit false

open BuildProgress.Text FileTree

/-- A segment that is the name of something: it holds no slash, and is neither empty nor `.` nor
`..`. -/
structure IsName (segment : List Char) : Prop where
  entry : IsEntry segment
  slash : '/' ∉ segment

section Segments

variable {names before after : List (List Char)} {name : List Char}

theorem joinSegments_singleton (name : List Char) : joinSegments [name] = name :=
  rfl

theorem joinSegments_cons (h : after ≠ []) :
    joinSegments (name :: after) = name ++ '/' :: joinSegments after := by
  obtain ⟨next, rest, rfl⟩ := List.exists_cons_of_ne_nil h
  rfl

theorem joinSegments_append (hbefore : before ≠ []) (hafter : after ≠ []) :
    joinSegments (before ++ after) = joinSegments before ++ '/' :: joinSegments after := by
  induction before with
  | nil => exact absurd rfl hbefore
  | cons name before ih =>
    cases before with
    | nil => exact joinSegments_cons hafter
    | cons next before =>
      rw [List.cons_append, joinSegments_cons (by simp), ih (by simp),
        joinSegments_cons (List.cons_ne_nil next before), List.append_assoc, List.cons_append]

theorem splitAll_joinSegments (h : ∀ name ∈ names, '/' ∉ name) (hsome : names ≠ []) :
    splitAll '/' (joinSegments names) = names := by
  induction names with
  | nil => exact absurd rfl hsome
  | cons name names ih =>
    rw [List.forall_mem_cons] at h
    cases names with
    | nil => simp [joinSegments, splitAll, stretches_of_notMem h.1]
    | cons next names =>
      have hrest := ih h.2 (List.cons_ne_nil next names)
      unfold splitAll at hrest ⊢
      rw [joinSegments_cons (List.cons_ne_nil next names), stretches_line h.1]
      exact congrArg (name :: ·) hrest

theorem not_isIdle (h : IsName name) : (!isIdle name) = true := by
  rw [h.entry.1]
  rfl

/-- What the names are read as from a text in which they are joined. -/
theorem filter_splitAll (h : ∀ name ∈ names, IsName name) :
    (splitAll '/' (joinSegments names)).filter (!isIdle ·) = names := by
  cases names with
  | nil => rfl
  | cons name names =>
    rw [splitAll_joinSegments (fun _ hin => (h _ hin).slash) (List.cons_ne_nil name names)]
    exact List.filter_eq_self.2 fun other hin => not_isIdle (h other hin)

theorem map_component (h : ∀ name ∈ names, IsName name) :
    names.map component = names.map .name := by
  apply List.map_congr_left
  intro name hin
  rw [component, if_neg (h name hin).entry.2]

/-- A name is none of the segments that say nothing or go up. -/
theorem IsName.spelled (h : IsName name) : name ≠ [] ∧ name ≠ ['.'] ∧ name ≠ ['.', '.'] := by
  refine ⟨?_, ?_, h.entry.2⟩
  · intro hnil
    cases hnil ▸ h.entry.1
  · intro hdot
    cases hdot ▸ h.entry.1

theorem IsName.ne_nil (h : IsName name) : name ≠ [] :=
  h.spelled.1

/-- A text that begins with a name has no head of its own. -/
theorem splitHead_name (h : IsName name) (rest : List Char) :
    splitHead (name ++ rest) = ([], name ++ rest) := by
  obtain ⟨c, more, rfl⟩ := List.exists_cons_of_ne_nil h.ne_nil
  have hslash : c ≠ '/' ∧ '/' ∉ more := by
    simpa [eq_comm] using h.slash
  have hdot : ¬ (c = '.' ∧ more = []) := by
    rintro ⟨rfl, rfl⟩
    exact h.spelled.2.1 rfl
  unfold splitHead
  split
  · rename_i heq
    exact absurd (List.cons.inj heq).1 hslash.1
  · rename_i heq
    obtain ⟨hc, hnil⟩ := List.cons.inj heq
    exact absurd ⟨hc, (List.append_eq_nil_iff.1 hnil).1⟩ hdot
  · rename_i heq
    obtain ⟨hc, hmore⟩ := List.cons.inj heq
    cases more with
    | nil => exact absurd ⟨hc, rfl⟩ hdot
    | cons d more =>
      rw [(List.cons.inj hmore).1] at hslash
      exact absurd List.mem_cons_self hslash.2
  · rfl

theorem exists_joinSegments_cons (name : List Char) (names : List (List Char)) :
    ∃ rest, joinSegments (name :: names) = name ++ rest := by
  cases names with
  | nil => exact ⟨[], (List.append_nil name).symm⟩
  | cons next names => exact ⟨_, rfl⟩

theorem splitHead_joinSegments (h : ∀ name ∈ names, IsName name) :
    splitHead (joinSegments names) = ([], joinSegments names) := by
  cases names with
  | nil => rfl
  | cons name names =>
    obtain ⟨rest, hrest⟩ := exists_joinSegments_cons name names
    rw [hrest]
    exact splitHead_name (h name List.mem_cons_self) rest

theorem splitHead_slash (rest : List Char) : splitHead ('/' :: rest) = (['/'], rest) :=
  rfl

theorem components_joinSegments (h : ∀ name ∈ names, IsName name) :
    components (String.ofList (joinSegments names)) = names.map .name := by
  unfold components
  rw [String.toList_ofList, splitHead_joinSegments h]
  dsimp only
  rw [filter_splitAll h, map_component h]
  rfl

theorem components_placePath (h : ∀ name ∈ names, IsName name) :
    components (placePath names) = .root :: names.map .name := by
  unfold components placePath
  rw [String.toList_ofList, splitHead_slash]
  dsimp only
  rw [filter_splitAll h, map_component h]
  rfl

theorem fileName?_placePath (h : ∀ other ∈ before ++ [name], IsName other) :
    fileName? (placePath (before ++ [name])) = some (String.ofList name) := by
  unfold fileName?
  rw [components_placePath h, List.map_append, List.map_singleton, ← List.cons_append,
    List.getLast?_concat]

theorem dropIdle_of_names (h : ∀ name ∈ names, IsName name) : dropIdle names = names := by
  unfold dropIdle
  cases hlast : names.reverse with
  | nil => exact (List.reverse_eq_nil_iff.1 hlast).symm
  | cons last rest =>
    have hname : IsName last := h last (List.mem_reverse.1 (hlast ▸ List.mem_cons_self))
    rw [List.dropWhile_cons_of_neg (by simp [hname.entry.1]), ← hlast, List.reverse_reverse]

theorem parent?_placePath (h : ∀ other ∈ before ++ [name], IsName other) :
    parent? (placePath (before ++ [name])) = some (placePath before) := by
  have hbefore := (List.forall_mem_append.1 h).1
  unfold parent? placePath
  rw [String.toList_ofList, splitHead_slash]
  dsimp only
  rw [splitAll_joinSegments (fun other hin => (h other hin).slash) (by simp), dropIdle_of_names h,
    List.reverse_concat]
  dsimp only
  rw [List.reverse_reverse, dropIdle_of_names hbefore, List.singleton_append]

theorem isAbsolute_joinSegments (h : ∀ name ∈ names, IsName name) :
    isAbsolute (String.ofList (joinSegments names)) = false := by
  unfold isAbsolute
  rw [String.toList_ofList, beq_eq_false_iff_ne]
  intro hhead
  obtain ⟨rest, hrest⟩ := List.head?_eq_some_iff.1 hhead
  have hsplit := splitHead_joinSegments h
  rw [hrest, splitHead_slash] at hsplit
  cases hsplit

theorem toList_placePath (names : Place) : (placePath names).toList = '/' :: joinSegments names :=
  String.toList_ofList

/-- Of the paths of places only that of the root ends with a slash. -/
theorem getLast?_placePath (h : ∀ name ∈ names, IsName name) :
    (placePath names).toList.getLast? = some '/' ↔ names = [] := by
  rw [toList_placePath]
  rcases List.eq_nil_or_concat names with rfl | ⟨before, name, rfl⟩
  · exact ⟨fun _ => rfl, fun _ => rfl⟩
  · rw [List.concat_eq_append] at h ⊢
    have hname : IsName name := h name (by simp)
    obtain ⟨start, hstart⟩ : ∃ start, joinSegments (before ++ [name]) = start ++ name := by
      cases before with
      | nil => exact ⟨[], rfl⟩
      | cons first before =>
        refine ⟨joinSegments (first :: before) ++ ['/'], ?_⟩
        rw [joinSegments_append (by simp) (by simp), List.append_assoc]
        rfl
    rw [hstart, ← List.cons_append, List.getLast?_append_of_ne_nil _ hname.ne_nil]
    constructor
    · exact fun hlast => absurd (List.mem_of_getLast? hlast) hname.slash
    · simp

theorem toList_join {p q : Path} (hp : p ≠ "") (hq : isAbsolute q = false) :
    (join p q).toList =
      p.toList ++ (if p.toList.getLast? = some '/' then [] else ['/']) ++ q.toList := by
  unfold join
  rw [if_neg (by simp [hq])]
  by_cases hlast : p.toList.getLast? = some '/'
  · simp [hlast]
  · simp [hlast, hp]

/-- A path is put together again where it was taken apart. -/
theorem join_placePath (h : ∀ name ∈ before ++ after, IsName name) (hafter : after ≠ []) :
    join (placePath before) (String.ofList (joinSegments after)) = placePath (before ++ after) := by
  obtain ⟨hbefore, hnames⟩ := List.forall_mem_append.1 h
  have hrelative := isAbsolute_joinSegments hnames
  have hsome : placePath before ≠ "" := by
    rw [← String.toList_inj.ne, toList_placePath]
    exact List.cons_ne_nil _ _
  rw [← String.toList_inj, toList_join hsome hrelative, toList_placePath, toList_placePath,
    String.toList_ofList]
  have hlast := getLast?_placePath hbefore
  rw [toList_placePath] at hlast
  by_cases hroot : before = []
  · rw [if_pos (hlast.2 hroot), hroot]
    rfl
  · rw [if_neg (mt hlast.1 hroot), joinSegments_append hroot hafter]
    simp

end Segments

end BuildProgress.Path
