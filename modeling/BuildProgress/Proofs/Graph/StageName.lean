import BuildProgress.Proofs.Graph.Stages
import BuildProgress.Proofs.Text.Digits
import BuildProgress.Proofs.Text.Lines

/-!
# Names of the vertices of a stage

The name of such a vertex begins with its stage, its number in the stage and how many vertices there
are, between brackets and with blanks to line them up. The stage may itself hold blanks, slashes and
digits, and what follows may hold brackets. Stage and number are read back from every such name, so
that two vertices are sorted among each other exactly if they are of one stage.
-/

namespace BuildProgress

set_option autoImplicit false

open BuildProgress.Text

/-- A name as BuildKit gives it to a vertex of a stage, by its parts. -/
structure StageName where
  stage : List Char
  number : List Char
  total : List Char
  /-- What follows the brackets. -/
  rest : List Char
  /-- The blanks before the stage. -/
  before : Nat
  /-- The blanks between the stage and the number. -/
  between : Nat
  /-- The blanks after the total. -/
  after : Nat
  stage_open : ']' ∉ stage
  stage_begins : ∀ c ∈ stage.head?, isBlank c = false
  stage_ends : ∀ c ∈ stage.getLast?, isBlank c = false
  number_some : number ≠ []
  number_digits : ∀ c ∈ number, isDigit c = true
  total_some : total ≠ []
  total_digits : ∀ c ∈ total, isDigit c = true
  apart : stage ≠ [] → 0 < between

namespace StageName

variable (n : StageName)

def value : Nat :=
  digitsValue n.number

def counter : List Char :=
  n.number ++ '/' :: n.total

/-- What stands between the brackets. -/
def inner : List Char :=
  List.replicate n.before ' ' ++ (n.stage ++ List.replicate n.between ' ' ++ n.counter) ++
    List.replicate n.after ' '

def text : List Char :=
  '[' :: (n.inner ++ ']' :: n.rest)

def name : String :=
  String.ofList n.text

section Counter

theorem mem_counter {c : Char} (h : c ∈ n.counter) : isDigit c = true ∨ c = '/' := by
  rcases List.mem_append.1 h with hnumber | hrest
  · exact .inl (n.number_digits c hnumber)
  · rcases List.mem_cons.1 hrest with hslash | htotal
    · exact .inr hslash
    · exact .inl (n.total_digits c htotal)

theorem notMem_counter {c : Char} (hdigit : isDigit c = false) (hslash : c ≠ '/') :
    c ∉ n.counter := by
  intro h
  rcases n.mem_counter h with hin | hin
  · rw [hin] at hdigit
    cases hdigit
  · exact hslash hin

theorem counter_notBlank : ∀ c ∈ n.counter, isBlank c = false := by
  intro c hc
  rcases n.mem_counter hc with hdigit | rfl
  · exact isBlank_of_isDigit hdigit
  · rfl

/-- The number is what stands before the first slash, if it fits. -/
theorem read_counter : ((splitFirst? '/' n.counter).bind fun (digits, _) => readCount? digits) =
    if n.value ≤ maxUnsigned then some n.value else none := by
  have hslash : '/' ∉ n.number := fun h => absurd (n.number_digits '/' h) (by decide)
  rw [counter, splitFirst?_append hslash, Option.bind_some]
  exact (readCount?_run n.number_digits).trans (readDigits?_run n.number_some n.number_digits)

end Counter

section Inner

theorem trim_stage : trim n.stage = n.stage := by
  apply trim_bare n.stage_begins
  rw [StopsAt, List.head?_reverse]
  exact n.stage_ends

/-- Without a stage, only the counter is left of what stands between the brackets. -/
theorem trim_inner_of_nil (h : n.stage = []) : trim n.inner = n.counter := by
  rw [inner, trim_append_blanks _ (isBlank_of_mem_blanks _), trim_blanks_append (isBlank_of_mem_blanks _), h,
    List.nil_append, trim_blanks_append (isBlank_of_mem_blanks _), trim_of_notBlank n.counter_notBlank]

theorem trim_inner_of_ne (h : n.stage ≠ []) :
    trim n.inner = n.stage ++ List.replicate n.between ' ' ++ n.counter := by
  rw [inner, trim_append_blanks _ (isBlank_of_mem_blanks _), trim_blanks_append (isBlank_of_mem_blanks _)]
  apply trim_bare
  · intro c hc
    rw [List.append_assoc, List.head?_append_of_ne_nil _ h] at hc
    exact n.stage_begins c hc
  · intro c hc
    have hsome : n.counter ≠ [] := by simp [counter]
    rw [List.head?_reverse, List.getLast?_append_of_ne_nil _ hsome] at hc
    exact n.counter_notBlank c (List.mem_of_getLast? hc)

theorem ofBracketed_inner : DisplayClass.ofBracketed (trim n.inner) =
    if n.value ≤ maxUnsigned then .stage n.stage (some n.value) else .stage (trim n.inner) none := by
  have hblank : ' ' ∉ n.counter := n.notMem_counter rfl (by decide)
  by_cases h : n.stage = []
  · rw [DisplayClass.ofBracketed, n.trim_inner_of_nil h, splitLast?_of_notMem hblank, h]
    dsimp only
    rw [n.read_counter]
    by_cases hfits : n.value ≤ maxUnsigned <;> simp [hfits]
  · -- The last blank is the one right before the counter.
    obtain ⟨count, hcount⟩ := Nat.exists_eq_add_of_lt (n.apart h)
    have hlast : trim n.inner = n.stage ++ List.replicate count ' ' ++ ' ' :: n.counter := by
      rw [n.trim_inner_of_ne h, hcount, Nat.zero_add, List.replicate_succ']
      simp
    rw [DisplayClass.ofBracketed, hlast, splitLast?_append _ hblank]
    dsimp only
    rw [n.read_counter, trim_append_blanks _ (isBlank_of_mem_blanks _), n.trim_stage]
    by_cases hfits : n.value ≤ maxUnsigned <;> simp [hfits]

end Inner

theorem notMem_inner : ']' ∉ n.inner := by
  have hblanks (count : Nat) : ']' ∉ List.replicate count ' ' := by
    intro h
    exact absurd (List.eq_of_mem_replicate h) (by decide)
  simp only [inner, List.mem_append, not_or]
  exact ⟨⟨hblanks _, ⟨n.stage_open, hblanks _⟩, n.notMem_counter rfl (by decide)⟩, hblanks _⟩

theorem bracketed?_text : DisplayClass.bracketed? n.text = some n.inner := by
  rw [text, DisplayClass.bracketed?, splitFirst?_append n.notMem_inner]
  rfl

/-- There is a slash between the brackets, so that the name is none of BuildKit's own. -/
theorem not_internal : DisplayClass.internalMark.toList.isPrefixOf n.text = false := by
  rw [Bool.eq_false_iff]
  intro hinternal
  obtain ⟨more, hmore⟩ := List.isPrefixOf_iff_prefix.1 hinternal
  have hbracketed : DisplayClass.bracketed? n.text = some "internal".toList := by
    rw [← hmore]
    rfl
  rw [n.bracketed?_text, Option.some.injEq] at hbracketed
  have hslash : '/' ∈ n.inner := by simp [inner, counter]
  rw [hbracketed] at hslash
  exact absurd hslash (by decide)

theorem name_ne_exportName : n.name ≠ DisplayClass.exportName := by
  intro h
  have hhead := congrArg (fun s => s.toList.head?) h
  simp [name, text, DisplayClass.exportName] at hhead

/-- A vertex of such a name is of the stage and has the number. A number that does not fit is none, and
then all that stands between the brackets is the stage. -/
theorem ofName_name : DisplayClass.ofName n.name =
    if n.value ≤ maxUnsigned then .stage n.stage (some n.value) else .stage (trim n.inner) none := by
  rw [DisplayClass.ofName, if_neg n.name_ne_exportName, name, String.toList_ofList, n.not_internal,
    n.bracketed?_text]
  exact n.ofBracketed_inner

example : DisplayClass.ofName "[ build/2 os   007/10 ] RUN [a 1/2]" =
    .stage "build/2 os".toList (some 7) := by decide

end StageName

section Groups

variable {display : List Entry} {stage : List Char} {p : Nat} {e : Entry}

theorem mem_stageSlots_iff (hp : display[p]? = some e) :
    p ∈ stageSlots display stage ↔ e.stage? = some stage := by
  obtain ⟨hlt, _⟩ := List.getElem?_eq_some_iff.1 hp
  rw [stageSlots, List.mem_filter, List.mem_range, List.getD_eq_getElem?_getD, hp, Option.getD_some]
  simp [hlt]

/-- Sorting the stages leaves each stage its places, and there the records of the stage stand by number. -/
theorem stage_sorted_in_place (display : List Entry) (stage : List Char) :
    stageSlots (sortStages display) stage = stageSlots display stage ∧
    ((sortStages display).filter (·.stage? == some stage)).Perm
      (display.filter (·.stage? == some stage)) ∧
    ((sortStages display).filter (·.stage? == some stage)).Pairwise fun e d =>
      e.stepKey ≤ d.stepKey := by
  rw [sortStages_stage]
  exact ⟨stageSlots_congr (sortStages_kinds display) stage, sortBy_perm _ _, sortBy_sorted _ _⟩

theorem displayClass_of_named {n : StageName} (hname : e.vertex.name = n.name)
    (hfits : n.value ≤ maxUnsigned) : e.displayClass = .stage n.stage (some n.value) := by
  rw [Entry.displayClass, hname, n.ofName_name, if_pos hfits]

/-- Every name of a vertex of a stage is classified by its stage and, if it fits 64 bits, its number. So
two vertices with such numbers have places in one group exactly if their stages are equal; and each group
is sorted by number in its own places. -/
theorem stage_names_grouped (display : List Entry) :
    (∀ n : StageName, DisplayClass.ofName n.name =
      if n.value ≤ maxUnsigned then .stage n.stage (some n.value)
      else .stage (trim n.inner) none) ∧
    (∀ (n m : StageName) (p q : Nat) (e d : Entry), display[p]? = some e → display[q]? = some d →
      e.vertex.name = n.name → d.vertex.name = m.name →
      n.value ≤ maxUnsigned → m.value ≤ maxUnsigned →
      e.stepKey = n.value ∧ d.stepKey = m.value ∧
        ((∃ stage, p ∈ stageSlots display stage ∧ q ∈ stageSlots display stage) ↔
          n.stage = m.stage)) ∧
    ∀ stage, stageSlots (sortStages display) stage = stageSlots display stage ∧
      ((sortStages display).filter (·.stage? == some stage)).Perm
        (display.filter (·.stage? == some stage)) ∧
      ((sortStages display).filter (·.stage? == some stage)).Pairwise fun e d =>
        e.stepKey ≤ d.stepKey := by
  refine ⟨StageName.ofName_name, ?_, stage_sorted_in_place display⟩
  intro n m p q e d hp hq he hd hn hm
  have heclass := displayClass_of_named he hn
  have hdclass := displayClass_of_named hd hm
  refine ⟨by rw [Entry.stepKey, heclass]; rfl, by rw [Entry.stepKey, hdclass]; rfl, ?_⟩
  simp only [mem_stageSlots_iff hp, mem_stageSlots_iff hq, Entry.stage?, heclass, hdclass,
    DisplayClass.stage?, Option.some.injEq]
  constructor
  · rintro ⟨stage, hnstage, hmstage⟩
    rw [hnstage, hmstage]
  · intro h
    exact ⟨m.stage, h, rfl⟩

end Groups

end BuildProgress
