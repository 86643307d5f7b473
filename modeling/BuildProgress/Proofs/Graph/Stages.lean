import BuildProgress.Graph.Slots
import BuildProgress.Proofs.Graph.Sorting
import BuildProgress.Proofs.Graph.Worklist

/-!
# What sorting the stages does

Sorting the stages keeps the stage of every place and the records without a stage; and the records of
each stage are sorted by step number. That is all there is to it: two lists of which this holds are
equal. So it makes no difference whether the records are dealt from one queue or the stages are sorted
one after the other, and in which order the stages are taken.
-/

namespace BuildProgress

set_option autoImplicit false

section Dealing

variable (places queue : List Entry)

theorem dealStages_map {β : Type} {f : Entry → β}
    (hf : ∀ e d stage, e.stage? = some stage → d.stage? = some stage → f e = f d) :
    (dealStages queue places).map f = places.map f := by
  induction places generalizing queue with
  | nil => rfl
  | cons e places ih =>
    rw [dealStages]
    cases hstage : e.stage? with
    | none => simp only [List.map_cons, ih]
    | some stage =>
      dsimp only
      cases htake : takeFirst? (fun q => q.stage? == some stage) queue with
      | none => simp only [List.map_cons, ih]
      | some taken =>
        have hnext : taken.1.stage? = some stage := by simpa using (takeFirst?_split htake).1
        simp only [List.map_cons, ih, hf _ _ stage hnext hstage]

theorem dealStages_unstaged : (dealStages queue places).filter (·.stage? == none) =
    places.filter (·.stage? == none) := by
  induction places generalizing queue with
  | nil => rfl
  | cons e places ih =>
    rw [dealStages]
    cases hstage : e.stage? with
    | none => simpa [hstage] using ih queue
    | some stage =>
      dsimp only
      cases htake : takeFirst? (fun q => q.stage? == some stage) queue with
      | none => simpa [hstage] using ih queue
      | some taken =>
        have hnext : taken.1.stage? = some stage := by simpa using (takeFirst?_split htake).1
        simpa [hstage, hnext] using ih taken.2

/-- The places of a stage get the records of the stage in the order of the queue. -/
theorem dealStages_stage {stage : List Char}
    (hcount : stageCount stage queue = stageCount stage places) :
    (dealStages queue places).filter (·.stage? == some stage) =
      queue.filter (·.stage? == some stage) := by
  induction places generalizing queue with
  | nil =>
    have hnone := List.countP_eq_zero.mp hcount
    rw [dealStages, List.filter_nil, List.filter_eq_nil_iff.mpr hnone]
  | cons e places ih =>
    rw [dealStages]
    cases hstage : e.stage? with
    | none =>
      have hrest : stageCount stage queue = stageCount stage places := by
        simpa [stageCount, hstage] using hcount
      simp [hstage, ih queue hrest]
    | some place =>
      dsimp only
      cases htake : takeFirst? (fun q => q.stage? == some place) queue with
      | none =>
        have hne : place ≠ stage := by
          rintro rfl
          have hzero : stageCount place queue = 0 :=
            List.countP_eq_zero.mpr fun q hq => by simpa using takeFirst?_eq_none htake q hq
          rw [hzero] at hcount
          simp [stageCount, hstage] at hcount
        have hrest : stageCount stage queue = stageCount stage places := by
          simpa [stageCount, hstage, hne] using hcount
        simp [hstage, hne, ih queue hrest]
      | some taken =>
        obtain ⟨next, later⟩ := taken
        obtain ⟨hnext, before, after, rfl, rfl, hbefore⟩ := takeFirst?_split htake
        have hnext' : next.stage? = some place := by simpa using hnext
        have hrest : stageCount stage (before ++ after) = stageCount stage places := by
          by_cases hsame : place = stage
          · simp [stageCount, hstage, hnext', hsame] at hcount ⊢
            omega
          · simpa [stageCount, hstage, hnext', hsame] using hcount
        simp only [List.filter_cons, ih _ hrest, List.filter_append]
        by_cases hsame : place = stage
        · have hnone : before.filter (fun e => e.stage? == some stage) = [] :=
            List.filter_eq_nil_iff.mpr fun q hq => by simpa [hsame] using hbefore q hq
          simp [hnext', hsame, hnone]
        · simp [hnext', hsame]

end Dealing

section Sorting

variable (display : List Entry)

theorem sortStages_kinds : (sortStages display).map Entry.stage? = display.map Entry.stage? :=
  dealStages_map display _ fun _ _ _ he hd => he.trans hd.symm

theorem sortStages_unstaged : (sortStages display).filter (·.stage? == none) =
    display.filter (·.stage? == none) :=
  dealStages_unstaged display _

theorem sortStages_stage (stage : List Char) :
    (sortStages display).filter (·.stage? == some stage) =
      sortBy Entry.stepKey (display.filter (·.stage? == some stage)) := by
  have hcount := (sortBy_perm Entry.stepKey display).countP_eq (·.stage? == some stage)
  rw [sortStages, dealStages_stage display _ hcount, filter_sortBy]

end Sorting

section Slots

variable {stage : List Char} {display members : List Entry}

theorem stageSlots_cons (e : Entry) (display : List Entry) (stage : List Char) :
    stageSlots (e :: display) stage =
      (if e.stage? == some stage then [0] else []) ++ (stageSlots display stage).map (· + 1) := by
  unfold stageSlots
  rw [List.length_cons, List.range_succ_eq_map, List.filter_cons, List.filter_map]
  cases hstage : e.stage? == some stage with
  | false => simp [hstage, Function.comp_def]
  | true => simp [hstage, Function.comp_def]

theorem stageSlots_congr {other : List Entry}
    (h : other.map Entry.stage? = display.map Entry.stage?) (stage : List Char) :
    stageSlots other stage = stageSlots display stage := by
  have hkinds (xs : List Entry) (p : Nat) :
      (xs.getD p default).stage? = (xs.map Entry.stage?).getD p (default : Entry).stage? := by
    rw [List.getD_eq_getElem?_getD, List.getD_eq_getElem?_getD, List.getElem?_map, Option.getD_map]
  have hlen : other.length = display.length := by simpa using congrArg List.length h
  simp only [stageSlots, hkinds, h, hlen]

theorem stageSlots_map (display : List Entry) (stage : List Char) :
    (stageSlots display stage).map (fun p => display.getD p default) =
      display.filter (·.stage? == some stage) := by
  conv => rhs; rw [← Worklist.map_range_getD display default]
  rw [List.filter_map]
  rfl

theorem fillSlots_later (e : Entry) (display : List Entry) (slots : List Nat)
    (members : List Entry) : fillSlots (e :: display) (slots.map (· + 1)) members =
      e :: fillSlots display slots members := by
  induction slots generalizing display members with
  | nil => rfl
  | cons slot slots ih =>
    cases members with
    | nil => rfl
    | cons m ms => exact ih (display.set slot m) ms

theorem fillSlots_stage {e m : Entry} (h : e.stage? = some stage) (display ms : List Entry) :
    fillSlots (e :: display) (stageSlots (e :: display) stage) (m :: ms) =
      m :: fillSlots display (stageSlots display stage) ms := by
  rw [stageSlots_cons, if_pos (by simp [h])]
  exact fillSlots_later m display (stageSlots display stage) ms

theorem fillSlots_other {e : Entry} (h : e.stage? ≠ some stage) (display members : List Entry) :
    fillSlots (e :: display) (stageSlots (e :: display) stage) members =
      e :: fillSlots display (stageSlots display stage) members := by
  rw [stageSlots_cons, if_neg (by simp [h]), List.nil_append]
  exact fillSlots_later e display (stageSlots display stage) members

/-- What replaces the records of a stage has the places of the stage, and nothing else is moved. -/
theorem fillSlots_kinds (hmembers : ∀ m ∈ members, m.stage? = some stage)
    (hlen : members.length = stageCount stage display) :
    let filled := fillSlots display (stageSlots display stage) members
    filled.map Entry.stage? = display.map Entry.stage? ∧
      filled.filter (·.stage? == some stage) = members ∧
      ∀ k, k ≠ some stage → filled.filter (·.stage? == k) = display.filter (·.stage? == k) := by
  induction display generalizing members with
  | nil =>
    obtain rfl : members = [] := List.eq_nil_of_length_eq_zero hlen
    exact ⟨rfl, rfl, fun _ _ => rfl⟩
  | cons e display ih =>
    by_cases hstage : e.stage? = some stage
    · cases members with
      | nil => simp [stageCount, hstage] at hlen
      | cons m ms =>
        obtain ⟨hm, hms⟩ := List.forall_mem_cons.mp hmembers
        obtain ⟨hkinds, hsame, hother⟩ := ih hms (by simpa [stageCount, hstage] using hlen)
        rw [fillSlots_stage hstage]
        refine ⟨?_, ?_, ?_⟩
        · simp only [List.map_cons, hkinds, hm, hstage]
        · simp only [List.filter_cons, hm, beq_self_eq_true, if_true, hsame]
        · intro k hk
          have hne : (some stage == k) = false := by simpa using Ne.symm hk
          simp [hm, hstage, hne, hother k hk]
    · obtain ⟨hkinds, hsame, hother⟩ := ih hmembers (by simpa [stageCount, hstage] using hlen)
      rw [fillSlots_other hstage]
      refine ⟨?_, ?_, ?_⟩
      · simp only [List.map_cons, hkinds]
      · simp [hstage, hsame]
      · intro k hk
        simp only [List.filter_cons, hother k hk]

/-- The records of some stages have been sorted in a list, and nothing else was moved. -/
structure SortedIn (done : List (List Char)) (display current : List Entry) : Prop where
  kinds : current.map Entry.stage? = display.map Entry.stage?
  sorted : ∀ stage ∈ done, current.filter (·.stage? == some stage) =
    sortBy Entry.stepKey (display.filter (·.stage? == some stage))
  kept : ∀ k, (∀ stage ∈ done, k ≠ some stage) →
    current.filter (·.stage? == k) = display.filter (·.stage? == k)

namespace SortedIn

variable {done : List (List Char)} {current : List Entry}

theorem initial (display : List Entry) : SortedIn [] display display :=
  ⟨rfl, by simp, fun _ _ => rfl⟩

theorem sortSlots (h : SortedIn done display current) (stage : List Char) :
    SortedIn (done ++ [stage]) display (sortSlots current (stageSlots display stage)) := by
  let members := sortBy Entry.stepKey (current.filter (·.stage? == some stage))
  have hperm : members.Perm (current.filter (·.stage? == some stage)) := sortBy_perm _ _
  have hmembers : ∀ m ∈ members, m.stage? = some stage := fun m hm => by
    simpa using (List.mem_filter.mp (hperm.mem_iff.mp hm)).2
  have hlen : members.length = stageCount stage current := by
    rw [hperm.length_eq, stageCount, List.countP_eq_length_filter]
  obtain ⟨hkinds, hsame, hother⟩ := fillSlots_kinds hmembers hlen
  have heq : BuildProgress.sortSlots current (stageSlots display stage) =
      fillSlots current (stageSlots current stage) members := by
    rw [← stageSlots_congr h.kinds, BuildProgress.sortSlots, stageSlots_map]
  -- A stage that is sorted once more stays as it is.
  have hmembers_eq : members = sortBy Entry.stepKey (display.filter (·.stage? == some stage)) := by
    by_cases hdone : stage ∈ done
    · have hsorted := h.sorted stage hdone
      simp only [members, hsorted]
      exact sortBy_of_sorted (sortBy_sorted _ _)
    · have hkept := h.kept (some stage) fun other hother heq => hdone (Option.some.inj heq ▸ hother)
      simp only [members, hkept]
  rw [heq]
  refine ⟨hkinds.trans h.kinds, ?_, ?_⟩
  · intro other hin
    by_cases hne : other = stage
    · rw [hne, hsame, hmembers_eq]
    · have hdone : other ∈ done := by simpa [hne] using hin
      rw [hother _ (by simpa using hne), h.sorted other hdone]
  · intro k hk
    have hne : k ≠ some stage := hk stage (by simp)
    rw [hother k hne, h.kept k fun other hin => hk other (List.mem_append_left _ hin)]

theorem sortAll (h : SortedIn done display current) (stages : List (List Char)) :
    SortedIn (done ++ stages) display
      ((stages.map (stageSlots display)).foldl BuildProgress.sortSlots current) := by
  induction stages generalizing done current with
  | nil => simpa using h
  | cons stage stages ih => simpa using ih (h.sortSlots stage)

end SortedIn

/-- Sorting stage by stage, in any order of the stages, is dealing from one queue. -/
theorem sortStagesIn_eq {stages : List (List Char)}
    (hstages : ∀ e ∈ display, ∀ stage, e.stage? = some stage → stage ∈ stages) :
    sortStagesIn stages display = sortStages display := by
  have h : SortedIn stages display (sortStagesIn stages display) :=
    (SortedIn.initial display).sortAll stages
  apply eq_of_kinds (h.kinds.trans (sortStages_kinds display).symm)
  intro k
  cases k with
  | none => rw [h.kept none (by simp), sortStages_unstaged]
  | some stage =>
    rw [sortStages_stage]
    by_cases hin : stage ∈ stages
    · exact h.sorted stage hin
    · have hnone : display.filter (·.stage? == some stage) = [] := by
        apply List.filter_eq_nil_iff.mpr
        intro e he hstage
        exact hin (hstages e he stage (by simpa using hstage))
      rw [h.kept (some stage) fun other hother heq => hin (Option.some.inj heq ▸ hother), hnone]
      rfl

end Slots

section Display

theorem rank_of_stage? {e : Entry} {stage : List Char} (h : e.stage? = some stage) : e.rank = 2 := by
  unfold Entry.stage? at h
  unfold Entry.rank
  cases hclass : e.displayClass with
  | stage => rfl
  | internal | unprefixed | exporting =>
    rw [hclass] at h
    cases h

theorem rank_of_isStaged {e : Entry} (h : e.isStaged = true) : e.rank = 2 := by
  obtain ⟨stage, hstage⟩ := Option.isSome_iff_exists.mp h
  exact rank_of_stage? hstage

variable (vertices : List Vertex)

theorem displayList_sorted : (displayList vertices).Pairwise fun e d => e.rank ≤ d.rank := by
  have hranks : (displayList vertices).map Entry.rank =
      (sortBy Entry.rank (entries vertices)).map Entry.rank :=
    dealStages_map _ _ fun e d stage he hd => (rank_of_stage? he).trans (rank_of_stage? hd).symm
  rw [← List.pairwise_map, hranks, List.pairwise_map]
  exact sortBy_sorted Entry.rank (entries vertices)

/-- The records of a class other than that of the stages are shown as they come. -/
theorem displayList_class {kind : DisplayClass} (hkind : kind.stage? = none) :
    (displayList vertices).filter (·.displayClass = kind) =
      (entries vertices).filter (·.displayClass = kind) := by
  have hunstaged (xs : List Entry) : xs.filter (fun e => e.displayClass = kind) =
      (xs.filter (·.stage? == none)).filter (fun e => e.displayClass = kind) := by
    rw [List.filter_filter]
    apply List.filter_congr
    intro e _
    by_cases he : e.displayClass = kind
    · have hnone : e.stage? = none := by rw [Entry.stage?, he, hkind]
      simp [hnone]
    · simp [he]
  rw [hunstaged, displayList, sortStages_unstaged, ← hunstaged]
  apply filter_sortBy_of_key (k := kind.rank)
  intro e he
  rw [Entry.rank, of_decide_eq_true he]

/-- The stages of the records come as in the batch. -/
theorem displayList_stages : ((displayList vertices).filter Entry.isStaged).map Entry.stage? =
    ((entries vertices).filter Entry.isStaged).map Entry.stage? := by
  have hkinds (xs : List Entry) :
      (xs.filter Entry.isStaged).map Entry.stage? = (xs.map Entry.stage?).filter Option.isSome :=
    List.filter_map.symm
  rw [hkinds, displayList, sortStages_kinds, ← hkinds,
    filter_sortBy_of_key (k := 2) fun e => rank_of_isStaged]

/-- The records of a stage are sorted by step number. -/
theorem displayList_stage (stage : List Char) :
    (displayList vertices).filter (·.stage? == some stage) =
      sortBy Entry.stepKey ((entries vertices).filter (·.stage? == some stage)) := by
  rw [displayList, sortStages_stage, filter_sortBy_of_key (k := 2)]
  exact fun e he => rank_of_stage? (by simpa using he)

end Display

end BuildProgress
