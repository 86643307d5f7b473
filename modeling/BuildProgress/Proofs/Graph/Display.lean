import BuildProgress.Graph.Display
import Mathlib.Data.List.Nodup
import Mathlib.Data.List.Perm.Basic

/-!
# The display list loses nothing

Sorting by class and dealing the records of each stage to the places of the stage only move records:
the display list of a batch is a permutation of its records.
-/

namespace BuildProgress

set_option autoImplicit false

variable {α : Type}

theorem insertBy_perm (key : α → Nat) (x : α) (xs : List α) : (insertBy key x xs).Perm (x :: xs) := by
  induction xs with
  | nil => exact .refl _
  | cons y ys ih =>
    unfold insertBy
    split
    · exact .refl _
    · exact (ih.cons y).trans (.swap x y ys)

theorem sortBy_perm (key : α → Nat) (xs : List α) : (sortBy key xs).Perm xs := by
  induction xs with
  | nil => exact .refl _
  | cons x xs ih => exact (insertBy_perm key x _).trans (ih.cons x)

theorem takeFirst?_eq_none {p : α → Bool} {xs : List α} (h : takeFirst? p xs = none) :
    ∀ x ∈ xs, p x = false := by
  induction xs with
  | nil => simp
  | cons x xs ih =>
    unfold takeFirst? at h
    split at h
    · cases h
    · rename_i hx
      intro y hy
      rcases List.mem_cons.mp hy with rfl | hy
      · simpa using hx
      · exact ih (Option.map_eq_none_iff.mp h) y hy

theorem takeFirst?_split {p : α → Bool} {xs rest : List α} {y : α}
    (h : takeFirst? p xs = some (y, rest)) : p y = true ∧ ∃ before after,
      xs = before ++ y :: after ∧ rest = before ++ after ∧ ∀ x ∈ before, p x = false := by
  induction xs generalizing rest with
  | nil => cases h
  | cons x xs ih =>
    unfold takeFirst? at h
    split at h
    · rename_i hx
      obtain ⟨rfl, rfl⟩ := Prod.mk.inj (Option.some.inj h)
      exact ⟨hx, [], xs, rfl, rfl, by simp⟩
    · rename_i hx
      obtain ⟨⟨z, later⟩, hz, heq⟩ := Option.map_eq_some_iff.mp h
      obtain ⟨rfl, rfl⟩ := Prod.mk.inj heq
      obtain ⟨hp, before, after, rfl, rfl, hbefore⟩ := ih hz
      refine ⟨hp, x :: before, after, rfl, rfl, ?_⟩
      intro w hw
      rcases List.mem_cons.mp hw with rfl | hw
      · simpa using hx
      · exact hbefore w hw

theorem takeFirst?_eq_some {p : α → Bool} {xs rest : List α} {y : α}
    (h : takeFirst? p xs = some (y, rest)) : p y = true ∧ xs.Perm (y :: rest) := by
  obtain ⟨hy, before, after, rfl, rfl, _⟩ := takeFirst?_split h
  exact ⟨hy, List.perm_middle⟩

def Entry.isStaged (e : Entry) : Bool :=
  e.stage?.isSome

def stageCount (stage : List Char) (es : List Entry) : Nat :=
  es.countP fun e => e.stage? == some stage

/-- With a queue that holds as many records of each stage as there are places of the stage, all of
them are dealt. -/
theorem dealStages_perm (places queue : List Entry)
    (hcount : ∀ stage, stageCount stage queue = stageCount stage places) :
    (dealStages queue places).Perm
      (places.filter (fun e => !e.isStaged) ++ queue.filter Entry.isStaged) := by
  induction places generalizing queue with
  | nil =>
    have hnone : queue.filter Entry.isStaged = [] := by
      apply List.filter_eq_nil_iff.mpr
      intro e he hstaged
      obtain ⟨stage, hstage⟩ := Option.isSome_iff_exists.mp hstaged
      have hzero := List.countP_eq_zero.mp (hcount stage) e he
      exact hzero (by simp [hstage])
    simp [dealStages, hnone]
  | cons e places ih =>
    unfold dealStages
    cases hstage : e.stage? with
    | none =>
      have hrest : ∀ stage, stageCount stage queue = stageCount stage places := by
        intro stage
        rw [hcount stage]
        simp [stageCount, hstage]
      simpa [Entry.isStaged, hstage] using (ih queue hrest).cons e
    | some stage =>
      cases htake : takeFirst? (fun q => q.stage? == some stage) queue with
      | none =>
        have hzero : stageCount stage queue = 0 :=
          List.countP_eq_zero.mpr fun q hq => by simpa using takeFirst?_eq_none htake q hq
        have hone : stageCount stage (e :: places) ≠ 0 := by
          simp [stageCount, hstage]
        exact absurd ((hcount stage).symm.trans hzero) hone
      | some taken =>
        obtain ⟨next, later⟩ := taken
        obtain ⟨hnext, hperm⟩ := takeFirst?_eq_some htake
        have hnext' : next.stage? = some stage := by simpa using hnext
        have hrest : ∀ other, stageCount other later = stageCount other places := by
          intro other
          have hsplit : stageCount other queue = stageCount other (next :: later) :=
            hperm.countP_eq _
          have hboth := hsplit.symm.trans (hcount other)
          simpa [stageCount, List.countP_cons, hstage, hnext'] using hboth
        have hqueue : (queue.filter Entry.isStaged).Perm (next :: later.filter Entry.isStaged) := by
          have hfilter := hperm.filter Entry.isStaged
          simpa [Entry.isStaged, hnext'] using hfilter
        have hplaces : (e :: places).filter (fun e => !e.isStaged) =
            places.filter fun e => !e.isStaged := by
          simp [Entry.isStaged, hstage]
        rw [hplaces]
        simp only [htake]
        exact ((ih later hrest).cons next).trans
          (List.perm_middle.symm.trans (hqueue.symm.append_left _))

theorem sortStages_perm (display : List Entry) : (sortStages display).Perm display := by
  have hsorted := sortBy_perm Entry.stepKey display
  have hdealt := dealStages_perm display (sortBy Entry.stepKey display) fun _ => hsorted.countP_eq _
  have hstaged : ((sortBy Entry.stepKey display).filter Entry.isStaged).Perm
      (display.filter Entry.isStaged) := hsorted.filter _
  have hsplit := List.filter_append_perm Entry.isStaged display
  exact hdealt.trans ((hstaged.append_left _).trans (List.perm_append_comm.trans hsplit))

theorem displayList_perm (vertices : List Vertex) : (displayList vertices).Perm (entries vertices) :=
  (sortStages_perm _).trans (sortBy_perm _ _)

theorem mem_displayList (vertices : List Vertex) (e : Entry) :
    e ∈ displayList vertices ↔ e ∈ entries vertices :=
  (displayList_perm vertices).mem_iff

theorem entries_index (vertices : List Vertex) :
    (entries vertices).map (·.index) = List.range' 0 vertices.length := by
  rw [entries, List.map_map]
  exact List.zipIdx_map_snd 0 vertices

theorem entries_nodup (vertices : List Vertex) : (entries vertices).Nodup :=
  List.Nodup.of_map (·.index) (entries_index vertices ▸ List.nodup_range')

theorem entries_vertex (vertices : List Vertex) : (entries vertices).map (·.vertex) = vertices := by
  rw [entries, List.map_map]
  exact List.zipIdx_map_fst 0 vertices

theorem displayList_nodup (vertices : List Vertex) : (displayList vertices).Nodup :=
  (displayList_perm vertices).nodup_iff.mpr (entries_nodup vertices)

end BuildProgress
