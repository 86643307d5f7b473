import BuildProgress.Graph.Display
import Mathlib.Data.Set.Finite.List
import Mathlib.Order.WellFounded

/-!
# Cycles of inputs

The records of a batch and the relation between a record and the records whose digest it lists. A
record may lie on a cycle, lead to one, or do neither; only records of the last kind can be placed
after all that they depend on. Digests may repeat, so that an input may mean several records.
-/

namespace BuildProgress

set_option autoImplicit false

open Relation

/-- A record of the batch lists the digest of a record of the batch. -/
def DependsOn (batch : List Entry) (e d : Entry) : Prop :=
  e ∈ batch ∧ d ∈ batch ∧ d.vertex.digest ∈ e.vertex.inputs

/-- No record depends on itself, directly or through others. -/
def Acyclic (batch : List Entry) : Prop :=
  ∀ e, ¬ TransGen (DependsOn batch) e e

/-- A record lies on a cycle or depends on one that does, directly or through others. -/
def ReachesCycle (batch : List Entry) (e : Entry) : Prop :=
  ∃ c, ReflTransGen (DependsOn batch) e c ∧ TransGen (DependsOn batch) c c

/-- Every record of a list comes after all that it depends on. -/
def RespectsInputs (batch placed : List Entry) : Prop :=
  ∀ earlier e later, placed = earlier ++ e :: later → ∀ d, DependsOn batch e d → d ∈ earlier

/-- In a finite set, what always has a successor in the set leads to a cycle. -/
theorem exists_cycle_of_serial {α : Type} {r : α → α → Prop} (xs : List α)
    (hserial : ∀ x ∈ xs, ∃ y ∈ xs, r x y) {x : α} (hx : x ∈ xs) :
    ∃ c, ReflTransGen r x c ∧ TransGen r c c := by
  by_contra hnone
  -- The items that lead to no cycle are a finite set in which `r` has no cycle.
  let Free := {y : α // y ∈ xs ∧ ¬ ∃ c, ReflTransGen r y c ∧ TransGen r c c}
  have hfinite : Finite Free :=
    Set.Finite.subset (List.finite_toSet xs) fun y hy => hy.1
  have htrans : IsTrans Free (fun b a => TransGen r a.val b.val) :=
    ⟨fun _ _ _ hab hbc => TransGen.trans hbc hab⟩
  have hirrefl : Std.Irrefl (fun b a : Free => TransGen r a.val b.val) :=
    ⟨fun a h => a.property.2 ⟨a.val, .refl, h⟩⟩
  have hwf : WellFounded (fun b a : Free => TransGen r a.val b.val) :=
    Finite.wellFounded_of_trans_of_irrefl _
  obtain ⟨least, _, hleast⟩ := hwf.has_min Set.univ ⟨⟨x, hx, hnone⟩, trivial⟩
  obtain ⟨next, hnext, hstep⟩ := hserial least.val least.property.1
  have hfree : ¬ ∃ c, ReflTransGen r next c ∧ TransGen r c c := by
    rintro ⟨c, hpath, hcycle⟩
    exact least.property.2 ⟨c, hpath.head hstep, hcycle⟩
  exact hleast ⟨next, hnext, hfree⟩ trivial (.single hstep)

theorem ReachesCycle.mem {batch : List Entry} {e : Entry} (h : ReachesCycle batch e) : e ∈ batch := by
  obtain ⟨c, hpath, hcycle⟩ := h
  rcases ReflTransGen.cases_head hpath with rfl | ⟨d, hstep, _⟩
  · obtain ⟨d, hstep, _⟩ := TransGen.head'_iff.mp hcycle
    exact hstep.1
  · exact hstep.1

theorem acyclic_iff (batch : List Entry) : Acyclic batch ↔ ∀ e ∈ batch, ¬ ReachesCycle batch e := by
  constructor
  · rintro h e _ ⟨c, _, hcycle⟩
    exact h c hcycle
  · intro h e hcycle
    have hreach : ReachesCycle batch e := ⟨e, .refl, hcycle⟩
    exact h e hreach.mem hreach

section Placed

variable {batch placed : List Entry}

/-- What a placed record depends on is placed, and before it. -/
theorem RespectsInputs.idxOf_lt (h : RespectsInputs batch placed) {e d : Entry} (he : e ∈ placed)
    (hpath : TransGen (DependsOn batch) e d) : d ∈ placed ∧ placed.idxOf d < placed.idxOf e := by
  have step {e d : Entry} (he : e ∈ placed) (hd : DependsOn batch e d) :
      d ∈ placed ∧ placed.idxOf d < placed.idxOf e := by
    obtain ⟨earlier, later, heq, hnew⟩ := List.eq_append_cons_of_mem he
    have hin := h earlier e later heq d hd
    rw [heq, List.idxOf_append_of_mem hin, List.idxOf_append_of_notMem hnew, List.idxOf_cons_self]
    exact ⟨List.mem_append_left _ hin, List.idxOf_lt_length_of_mem hin⟩
  induction hpath with
  | single hd => exact step he hd
  | tail _ hd ih =>
    obtain ⟨hin, hlt⟩ := step ih.1 hd
    exact ⟨hin, Nat.lt_trans hlt ih.2⟩

theorem RespectsInputs.pairwise (h : RespectsInputs batch placed) (hnodup : placed.Nodup) :
    placed.Pairwise fun e d => ¬ DependsOn batch e d := by
  rw [List.pairwise_iff_getElem]
  intro i j hi hj hij hd
  have hlt := (h.idxOf_lt (List.getElem_mem hi) (.single hd)).2
  rw [hnodup.idxOf_getElem, hnodup.idxOf_getElem] at hlt
  omega

theorem RespectsInputs.not_reachesCycle (h : RespectsInputs batch placed) {e : Entry}
    (he : e ∈ placed) : ¬ ReachesCycle batch e := by
  rintro ⟨c, hpath, hcycle⟩
  have hc : c ∈ placed := by
    rcases reflTransGen_iff_eq_or_transGen.mp hpath with rfl | hpath
    · exact he
    · exact (h.idxOf_lt he hpath).1
  exact Nat.lt_irrefl _ (h.idxOf_lt hc hcycle).2

end Placed

end BuildProgress
