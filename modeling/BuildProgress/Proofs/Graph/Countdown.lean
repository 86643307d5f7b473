import BuildProgress.Graph.Countdown
import BuildProgress.Graph.Order
import BuildProgress.Proofs.Graph.Worklist
import Mathlib.Logic.Relation

/-!
# The work in its smallest steps

The tables are filled in two ways, by the inputs of the vertex that waits and by the digest of the vertex
that is waited for, and both count the same pairs. So in every moment of the work a position waits for
exactly the pairs whose record is not taken, but for the releases that are still due; no release is at
fault, no position becomes ready twice, and the work is done when each position has been taken or
depends on one that cannot be.
-/

namespace BuildProgress

set_option autoImplicit false

open Relation Worklist

namespace WaitTables

variable {vertices : List Vertex} {tables : WaitTables} {p d : Nat}

section Filling

/-- The pairs of a position and a position that it waits for, as the inputs of its vertex say. -/
def pairsAt (vertices : List Vertex) (v : Vertex) (position : Nat) : List (Nat × Nat) :=
  v.inputs.flatMap fun input => (positionsOf vertices input).map (position, ·)

/-- All such pairs in the order in which they are met. -/
def pairs (vertices : List Vertex) : List (Nat × Nat) :=
  vertices.zipIdx.flatMap fun (v, position) => pairsAt vertices v position

def addPair (tables : WaitTables) (pair : Nat × Nat) : WaitTables :=
  add pair.1 tables pair.2

theorem ofVertices_eq (vertices : List Vertex) :
    ofVertices vertices = (pairs vertices).foldl addPair (empty vertices.length) := by
  simp only [ofVertices, pairs, pairsAt, List.foldl_flatMap, List.foldl_map]
  rfl

theorem addAll_length (ps : List (Nat × Nat)) (tables : WaitTables) :
    (ps.foldl addPair tables).pending.length = tables.pending.length ∧
      (ps.foldl addPair tables).dependents.length = tables.dependents.length := by
  induction ps generalizing tables with
  | nil => exact ⟨rfl, rfl⟩
  | cons pair ps ih =>
    rw [List.foldl_cons, (ih _).1, (ih _).2]
    simp [addPair, add]

theorem addAll_pending (ps : List (Nat × Nat)) (tables : WaitTables)
    (hp : p < tables.pending.length) : (ps.foldl addPair tables).pending.getD p 0 =
      tables.pending.getD p 0 + (ps.map (·.1)).count p := by
  induction ps generalizing tables with
  | nil => rfl
  | cons pair ps ih =>
    have hlength : p < (addPair tables pair).pending.length := by simpa [addPair, add] using hp
    rw [List.foldl_cons, ih _ hlength, List.map_cons, List.count_cons]
    by_cases hpair : pair.1 = p
    · simp [addPair, add, hpair, hp]
      omega
    · simp [addPair, add, hpair]

theorem addAll_dependents (ps : List (Nat × Nat)) (tables : WaitTables)
    (hd : d < tables.dependents.length) : (ps.foldl addPair tables).dependents.getD d [] =
      tables.dependents.getD d [] ++ (ps.filter (·.2 == d)).map (·.1) := by
  induction ps generalizing tables with
  | nil => simp
  | cons pair ps ih =>
    have hlength : d < (addPair tables pair).dependents.length := by simpa [addPair, add] using hd
    rw [List.foldl_cons, ih _ hlength, List.filter_cons]
    by_cases hpair : pair.2 = d
    · simp [addPair, add, hpair, hd]
    · simp [addPair, add, hpair]

end Filling

section Counting

theorem length_positionsOf (vertices : List Vertex) (digest : String) :
    (positionsOf vertices digest).length = vertices.countP (·.digest == digest) := by
  rw [positionsOf, ← List.countP_eq_length_filter, countP_range_digest]

theorem count_positionsOf (hd : d < vertices.length) (digest : String) :
    (positionsOf vertices digest).count d =
      if digest == (vertices.getD d {}).digest then 1 else 0 := by
  rw [positionsOf, BEq.comm]
  split
  · next hdigest =>
    rw [List.count_filter (p := fun p => (vertices.getD p {}).digest == digest) hdigest]
    exact List.count_eq_one_of_mem List.nodup_range (List.mem_range.2 hd)
  · next hdigest => exact List.count_eq_zero.2 fun hin => hdigest (List.mem_filter.1 hin).2

theorem waiting_pairsAt (vertices : List Vertex) (v : Vertex) (position : Nat) :
    (pairsAt vertices v position).map (·.1) = List.replicate (waits vertices v) position := by
  rw [pairsAt, waits]
  induction v.inputs with
  | nil => rfl
  | cons input inputs ih =>
    rw [List.flatMap_cons, List.map_append, ih, List.map_cons, List.foldr_cons,
      List.replicate_add, ← length_positionsOf, List.map_map]
    exact congrArg (· ++ _) List.map_const'

theorem awaited_pairsAt (hd : d < vertices.length) (v : Vertex) (position : Nat) :
    ((pairsAt vertices v position).filter (·.2 == d)).map (·.1) =
      List.replicate (v.inputCount (vertices.getD d {}).digest) position := by
  rw [pairsAt, Vertex.inputCount]
  induction v.inputs with
  | nil => rfl
  | cons input inputs ih =>
    have hrow : ((positionsOf vertices input).filter (· == d)).map (fun _ => position) =
        List.replicate ((positionsOf vertices input).count d) position := by
      rw [List.map_const', List.count, List.countP_eq_length_filter]
    rw [List.flatMap_cons, List.filter_append, List.map_append, ih, List.count_cons,
      Nat.add_comm, List.replicate_add, ← count_positionsOf hd, List.filter_map, List.map_map]
    exact congrArg (· ++ _) hrow

theorem waiting_pairs (vertices : List Vertex) : (pairs vertices).map (·.1) =
    vertices.zipIdx.flatMap fun (v, position) => List.replicate (waits vertices v) position := by
  simp only [pairs, List.map_flatMap, waiting_pairsAt]

theorem awaited_pairs (hd : d < vertices.length) : ((pairs vertices).filter (·.2 == d)).map (·.1) =
    Worklist.dependents vertices (vertices.getD d {}).digest := by
  simp only [pairs, List.filter_flatMap, List.map_flatMap, awaited_pairsAt hd, Worklist.dependents]

end Counting

theorem ofVertices_pending (vertices : List Vertex) :
    (ofVertices vertices).pending = vertices.map (waits vertices) := by
  have hlength : (ofVertices vertices).pending.length = vertices.length := by
    rw [ofVertices_eq, (addAll_length _ _).1, empty, List.length_replicate]
  apply List.ext_getElem (by rw [hlength, List.length_map])
  intro p hp hp'
  have hlt : p < vertices.length := hlength ▸ hp
  have hempty : p < (empty vertices.length).pending.length := by simpa [empty] using hlt
  have hcount := count_positions (waits vertices) rfl p vertices 0
  have hpending := addAll_pending (pairs vertices) _ hempty
  rw [← ofVertices_eq, waiting_pairs, hcount] at hpending
  simpa [empty, hp, hlt] using hpending

example : (ofVertices [{ digest := "a" }, { digest := "a" }, { inputs := ["a", "a"] }]).pending =
    [0, 0, 4] := by decide

theorem ofVertices_dependents (hd : d < vertices.length) :
    (ofVertices vertices).dependents.getD d [] =
      Worklist.dependents vertices (vertices.getD d {}).digest := by
  have hempty : d < (empty vertices.length).dependents.length := by simpa [empty] using hd
  rw [ofVertices_eq, addAll_dependents _ _ hempty, awaited_pairs hd]
  simp [empty, hd]

end WaitTables

namespace Countdown

variable {vertices : List Vertex} {c next : Countdown} {position p : Nat} {later : List Nat}

/-- The second moment comes some steps after the first. -/
def Leads (vertices : List Vertex) : Countdown → Countdown → Prop :=
  ReflTransGen fun c next => c.step? (WaitTables.ofVertices vertices) = some next

/-- What holds of every moment of the work. -/
structure Balanced (vertices : List Vertex) (c : Countdown) : Prop where
  length_pending : c.pending.length = vertices.length
  /-- Each position waits for the pairs whose record is not taken and for the releases still due. -/
  pending_eq : ∀ p, c.pending.getD p 0 =
    remaining vertices c.taken (vertices.getD p {}) + c.due.count p
  ready_sorted : c.ready.Pairwise (· < ·)
  mem_ready : ∀ p, p ∈ c.ready ↔ p < vertices.length ∧ p ∉ c.taken ∧ c.pending.getD p 0 = 0
  taken_nodup : c.taken.Nodup
  taken_lt : ∀ p ∈ c.taken, p < vertices.length
  taken_idle : ∀ p ∈ c.taken, c.pending.getD p 0 = 0
  /-- No position becomes ready twice. -/
  entered_nodup : c.entered.Nodup
  mem_entered : ∀ p, p ∈ c.entered ↔ p ∈ c.taken ∨ p ∈ c.ready

section Steps

/-- The moment after a release, which makes a position ready that has waited for nothing else. -/
def released (c : Countdown) (position : Nat) (later : List Nat) : Countdown where
  toWorklist := c.toWorklist.release position
  due := later
  entered := c.entered ++ if c.pending.getD position 0 = 1 then [position] else []

/-- The moment after the least ready position is taken. -/
def takes (vertices : List Vertex) (c : Countdown) (position : Nat) (later : List Nat) : Countdown where
  pending := c.pending
  ready := later
  taken := c.taken ++ [position]
  due := dependents vertices (vertices.getD position {}).digest
  entered := c.entered

theorem mem_ite_singleton {condition : Prop} [Decidable condition] :
    p ∈ (if condition then [position] else []) ↔ p = position ∧ condition := by
  split
  · next h => simp [h]
  · next h => simp [h]

theorem start_toWorklist (vertices : List Vertex) :
    (start vertices).toWorklist = Worklist.initial vertices := by
  simp only [start, Worklist.initial, WaitTables.ofVertices_pending, List.length_map]

theorem release?_of_pos (h : 0 < c.pending.getD position 0) (later : List Nat) :
    c.release? position later = some (c.released position later) := by
  obtain ⟨left, hleft⟩ := Nat.exists_eq_succ_of_ne_zero (Nat.ne_of_gt h)
  rw [release?, released, Worklist.release, hleft]
  cases left with
  | zero => rfl
  | succ left => simp

theorem step?_of_due (hdue : c.due = position :: later) (tables : WaitTables) :
    c.step? tables = c.release? position later := by
  rw [step?, hdue]

theorem step?_of_ready (hdue : c.due = []) (hready : c.ready = position :: later)
    (hlt : position < vertices.length) :
    c.step? (WaitTables.ofVertices vertices) = some (c.takes vertices position later) := by
  rw [step?, hdue, hready]
  simp only [takes, ← WaitTables.ofVertices_dependents hlt]

theorem step?_of_done (hdue : c.due = []) (hready : c.ready = []) (tables : WaitTables) :
    c.step? tables = none := by
  rw [step?, hdue, hready]

end Steps

namespace Balanced

theorem start (vertices : List Vertex) : Balanced vertices (start vertices) := by
  have hsound := Sound.initial vertices
  rw [← start_toWorklist] at hsound
  refine ⟨hsound.length_pending, hsound.pending_eq, hsound.ready_sorted, hsound.mem_ready,
    hsound.taken_nodup, hsound.taken_lt, fun _ => hsound.pending_taken, ?_, ?_⟩
  · exact hsound.ready_sorted.imp Nat.ne_of_lt
  · simp [Countdown.start]

theorem pending_pos (h : Balanced vertices c) (hdue : c.due = position :: later) :
    0 < c.pending.getD position 0 := by
  rw [h.pending_eq, hdue, List.count_cons_self]
  exact Nat.succ_pos _

theorem ready_head (h : Balanced vertices c) (hready : c.ready = position :: later) :
    position < vertices.length ∧ position ∉ c.taken ∧ c.pending.getD position 0 = 0 :=
  (h.mem_ready position).1 (hready ▸ List.mem_cons_self)

theorem takes (h : Balanced vertices c) (hdue : c.due = []) (hready : c.ready = position :: later) :
    Balanced vertices (c.takes vertices position later) := by
  obtain ⟨hlt, hnot, hidle⟩ := h.ready_head hready
  have hsorted := h.ready_sorted
  rw [hready, List.pairwise_cons] at hsorted
  have hmem (p : Nat) : p ∈ later ↔ p ∈ c.ready ∧ p ≠ position := by
    rw [hready, List.mem_cons]
    constructor
    · intro hin
      exact ⟨.inr hin, Nat.ne_of_gt (hsorted.1 p hin)⟩
    · rintro ⟨heq | hin, hne⟩
      · exact absurd heq hne
      · exact hin
  refine ⟨h.length_pending, ?_, hsorted.2, ?_, ?_, ?_, ?_, h.entered_nodup, ?_⟩
  · intro p
    have hpending := h.pending_eq p
    rw [hdue, List.count_nil, remaining_append hnot hlt, ← count_dependents] at hpending
    exact hpending
  · intro p
    simp only [Countdown.takes, hmem, h.mem_ready, List.mem_append, List.mem_singleton, not_or]
    tauto
  · exact List.nodup_append.2 ⟨h.taken_nodup, List.nodup_singleton _, fun a ha b hb hab =>
      hnot (List.mem_singleton.1 hb ▸ hab ▸ ha)⟩
  · exact List.forall_mem_append.2 ⟨h.taken_lt, List.forall_mem_singleton.2 hlt⟩
  · exact List.forall_mem_append.2 ⟨h.taken_idle, List.forall_mem_singleton.2 hidle⟩
  · intro p
    have hposition : position ∈ c.ready := hready ▸ List.mem_cons_self
    simp only [Countdown.takes, h.mem_entered, hmem, List.mem_append, List.mem_singleton]
    by_cases hp : p = position
    · simp [hp, hposition]
    · simp [hp]

theorem released (h : Balanced vertices c) (hdue : c.due = position :: later) :
    Balanced vertices (c.released position later) := by
  have hpos := h.pending_pos hdue
  have hlt : position < vertices.length := h.length_pending ▸ lt_of_pending_pos hpos
  have hnot : position ∉ c.taken := fun hin => by
    rw [h.taken_idle position hin] at hpos
    exact Nat.lt_irrefl 0 hpos
  have hunready : position ∉ c.ready := fun hin => by
    rw [((h.mem_ready position).1 hin).2.2] at hpos
    exact Nat.lt_irrefl 0 hpos
  refine ⟨?_, ?_, release_sorted h.ready_sorted position, ?_, h.taken_nodup, h.taken_lt, ?_, ?_, ?_⟩
  · exact (release_length _ _).trans h.length_pending
  · intro p
    have hpending := h.pending_eq p
    rw [hdue, List.count_cons] at hpending
    simp only [Countdown.released, release_pending, hpending, release_taken]
    by_cases hp : p = position
    · simp [hp]
    · simp [hp, Ne.symm hp]
  · intro p
    simp only [Countdown.released, release_pending, release_taken, mem_release_ready]
    by_cases hp : p = position
    · subst hp
      simp only [hunready, hlt, hnot, true_and, false_or, if_true, not_false_eq_true]
      omega
    · simp [hp, h.mem_ready]
  · intro p hp
    have hidle := h.taken_idle p hp
    simp only [Countdown.released, release_pending]
    omega
  · refine List.nodup_append.2 ⟨h.entered_nodup, by split <;> simp, ?_⟩
    rintro p hp q hq rfl
    obtain ⟨rfl, _⟩ := mem_ite_singleton.1 hq
    exact ((h.mem_entered p).1 hp).elim hnot hunready
  · intro p
    have hlast : c.pending.getD position 0 = 1 ↔ c.pending.getD position 0 ≤ 1 := by omega
    simp only [Countdown.released, List.mem_append, h.mem_entered, release_taken, mem_release_ready,
      mem_ite_singleton, hlast, or_assoc]

theorem step (h : Balanced vertices c)
    (hstep : c.step? (WaitTables.ofVertices vertices) = some next) : Balanced vertices next := by
  cases hdue : c.due with
  | cons position later =>
    rw [step?_of_due hdue, release?_of_pos (h.pending_pos hdue)] at hstep
    exact Option.some.inj hstep ▸ h.released hdue
  | nil =>
    cases hready : c.ready with
    | nil =>
      rw [step?_of_done hdue hready] at hstep
      cases hstep
    | cons position later =>
      rw [step?_of_ready hdue hready (h.ready_head hready).1] at hstep
      exact Option.some.inj hstep ▸ h.takes hdue hready

theorem leads (h : Balanced vertices c) (hleads : Leads vertices c next) : Balanced vertices next := by
  induction hleads with
  | refl => exact h
  | tail _ hstep ih => exact ih.step hstep

/-- The work stops only when it is done. -/
theorem done_of_stopped (h : Balanced vertices c)
    (hstop : c.step? (WaitTables.ofVertices vertices) = none) : c.isDone = true := by
  cases hdue : c.due with
  | cons position later =>
    rw [step?_of_due hdue, release?_of_pos (h.pending_pos hdue)] at hstop
    cases hstop
  | nil =>
    cases hready : c.ready with
    | nil => simp [isDone, hdue, hready]
    | cons position later =>
      rw [step?_of_ready hdue hready (h.ready_head hready).1] at hstop
      cases hstop

end Balanced

section Ends

/-- All releases that are due are carried out. -/
theorem exists_released (h : Balanced vertices c) : ∃ next, Leads vertices c next ∧ next.due = [] ∧
    next.toWorklist = c.due.foldl Worklist.release c.toWorklist := by
  generalize hdue : c.due = due
  induction due generalizing c with
  | nil => exact ⟨c, .refl, hdue, rfl⟩
  | cons position later ih =>
    have hstep : c.step? (WaitTables.ofVertices vertices) = some (c.released position later) := by
      rw [step?_of_due hdue, release?_of_pos (h.pending_pos hdue)]
    obtain ⟨next, hleads, hnext, heq⟩ := ih (h.released hdue) rfl
    exact ⟨next, .head hstep hleads, hnext, heq⟩

/-- A position is taken in single steps as it is in the work as a whole. -/
theorem exists_taken {w : Worklist} (h : Balanced vertices c) (hdue : c.due = [])
    (htake : c.toWorklist.takeNext? vertices = some w) :
    ∃ next, Leads vertices c next ∧ next.due = [] ∧ next.toWorklist = w := by
  unfold takeNext? at htake
  split at htake
  · cases htake
  · next position later hready =>
    have hstep := step?_of_ready hdue hready (h.ready_head hready).1
    obtain ⟨next, hleads, hnext, heq⟩ := exists_released (h.takes hdue hready)
    exact ⟨next, .head hstep hleads, hnext, heq.trans (Option.some.inj htake)⟩

theorem exists_exhausted (h : Balanced vertices c) (hdue : c.due = []) (fuel : Nat) :
    ∃ last, Leads vertices c last ∧ last.due = [] ∧
      last.toWorklist = Worklist.exhaust vertices fuel c.toWorklist := by
  induction fuel generalizing c with
  | zero => exact ⟨c, .refl, hdue, rfl⟩
  | succ fuel ih =>
    rw [Worklist.exhaust]
    cases htake : c.toWorklist.takeNext? vertices with
    | none => exact ⟨c, .refl, hdue, rfl⟩
    | some w =>
      obtain ⟨next, hleads, hnext, rfl⟩ := exists_taken h hdue htake
      obtain ⟨last, hlast, hdone, heq⟩ := ih (h.leads hleads) hnext
      exact ⟨last, hleads.trans hlast, hdone, heq⟩

/-- There is one way for the work to go on, so that all moments lead to the one where it stops. -/
theorem leads_last {first last : Countdown} (hc : Leads vertices first c)
    (hlast : Leads vertices first last)
    (hstop : last.step? (WaitTables.ofVertices vertices) = none) : Leads vertices c last := by
  have hunique : Relator.RightUnique fun c next : Countdown =>
      c.step? (WaitTables.ofVertices vertices) = some next :=
    fun _ _ _ h h' => Option.some.inj (h.symm.trans h')
  rcases ReflTransGen.total_of_right_unique hunique hc hlast with h | h
  · exact h
  · rcases ReflTransGen.cases_head h with rfl | ⟨next, hnext, _⟩
    · exact .refl
    · rw [hstop] at hnext
      cases hnext

theorem Balanced.length_taken_le (h : Balanced vertices c) : c.taken.length ≤ vertices.length := by
  have hsub : c.taken ⊆ List.range vertices.length :=
    fun p hp => List.mem_range.2 (h.taken_lt p hp)
  simpa using (h.taken_nodup.subperm hsub).length_le

end Ends

/-- In every moment of the work on a display list, each position waits for the pairs of one of its inputs
and a record with that digest that is not taken, once more for each release that is still due; the ready
positions are those that wait for nothing and are not taken; and no position becomes ready or is taken
twice. So no release is at fault, at most as many positions are taken as there are records, and whatever
the moment, the work ends, as the work that settles the list does. -/
theorem counts_down (display : List Entry) :
    let vertices := display.map (·.vertex)
    (∀ c, Leads vertices (start vertices) c → Balanced vertices c ∧
      (∀ position later, c.due = position :: later → 0 < c.pending.getD position 0) ∧
      (c.step? (WaitTables.ofVertices vertices) = none → c.isDone = true) ∧
      c.taken.length ≤ display.length) ∧
    ∃ last, (∀ c, Leads vertices (start vertices) c → Leads vertices c last) ∧
      last.isDone = true ∧ last.toWorklist = Worklist.final vertices := by
  intro vertices
  have hstart := Balanced.start vertices
  refine ⟨fun c hc => ?_, ?_⟩
  · have hbalanced := hstart.leads hc
    refine ⟨hbalanced, fun _ _ => hbalanced.pending_pos, hbalanced.done_of_stopped, ?_⟩
    simpa [vertices] using hbalanced.length_taken_le
  · obtain ⟨last, hlast, hdue, heq⟩ := exists_exhausted hstart rfl vertices.length
    rw [start_toWorklist] at heq
    have hready : last.ready = [] := by
      rw [heq]
      exact Sound.final_ready vertices
    refine ⟨last, fun c hc => leads_last hc hlast (step?_of_done hdue hready _), ?_, heq⟩
    simp [isDone, hdue, hready]

end Countdown

end BuildProgress
