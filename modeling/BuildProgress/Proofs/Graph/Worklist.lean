import BuildProgress.Graph.Worklist
import Mathlib.Data.List.Nodup
import Mathlib.Data.List.Perm.Subperm

/-!
# The invariant of the work list

`Sound` says of a state of the work what the code relies on: every position waits for exactly those
records that are not taken yet, and the ready positions are the positions that wait for nothing.
Taking a position keeps it, so that it holds of the final state, in which nothing is ready.

This module does not speak of cycles: why a position is never ready is left to the order.
-/

namespace BuildProgress.Worklist

set_option autoImplicit false

variable {vertices : List Vertex} {w : Worklist}

/-- How many records with a digest have not been taken. -/
def untaken (vertices : List Vertex) (taken : List Nat) (digest : String) : Nat :=
  (List.range vertices.length).countP fun q =>
    (vertices.getD q {}).digest == digest && decide (q ∉ taken)

/-- The pairs of an input that a vertex lists and a record with that digest that is not taken. -/
def remaining (vertices : List Vertex) (taken : List Nat) (v : Vertex) : Nat :=
  (v.inputs.map (untaken vertices taken)).foldr (· + ·) 0

structure Sound (vertices : List Vertex) (w : Worklist) : Prop where
  length_pending : w.pending.length = vertices.length
  pending_eq : ∀ p, w.pending.getD p 0 = remaining vertices w.taken (vertices.getD p {})
  ready_sorted : w.ready.Pairwise (· < ·)
  mem_ready : ∀ p, p ∈ w.ready ↔ p < vertices.length ∧ p ∉ w.taken ∧ w.pending.getD p 0 = 0
  taken_nodup : w.taken.Nodup
  taken_lt : ∀ p ∈ w.taken, p < vertices.length
  /-- What a taken record lists was taken before it. -/
  taken_order : ∀ earlier p later, w.taken = earlier ++ p :: later → ∀ q < vertices.length,
    (vertices.getD q {}).digest ∈ (vertices.getD p {}).inputs → q ∈ earlier

section Counting

theorem map_range_getD {α : Type} (xs : List α) (d : α) :
    ((List.range xs.length).map fun p => xs.getD p d) = xs := by
  apply List.ext_getElem
  · simp
  · intro i _ hi
    simp [hi]

theorem countP_range_digest (vertices : List Vertex) (digest : String) :
    (List.range vertices.length).countP (fun q => (vertices.getD q {}).digest == digest) =
      vertices.countP (·.digest == digest) := by
  conv => rhs; rw [← map_range_getD vertices {}]
  rw [List.countP_map]
  rfl

theorem untaken_nil (vertices : List Vertex) (digest : String) :
    untaken vertices [] digest = vertices.countP (·.digest == digest) := by
  rw [← countP_range_digest]
  simp [untaken]

theorem countP_erase_one {f : Nat → Bool} {taken : List Nat} {p : Nat} (hp : p ∉ taken) (l : List Nat)
    (hl : l.Nodup) (hpl : p ∈ l) :
    l.countP (fun q => f q && decide (q ∉ taken)) =
      l.countP (fun q => f q && decide (q ∉ taken ++ [p])) + if f p then 1 else 0 := by
  induction l with
  | nil => cases hpl
  | cons x xs ih =>
    obtain ⟨hx, hxs⟩ := List.nodup_cons.mp hl
    rcases List.mem_cons.mp hpl with rfl | hpxs
    · have hrest : xs.countP (fun q => f q && decide (q ∉ taken)) =
          xs.countP (fun q => f q && decide (q ∉ taken ++ [p])) := by
        apply List.countP_congr
        intro q hq
        have hne : q ≠ p := fun h => hx (h ▸ hq)
        simp [hne]
      rw [List.countP_cons, List.countP_cons, hrest]
      cases hf : f p <;> simp [hp]
    · have hne : x ≠ p := fun h => hx (h ▸ hpxs)
      have hsame : (f x && decide (x ∉ taken ++ [p])) = (f x && decide (x ∉ taken)) := by
        simp [hne]
      rw [List.countP_cons, List.countP_cons, ih hxs hpxs, hsame]
      omega

theorem untaken_append {taken : List Nat} {p : Nat} (hp : p ∉ taken) (hlt : p < vertices.length)
    (digest : String) :
    untaken vertices taken digest = untaken vertices (taken ++ [p]) digest +
      if (vertices.getD p {}).digest == digest then 1 else 0 :=
  countP_erase_one hp _ List.nodup_range (List.mem_range.mpr hlt)

/-- A record waits for a taken one once less for each time it lists it. -/
theorem remaining_append {taken : List Nat} {p : Nat} (hp : p ∉ taken) (hlt : p < vertices.length)
    (v : Vertex) :
    remaining vertices taken v = remaining vertices (taken ++ [p]) v +
      v.inputCount (vertices.getD p {}).digest := by
  unfold remaining Vertex.inputCount
  induction v.inputs with
  | nil => rfl
  | cons input rest ih =>
    have hhead := untaken_append hp hlt input
    have hcount : (if (vertices.getD p {}).digest == input then 1 else 0) =
        if input == (vertices.getD p {}).digest then 1 else 0 := by
      rw [BEq.comm]
    rw [List.map_cons, List.map_cons, List.foldr_cons, List.foldr_cons, List.count_cons, ih, hhead,
      hcount]
    omega

theorem untaken_eq_zero_iff (taken : List Nat) (digest : String) :
    untaken vertices taken digest = 0 ↔
      ∀ q < vertices.length, (vertices.getD q {}).digest = digest → q ∈ taken := by
  unfold untaken
  rw [List.countP_eq_zero]
  constructor
  · intro h q hq hd
    by_contra hn
    exact h q (List.mem_range.mpr hq) (by simp [← hd, hn])
  · intro h q hq hd
    rw [Bool.and_eq_true, beq_iff_eq, decide_eq_true_eq] at hd
    exact hd.2 (h q (List.mem_range.mp hq) hd.1)

theorem remaining_eq_zero_iff (taken : List Nat) (v : Vertex) :
    remaining vertices taken v = 0 ↔
      ∀ q < vertices.length, (vertices.getD q {}).digest ∈ v.inputs → q ∈ taken := by
  have hsum : remaining vertices taken v = (v.inputs.map (untaken vertices taken)).sum := rfl
  rw [hsum, List.sum_eq_zero_iff_forall_eq_nat]
  constructor
  · intro h q hq hd
    exact (untaken_eq_zero_iff taken _).mp (h _ (List.mem_map_of_mem hd)) q hq rfl
  · intro h n hn
    obtain ⟨input, hinput, rfl⟩ := List.mem_map.mp hn
    apply (untaken_eq_zero_iff taken input).mpr
    intro q hq hd
    exact h q hq (hd ▸ hinput)

end Counting

/-- A place in a list with one more item at its end is that item, or a place in the list. -/
theorem concat_eq_append_cons {α : Type} {xs earlier rest : List α} {x y : α}
    (h : xs ++ [x] = earlier ++ y :: rest) :
    (xs = earlier ∧ x = y ∧ rest = []) ∨
      ∃ rest', rest = rest' ++ [x] ∧ xs = earlier ++ y :: rest' := by
  rcases List.eq_nil_or_concat rest with rfl | ⟨rest', last, rfl⟩
  · obtain ⟨rfl, hx⟩ := List.append_inj' h rfl
    exact Or.inl ⟨rfl, by simpa using hx, rfl⟩
  · have h' : xs ++ [x] = (earlier ++ y :: rest') ++ [last] := by simpa using h
    obtain ⟨rfl, hx⟩ := List.append_inj' h' rfl
    exact Or.inr ⟨rest', by simpa using hx.symm, rfl⟩

section Steps

/-- A position stands as often in a list of repeated positions as its vertex says. -/
theorem count_positions (times : Vertex → Nat) (hnone : times {} = 0) (p : Nat) (vs : List Vertex)
    (k : Nat) : ((vs.zipIdx k).flatMap fun (v, q) => List.replicate (times v) q).count p =
      if k ≤ p then times (vs.getD (p - k) {}) else 0 := by
  induction vs generalizing k with
  | nil => simp [hnone]
  | cons v vs ih =>
    rw [List.zipIdx_cons, List.flatMap_cons, List.count_append, ih, List.count_replicate]
    rcases Nat.lt_trichotomy k p with hlt | rfl | hgt
    · have hsub : p - k = (p - (k + 1)) + 1 := by omega
      have hne : k ≠ p := by omega
      rw [if_pos (Nat.le_of_lt hlt), if_pos (Nat.succ_le_of_lt hlt), hsub]
      simp [hne]
    · have hself : ¬ k + 1 ≤ k := Nat.not_succ_le_self k
      rw [if_pos (Nat.le_refl k), if_neg hself, Nat.sub_self]
      simp
    · have hne : k ≠ p := by omega
      simp [hne, Nat.not_le.mpr hgt, show ¬ k + 1 ≤ p by omega]

theorem count_dependents (vertices : List Vertex) (digest : String) (p : Nat) :
    (dependents vertices digest).count p = (vertices.getD p {}).inputCount digest := by
  have hcount := count_positions (fun v => v.inputCount digest) rfl p vertices 0
  simpa [dependents] using hcount

theorem mem_insertPosition (q p : Nat) (xs : List Nat) :
    p ∈ insertPosition q xs ↔ p = q ∨ p ∈ xs := by
  induction xs with
  | nil => simp [insertPosition]
  | cons x xs ih =>
    unfold insertPosition
    split
    · simp
    · split
      · rename_i heq
        simp [heq]
      · rw [List.mem_cons, ih, List.mem_cons]
        exact or_left_comm

theorem insertPosition_sorted (q : Nat) {xs : List Nat} (h : xs.Pairwise (· < ·)) :
    (insertPosition q xs).Pairwise (· < ·) := by
  induction xs with
  | nil => simp [insertPosition]
  | cons x xs ih =>
    obtain ⟨hx, hxs⟩ := List.pairwise_cons.mp h
    unfold insertPosition
    split
    · rename_i hlt
      refine List.pairwise_cons.mpr ⟨?_, h⟩
      intro y hy
      rcases List.mem_cons.mp hy with rfl | hy
      · exact hlt
      · exact Nat.lt_trans hlt (hx y hy)
    · split
      · exact h
      · rename_i hlt hne
        refine List.pairwise_cons.mpr ⟨?_, ih hxs⟩
        intro y hy
        rcases (mem_insertPosition q y xs).mp hy with rfl | hy
        · omega
        · exact hx y hy

@[simp] theorem release_taken (w : Worklist) (q : Nat) : (w.release q).taken = w.taken := rfl

theorem release_length (w : Worklist) (q : Nat) :
    (w.release q).pending.length = w.pending.length := by
  simp [release]

theorem release_pending (w : Worklist) (q p : Nat) :
    (w.release q).pending.getD p 0 = w.pending.getD p 0 - if p = q then 1 else 0 := by
  simp only [release, List.getD_eq_getElem?_getD, List.getElem?_set]
  by_cases hp : p = q
  · subst hp
    by_cases hlen : p < w.pending.length
    · simp [hlen]
    · simp [hlen]
  · simp [hp, Ne.symm hp]

theorem mem_release_ready (w : Worklist) (q p : Nat) :
    p ∈ (w.release q).ready ↔ p ∈ w.ready ∨ (p = q ∧ w.pending.getD q 0 ≤ 1) := by
  simp only [release]
  split
  · rename_i hleft
    rw [mem_insertPosition, or_comm]
    have hle : w.pending.getD q 0 ≤ 1 := by omega
    simp only [hle, and_true]
  · rename_i hleft
    have hle : ¬ w.pending.getD q 0 ≤ 1 := by omega
    simp only [hle, and_false, or_false]

theorem release_sorted {w : Worklist} (h : w.ready.Pairwise (· < ·)) (q : Nat) :
    (w.release q).ready.Pairwise (· < ·) := by
  simp only [release]
  split
  · exact insertPosition_sorted q h
  · exact h

theorem releaseAll_taken (qs : List Nat) (w : Worklist) : (qs.foldl release w).taken = w.taken := by
  induction qs generalizing w with
  | nil => rfl
  | cons q qs ih => rw [List.foldl_cons, ih, release_taken]

theorem releaseAll_length (qs : List Nat) (w : Worklist) :
    (qs.foldl release w).pending.length = w.pending.length := by
  induction qs generalizing w with
  | nil => rfl
  | cons q qs ih => rw [List.foldl_cons, ih, release_length]

theorem releaseAll_pending (qs : List Nat) (w : Worklist) (p : Nat) :
    (qs.foldl release w).pending.getD p 0 = w.pending.getD p 0 - qs.count p := by
  induction qs generalizing w with
  | nil => simp
  | cons q qs ih =>
    rw [List.foldl_cons, ih, release_pending, List.count_cons]
    by_cases hp : p = q
    · subst hp
      simp only [if_true, beq_self_eq_true]
      omega
    · simp [hp, Ne.symm hp]

theorem lt_of_pending_pos {w : Worklist} {p : Nat} (hpos : 0 < w.pending.getD p 0) :
    p < w.pending.length := by
  by_contra hge
  have hnone : w.pending[p]? = none := List.getElem?_eq_none_iff.mpr (Nat.not_lt.mp hge)
  rw [List.getD_eq_getElem?_getD, hnone, Option.getD_none] at hpos
  exact Nat.lt_irrefl 0 hpos

/-- A position becomes ready when it is released as often as it still waits. -/
theorem mem_releaseAll_ready (qs : List Nat) (w : Worklist) (p : Nat) :
    p ∈ (qs.foldl release w).ready ↔
      p ∈ w.ready ∨ (p ∈ qs ∧ w.pending.getD p 0 ≤ qs.count p) := by
  induction qs generalizing w with
  | nil => simp
  | cons q qs ih =>
    rw [List.foldl_cons, ih, mem_release_ready, release_pending, List.mem_cons, List.count_cons]
    by_cases hp : p = q
    · subst hp
      have hcount : p ∈ qs ↔ 0 < qs.count p := List.count_pos_iff.symm
      rw [hcount]
      by_cases hready : p ∈ w.ready
      · simp [hready]
      · simp only [hready, if_true, beq_self_eq_true, true_and, true_or, false_or]
        omega
    · simp [hp, Ne.symm hp]

theorem releaseAll_sorted (qs : List Nat) {w : Worklist} (h : w.ready.Pairwise (· < ·)) :
    (qs.foldl release w).ready.Pairwise (· < ·) := by
  induction qs generalizing w with
  | nil => exact h
  | cons q qs ih => exact ih (release_sorted h q)

theorem taken_takeNext {next : Worklist} (hnext : w.takeNext? vertices = some next) :
    ∃ position later, w.ready = position :: later ∧ next.taken = w.taken ++ [position] := by
  cases hready : w.ready with
  | nil => simp [takeNext?, hready] at hnext
  | cons position later =>
    simp only [takeNext?, hready, Option.some.injEq] at hnext
    subst hnext
    exact ⟨position, later, rfl, releaseAll_taken _ _⟩

end Steps

namespace Sound

theorem initial (vertices : List Vertex) : Sound vertices (initial vertices) where
  length_pending := by simp [Worklist.initial]
  pending_eq := by
    intro p
    have hwaits (v : Vertex) : waits vertices v = remaining vertices [] v := by
      rw [waits, remaining, funext (untaken_nil vertices)]
    have hdefault : waits vertices {} = 0 := rfl
    simp only [Worklist.initial, ← hwaits, List.getD_eq_getElem?_getD, List.getElem?_map]
    cases vertices[p]? with
    | none => exact hdefault.symm
    | some v => rfl
  ready_sorted := List.Pairwise.filter _ List.pairwise_lt_range
  mem_ready := by
    intro p
    simp [Worklist.initial]
  taken_nodup := List.nodup_nil
  taken_lt := by simp [Worklist.initial]
  taken_order := by simp [Worklist.initial]

theorem ready_head (h : Sound vertices w) {position : Nat} {later : List Nat}
    (hready : w.ready = position :: later) :
    position < vertices.length ∧ position ∉ w.taken ∧ w.pending.getD position 0 = 0 :=
  (h.mem_ready position).mp (hready ▸ List.mem_cons_self)

theorem count_le_pending (h : Sound vertices w) {position : Nat} {later : List Nat}
    (hready : w.ready = position :: later) (p : Nat) :
    (dependents vertices (vertices.getD position {}).digest).count p ≤ w.pending.getD p 0 := by
  obtain ⟨hlt, hnot, _⟩ := h.ready_head hready
  rw [count_dependents, h.pending_eq, remaining_append hnot hlt]
  omega

theorem taken_closed (h : Sound vertices w) {p q : Nat} (hp : p ∈ w.taken)
    (hq : q < vertices.length)
    (hlists : (vertices.getD q {}).digest ∈ (vertices.getD p {}).inputs) : q ∈ w.taken := by
  obtain ⟨earlier, later, heq⟩ := List.append_of_mem hp
  rw [heq]
  exact List.mem_append_left _ (h.taken_order earlier p later heq q hq hlists)

theorem pending_taken (h : Sound vertices w) {p : Nat} (hp : p ∈ w.taken) :
    w.pending.getD p 0 = 0 := by
  rw [h.pending_eq, remaining_eq_zero_iff]
  intro q hq hlists
  exact h.taken_closed hp hq hlists

/-- A ready position waits for nothing, so that it may be taken after what has been taken. -/
theorem taken_order_append (h : Sound vertices w) {position : Nat} {later : List Nat}
    (hready : w.ready = position :: later) (earlier : List Nat) (p : Nat) (rest : List Nat)
    (heq : w.taken ++ [position] = earlier ++ p :: rest) (q : Nat) (hq : q < vertices.length)
    (hlists : (vertices.getD q {}).digest ∈ (vertices.getD p {}).inputs) : q ∈ earlier := by
  rcases concat_eq_append_cons heq with ⟨rfl, rfl, _⟩ | ⟨rest, _, htaken⟩
  · have hzero := (h.ready_head hready).2.2
    rw [h.pending_eq, remaining_eq_zero_iff] at hzero
    exact hzero q hq hlists
  · exact h.taken_order earlier p rest htaken q hq hlists

theorem untaken_of_pending_pos (h : Sound vertices w) {p : Nat} (hpos : 0 < w.pending.getD p 0) :
    p < vertices.length ∧ p ∉ w.taken := by
  refine ⟨h.length_pending ▸ lt_of_pending_pos hpos, fun hin => ?_⟩
  rw [h.pending_taken hin] at hpos
  exact Nat.lt_irrefl 0 hpos

theorem mem_ready_takeNext (h : Sound vertices w) {position : Nat} {later : List Nat}
    (hready : w.ready = position :: later) {released : List Nat}
    (hreleased : ∀ p, released.count p ≤ w.pending.getD p 0) (p : Nat) :
    p ∈ later ∨ (p ∈ released ∧ w.pending.getD p 0 ≤ released.count p) ↔
      p < vertices.length ∧ p ∉ w.taken ++ [position] ∧
        w.pending.getD p 0 - released.count p = 0 := by
  obtain ⟨_, _, hzero⟩ := h.ready_head hready
  have hsorted := h.ready_sorted
  rw [hready, List.pairwise_cons] at hsorted
  have hp := h.mem_ready p
  rw [hready, List.mem_cons] at hp
  have hle := hreleased p
  have hmem : p ∈ released ↔ 0 < released.count p := List.count_pos_iff.symm
  simp only [List.mem_append, List.mem_singleton, not_or, hmem]
  constructor
  · rintro (hlater | ⟨hpos, hall⟩)
    · obtain ⟨hlt, hnot, hnone⟩ := hp.mp (Or.inr hlater)
      have hne : p ≠ position := fun heq => Nat.lt_irrefl _ (heq ▸ hsorted.1 p hlater)
      exact ⟨hlt, ⟨hnot, hne⟩, by omega⟩
    · -- What is released has waited, so it is neither taken nor the position itself.
      obtain ⟨hlt, hnot⟩ := h.untaken_of_pending_pos (Nat.lt_of_lt_of_le hpos hle)
      have hne : p ≠ position := by
        rintro rfl
        omega
      exact ⟨hlt, ⟨hnot, hne⟩, by omega⟩
  · rintro ⟨hlt, ⟨hnot, hne⟩, hdone⟩
    by_cases hpos : 0 < released.count p
    · exact Or.inr ⟨hpos, by omega⟩
    · rcases hp.mpr ⟨hlt, hnot, by omega⟩ with heq | hlater
      · exact absurd heq hne
      · exact Or.inl hlater

theorem takeNext (h : Sound vertices w) {next : Worklist} (hnext : w.takeNext? vertices = some next) :
    Sound vertices next := by
  cases hready : w.ready with
  | nil => simp [takeNext?, hready] at hnext
  | cons position later =>
    obtain ⟨hlt, hnot, _⟩ := h.ready_head hready
    have hsorted := h.ready_sorted
    rw [hready, List.pairwise_cons] at hsorted
    simp only [takeNext?, hready, Option.some.injEq] at hnext
    subst hnext
    refine ⟨?_, ?_, ?_, ?_, ?_, ?_, ?_⟩
    · rw [releaseAll_length]
      exact h.length_pending
    · intro p
      rw [releaseAll_pending, releaseAll_taken, count_dependents, h.pending_eq,
        remaining_append hnot hlt, Nat.add_sub_cancel]
    · exact releaseAll_sorted _ hsorted.2
    · intro p
      rw [mem_releaseAll_ready, releaseAll_pending, releaseAll_taken]
      exact h.mem_ready_takeNext hready (h.count_le_pending hready) p
    · rw [releaseAll_taken]
      exact List.nodup_append.mpr ⟨h.taken_nodup, List.nodup_singleton _, fun a ha b hb hab =>
        hnot (List.mem_singleton.mp hb ▸ hab ▸ ha)⟩
    · rw [releaseAll_taken]
      intro p hp
      rcases List.mem_append.mp hp with hp | hp
      · exact h.taken_lt p hp
      · exact List.mem_singleton.mp hp ▸ hlt
    · rw [releaseAll_taken]
      exact h.taken_order_append hready

theorem mem_taken_of_length (h : Sound vertices w) (hlen : vertices.length ≤ w.taken.length)
    {p : Nat} (hp : p < vertices.length) : p ∈ w.taken := by
  have hsub : w.taken ⊆ List.range vertices.length :=
    fun q hq => List.mem_range.mpr (h.taken_lt q hq)
  have hperm := (h.taken_nodup.subperm hsub).perm_of_length_le (by simpa using hlen)
  exact hperm.mem_iff.mpr (List.mem_range.mpr hp)

theorem takeNext_length {next : Worklist} (hnext : w.takeNext? vertices = some next) :
    next.taken.length = w.taken.length + 1 := by
  obtain ⟨position, later, _, htaken⟩ := taken_takeNext hnext
  rw [htaken, List.length_append, List.length_singleton]

/-- The work ends with nothing ready once it may go on for all positions that are left. -/
theorem exhaust (h : Sound vertices w) (fuel : Nat)
    (hfuel : vertices.length ≤ w.taken.length + fuel) :
    Sound vertices (exhaust vertices fuel w) ∧ (Worklist.exhaust vertices fuel w).ready = [] := by
  induction fuel generalizing w with
  | zero =>
    refine ⟨h, List.eq_nil_iff_forall_not_mem.mpr ?_⟩
    intro p hp
    obtain ⟨hlt, hnot, _⟩ := (h.mem_ready p).mp hp
    exact hnot (h.mem_taken_of_length hfuel hlt)
  | succ fuel ih =>
    cases hnext : w.takeNext? vertices with
    | none =>
      simp only [Worklist.exhaust, hnext]
      refine ⟨h, ?_⟩
      cases hready : w.ready with
      | nil => rfl
      | cons position later => simp [takeNext?, hready] at hnext
    | some next =>
      simp only [Worklist.exhaust, hnext]
      have hlen := takeNext_length hnext
      exact ih (h.takeNext hnext) (by omega)

theorem final (vertices : List Vertex) : Sound vertices (final vertices) :=
  ((initial vertices).exhaust vertices.length (Nat.le_add_left _ _)).1

theorem final_ready (vertices : List Vertex) : (Worklist.final vertices).ready = [] :=
  ((initial vertices).exhaust vertices.length (Nat.le_add_left _ _)).2

theorem mem_waiting (h : Sound vertices w) (hready : w.ready = []) (p : Nat) :
    p ∈ w.waiting ↔ p < vertices.length ∧ p ∉ w.taken := by
  simp only [waiting, List.mem_filter, List.mem_range, h.length_pending, decide_eq_true_eq]
  constructor
  · rintro ⟨_, hpos⟩
    exact h.untaken_of_pending_pos hpos
  · rintro ⟨hlt, hnot⟩
    refine ⟨hlt, Nat.pos_of_ne_zero fun hzero => ?_⟩
    have hmem := (h.mem_ready p).mpr ⟨hlt, hnot, hzero⟩
    rw [hready] at hmem
    cases hmem

/-- When nothing is ready, a position that is not taken lists one that is not taken. -/
theorem exists_untaken (h : Sound vertices w) (hready : w.ready = []) {p : Nat}
    (hlt : p < vertices.length) (hnot : p ∉ w.taken) :
    ∃ q < vertices.length, q ∉ w.taken ∧
      (vertices.getD q {}).digest ∈ (vertices.getD p {}).inputs := by
  by_contra hnone
  have hzero : w.pending.getD p 0 = 0 := by
    rw [h.pending_eq, remaining_eq_zero_iff]
    intro q hq hlists
    by_contra hq'
    exact hnone ⟨q, hq, hq', hlists⟩
  have hmem := (h.mem_ready p).mpr ⟨hlt, hnot, hzero⟩
  rw [hready] at hmem
  cases hmem

end Sound

end BuildProgress.Worklist
