import BuildProgress.Graph.Order
import BuildProgress.Proofs.Graph.Cycle
import BuildProgress.Proofs.Graph.Display
import BuildProgress.Proofs.Graph.Worklist

/-!
# The order of a batch is a topological order

The records that are taken respect their inputs, and the records that are left all lead to a cycle.
So a batch has an order exactly if its inputs have no cycle, and the error names what a cycle
blocks.
-/

namespace BuildProgress

set_option autoImplicit false

open Relation

/-- The records at the positions that the work takes, in that order. -/
def placed (display : List Entry) : List Entry :=
  (Worklist.final (display.map (·.vertex))).taken.map fun p => display.getD p default

/-- The records at the positions that still wait in the end. -/
def blocked (display : List Entry) : List Entry :=
  (Worklist.final (display.map (·.vertex))).waiting.map fun p => display.getD p default

theorem settle_eq (display : List Entry) :
    settle display = if (placed display).length = display.length then .ok (placed display)
      else .error (.contractViolation (.cyclicInputs ((blocked display).map (·.vertex.digest)))) := by
  simp only [settle, placed, blocked, List.length_map, List.map_map]
  rfl

section Positions

variable {display : List Entry}

theorem vertexAt_eq {p : Nat} (hp : p < display.length) :
    (display.map (·.vertex)).getD p {} = (display.getD p default).vertex := by
  simp [hp]

theorem getD_mem {p : Nat} (hp : p < display.length) : display.getD p default ∈ display := by
  simp [hp]

theorem getD_inj (hnodup : display.Nodup) {p q : Nat} (hp : p < display.length)
    (hq : q < display.length) (h : display.getD p default = display.getD q default) : p = q := by
  simp only [List.getD_eq_getElem?_getD, List.getElem?_eq_getElem hp, List.getElem?_eq_getElem hq,
    Option.getD_some] at h
  exact (hnodup.getElem_inj_iff).mp h

theorem exists_position {e : Entry} (he : e ∈ display) :
    ∃ p < display.length, display.getD p default = e := by
  obtain ⟨p, hp, rfl⟩ := List.getElem_of_mem he
  exact ⟨p, hp, by simp [hp]⟩

theorem sound_final (display : List Entry) :
    Worklist.Sound (display.map (·.vertex)) (Worklist.final (display.map (·.vertex))) :=
  .final _

theorem mem_placed_iff (hnodup : display.Nodup) {p : Nat} (hp : p < display.length) :
    display.getD p default ∈ placed display ↔
      p ∈ (Worklist.final (display.map (·.vertex))).taken := by
  constructor
  · intro h
    obtain ⟨q, hq, heq⟩ := List.mem_map.mp h
    have hlt := (sound_final display).taken_lt q hq
    rw [List.length_map] at hlt
    exact getD_inj hnodup hlt hp heq ▸ hq
  · exact fun h => List.mem_map_of_mem h

theorem placed_nodup (hnodup : display.Nodup) : (placed display).Nodup := by
  have hsound := sound_final display
  apply List.Nodup.map_on _ hsound.taken_nodup
  intro p hp q hq heq
  have hplt := hsound.taken_lt p hp
  have hqlt := hsound.taken_lt q hq
  rw [List.length_map] at hplt hqlt
  exact getD_inj hnodup hplt hqlt heq

theorem placed_subset (display : List Entry) : placed display ⊆ display := by
  intro e he
  obtain ⟨p, hp, rfl⟩ := List.mem_map.mp he
  have hlt := (sound_final display).taken_lt p hp
  rw [List.length_map] at hlt
  exact getD_mem hlt

theorem placed_respectsInputs (display : List Entry) :
    RespectsInputs display (placed display) := by
  have hsound := sound_final display
  intro earlier e later heq d ⟨_, hd, hlists⟩
  obtain ⟨before, rest, htaken, rfl, hrest⟩ := List.map_eq_append_iff.mp heq
  obtain ⟨p, after, rfl, rfl, _⟩ := List.map_eq_cons_iff.mp hrest
  obtain ⟨q, hq, rfl⟩ := exists_position hd
  have hp : p < display.length := by
    have hlt := hsound.taken_lt p (htaken ▸ List.mem_append_right _ List.mem_cons_self)
    rwa [List.length_map] at hlt
  rw [← vertexAt_eq hp, ← vertexAt_eq hq] at hlists
  exact List.mem_map_of_mem
    (hsound.taken_order before p after htaken q (by rwa [List.length_map]) hlists)

/-- A record that is left depends on one that is left. -/
theorem exists_unplaced (hnodup : display.Nodup) {e : Entry} (he : e ∈ display)
    (hnot : e ∉ placed display) : ∃ d, DependsOn display e d ∧ d ∉ placed display := by
  obtain ⟨p, hp, rfl⟩ := exists_position he
  rw [mem_placed_iff hnodup hp] at hnot
  obtain ⟨q, hq, hqnot, hlists⟩ := (sound_final display).exists_untaken
    (Worklist.Sound.final_ready _) (by rwa [List.length_map]) hnot
  rw [List.length_map] at hq
  rw [vertexAt_eq hp, vertexAt_eq hq] at hlists
  exact ⟨display.getD q default, ⟨he, getD_mem hq, hlists⟩, by rwa [mem_placed_iff hnodup hq]⟩

/-- What the work leaves is what leads to a cycle. -/
theorem not_mem_placed_iff (hnodup : display.Nodup) {e : Entry} (he : e ∈ display) :
    e ∉ placed display ↔ ReachesCycle display e := by
  constructor
  · intro hnot
    have hserial : ∀ x ∈ display.filter (· ∉ placed display),
        ∃ y ∈ display.filter (· ∉ placed display), DependsOn display x y := by
      intro x hx
      obtain ⟨hx, hxnot⟩ := List.mem_filter.mp hx
      obtain ⟨y, hxy, hynot⟩ := exists_unplaced hnodup hx (of_decide_eq_true hxnot)
      exact ⟨y, List.mem_filter.mpr ⟨hxy.2.1, decide_eq_true hynot⟩, hxy⟩
    exact exists_cycle_of_serial _ hserial (List.mem_filter.mpr ⟨he, decide_eq_true hnot⟩)
  · intro hreach hin
    exact (placed_respectsInputs display).not_reachesCycle hin hreach

theorem blocked_eq_filter (hnodup : display.Nodup) :
    blocked display = display.filter fun e => e ∉ placed display := by
  have hsound := sound_final display
  have hfilter : display.filter (fun e => e ∉ placed display) =
      ((List.range display.length).filter
        fun p => display.getD p default ∉ placed display).map fun p => display.getD p default := by
    conv => lhs; rw [← Worklist.map_range_getD display default]
    rw [List.filter_map, Worklist.map_range_getD]
    rfl
  rw [hfilter, blocked, Worklist.waiting, hsound.length_pending, List.length_map]
  congr 1
  apply List.filter_congr
  intro p hp
  have hlt := List.mem_range.mp hp
  have hwaiting := hsound.mem_waiting (Worklist.Sound.final_ready _) p
  rw [Worklist.waiting, List.mem_filter, hsound.length_pending, List.length_map] at hwaiting
  simp only [hp, hlt, true_and, decide_eq_true_eq] at hwaiting
  rw [← mem_placed_iff hnodup hlt] at hwaiting
  exact decide_eq_decide.mpr hwaiting

theorem placed_perm (hnodup : display.Nodup) (hlen : (placed display).length = display.length) :
    (placed display).Perm display :=
  ((placed_nodup hnodup).subperm (placed_subset display)).perm_of_length_le (Nat.le_of_eq hlen.symm)

theorem placed_length_iff (hnodup : display.Nodup) :
    (placed display).length = display.length ↔ Acyclic display := by
  rw [acyclic_iff]
  constructor
  · intro hlen e he hreach
    exact (not_mem_placed_iff hnodup he).mpr hreach ((placed_perm hnodup hlen).mem_iff.mpr he)
  · intro hfree
    have hall : display ⊆ placed display := by
      intro e he
      by_contra hnot
      exact hfree e he ((not_mem_placed_iff hnodup he).mp hnot)
    exact Nat.le_antisymm ((placed_nodup hnodup).subperm (placed_subset display)).length_le
      (hnodup.subperm hall).length_le

end Positions

theorem dependsOn_displayList (vertices : List Vertex) :
    DependsOn (displayList vertices) = DependsOn (entries vertices) := by
  funext e d
  simp only [DependsOn, mem_displayList]

theorem reachesCycle_displayList (vertices : List Vertex) (e : Entry) :
    ReachesCycle (displayList vertices) e ↔ ReachesCycle (entries vertices) e := by
  simp only [ReachesCycle, dependsOn_displayList]

theorem acyclic_displayList (vertices : List Vertex) :
    Acyclic (displayList vertices) ↔ Acyclic (entries vertices) := by
  simp only [Acyclic, dependsOn_displayList]

/-- An accepted batch is processed in an order that holds each record once and respects inputs. -/
theorem orderEntries_ok {vertices : List Vertex} {ordered : List Entry}
    (h : orderEntries vertices = .ok ordered) :
    ordered.Perm (entries vertices) ∧ RespectsInputs (entries vertices) ordered := by
  rw [orderEntries, settle_eq] at h
  split at h
  · rename_i hlen
    obtain rfl := Except.ok.inj h
    refine ⟨(placed_perm (displayList_nodup vertices) hlen).trans (displayList_perm vertices), ?_⟩
    intro earlier e later heq d hd
    rw [← dependsOn_displayList] at hd
    exact placed_respectsInputs _ earlier e later heq d hd
  · cases h

theorem orderVertices_eq_ok_iff {vertices order : List Vertex} :
    orderVertices vertices = .ok order ↔
      ∃ ordered, orderEntries vertices = .ok ordered ∧ ordered.map (·.vertex) = order := by
  unfold orderVertices
  cases orderEntries vertices with
  | error e => simp [Except.map]
  | ok ordered => simp [Except.map]

theorem orderVertices_eq_error_iff {vertices : List Vertex} {e : BuildError} :
    orderVertices vertices = .error e ↔ orderEntries vertices = .error e := by
  unfold orderVertices
  cases orderEntries vertices with
  | error e => simp [Except.map]
  | ok ordered => simp [Except.map]

/-- A digest that all records of another digest list comes before that digest. -/
theorem orderVertices_digests {vertices ordered : List Vertex} {a b : String}
    (h : orderVertices vertices = .ok ordered)
    (hlists : ∀ v ∈ vertices, v.digest = b → a ∈ v.inputs) :
    (ordered.map (·.digest)).Pairwise (fun x y => ¬ (x = b ∧ y = a)) ∧
      (b ∈ ordered.map (·.digest) → a ≠ b) := by
  obtain ⟨placed, hplaced, rfl⟩ := orderVertices_eq_ok_iff.mp h
  obtain ⟨hperm, hrespects⟩ := orderEntries_ok hplaced
  have hnodup := hperm.nodup_iff.mpr (entries_nodup vertices)
  have hdepends {e d : Entry} (he : e ∈ placed) (hd : d ∈ placed) (heb : e.vertex.digest = b)
      (hda : d.vertex.digest = a) : DependsOn (entries vertices) e d := by
    have he' := hperm.mem_iff.mp he
    have hin : e.vertex ∈ vertices := by
      rw [← entries_vertex vertices]
      exact List.mem_map_of_mem he'
    exact ⟨he', hperm.mem_iff.mp hd, hda ▸ hlists e.vertex hin heb⟩
  constructor
  · rw [List.map_map, List.pairwise_map]
    apply (hrespects.pairwise hnodup).imp_of_mem
    rintro e d he hd hnot ⟨heb, hda⟩
    exact hnot (hdepends he hd heb hda)
  · rintro hb rfl
    obtain ⟨v, hv, heb⟩ := List.mem_map.mp hb
    obtain ⟨e, he, rfl⟩ := List.mem_map.mp hv
    exact Nat.lt_irrefl _ (hrespects.idxOf_lt he (.single (hdepends he he heb heb))).2

theorem orderVertices_perm {vertices ordered : List Vertex}
    (h : orderVertices vertices = .ok ordered) : ordered.Perm vertices := by
  obtain ⟨placed, hplaced, rfl⟩ := orderVertices_eq_ok_iff.mp h
  have hperm := (orderEntries_ok hplaced).1.map (·.vertex)
  rwa [entries_vertex] at hperm

/-- Nothing but a cycle keeps a batch from being ordered. -/
theorem orderVertices_error {vertices : List Vertex} {e : BuildError}
    (h : orderVertices vertices = .error e) :
    ∃ digests, e = .contractViolation (.cyclicInputs digests) := by
  rw [orderVertices_eq_error_iff, orderEntries, settle_eq] at h
  split at h
  · cases h
  · exact ⟨_, (Except.error.inj h).symm⟩

open Classical in
/-- A batch is ordered exactly if its inputs have no cycle: then every record comes once and after
all records that it depends on. The error of any other batch names, in display order, the records
that lead to a cycle. -/
theorem orderVertices_topological (vertices : List Vertex) :
    ((∃ order, orderVertices vertices = .ok order) ↔ Acyclic (entries vertices)) ∧
    (∀ order, orderVertices vertices = .ok order → ∃ ordered : List Entry,
      order = ordered.map (·.vertex) ∧ ordered.Perm (entries vertices) ∧
      RespectsInputs (entries vertices) ordered) ∧
    (∀ e, orderVertices vertices = .error e → e = .contractViolation (.cyclicInputs
      (((displayList vertices).filter fun d => ReachesCycle (entries vertices) d).map
        (·.vertex.digest)))) := by
  have hnodup := displayList_nodup vertices
  have hlength := (placed_length_iff hnodup).trans (acyclic_displayList vertices)
  have hblocked : blocked (displayList vertices) =
      (displayList vertices).filter fun d => ReachesCycle (entries vertices) d := by
    rw [blocked_eq_filter hnodup]
    apply List.filter_congr
    intro d hd
    exact decide_eq_decide.mpr
      ((not_mem_placed_iff hnodup hd).trans (reachesCycle_displayList vertices d))
  refine ⟨?_, ?_, ?_⟩
  · simp only [orderVertices_eq_ok_iff]
    rw [← hlength, orderEntries, settle_eq]
    constructor
    · rintro ⟨order, ordered, h, _⟩
      by_contra hlen
      rw [if_neg hlen] at h
      cases h
    · intro hlen
      exact ⟨_, _, if_pos hlen, rfl⟩
  · intro order h
    obtain ⟨ordered, hordered, rfl⟩ := orderVertices_eq_ok_iff.mp h
    exact ⟨ordered, rfl, orderEntries_ok hordered⟩
  · intro e h
    rw [orderVertices_eq_error_iff, orderEntries, settle_eq, hblocked] at h
    split at h
    · cases h
    · exact (Except.error.inj h).symm

theorem orderVertices_topological_input_first :
    let input : Vertex := { digest := "a" }
    let user : Vertex := { digest := "b", inputs := ["a"] }
    let batch := [input, user, input]
    Acyclic (entries batch) ∧ ∃ ordered : List Entry,
      [input, input, user] = ordered.map (·.vertex) ∧ ordered.Perm (entries batch) ∧
      RespectsInputs (entries batch) ordered := by
  intro input user batch
  have hok : orderVertices batch = .ok [input, input, user] := by decide
  obtain ⟨hacyclic, horder, _⟩ := orderVertices_topological batch
  exact ⟨hacyclic.mp ⟨_, hok⟩, horder _ hok⟩

end BuildProgress
