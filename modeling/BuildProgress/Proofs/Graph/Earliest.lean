import BuildProgress.Proofs.Graph.Order
import Mathlib.Data.List.Lex

/-!
# The earliest order

A batch may have many orders that respect its inputs. The work takes the least ready position every
time, so that its order is the one that keeps closest to the display list: at the first place where
another order differs from it, the other order has a record that is shown later.
-/

namespace BuildProgress

set_option autoImplicit false

namespace Worklist

variable {vertices : List Vertex} {w next : Worklist} {position : Nat} {later : List Nat}

/-- No position was taken while a smaller one that was left had all its inputs taken. -/
def Greedy (vertices : List Vertex) (taken : List Nat) : Prop :=
  ∀ earlier p later, taken = earlier ++ p :: later → ∀ q < vertices.length, q ∉ earlier →
    (∀ d < vertices.length,
      (vertices.getD d {}).digest ∈ (vertices.getD q {}).inputs → d ∈ earlier) → p ≤ q

theorem Greedy.nil (vertices : List Vertex) : Greedy vertices [] := by
  intro earlier p later heq
  simp at heq

/-- The least ready position is the least of all that wait for nothing. -/
theorem Sound.ready_head_le (h : Sound vertices w) (hready : w.ready = position :: later) {q : Nat}
    (hq : q < vertices.length) (hnot : q ∉ w.taken)
    (hinputs : ∀ d < vertices.length,
      (vertices.getD d {}).digest ∈ (vertices.getD q {}).inputs → d ∈ w.taken) : position ≤ q := by
  have hzero : w.pending.getD q 0 = 0 := by
    rw [h.pending_eq, remaining_eq_zero_iff]
    exact hinputs
  have hmem := (h.mem_ready q).mpr ⟨hq, hnot, hzero⟩
  have hsorted := h.ready_sorted
  rw [hready, List.pairwise_cons] at hsorted
  rw [hready] at hmem
  rcases List.mem_cons.mp hmem with rfl | hlater
  · exact Nat.le_refl q
  · exact Nat.le_of_lt (hsorted.1 q hlater)

theorem Greedy.takeNext (hsound : Sound vertices w) (h : Greedy vertices w.taken)
    (hnext : w.takeNext? vertices = some next) : Greedy vertices next.taken := by
  obtain ⟨position, later, hready, htaken⟩ := taken_takeNext hnext
  rw [htaken]
  intro earlier p rest heq q hq hnot hinputs
  rcases concat_eq_append_cons heq with ⟨rfl, rfl, _⟩ | ⟨rest, _, hsplit⟩
  · exact hsound.ready_head_le hready hq hnot hinputs
  · exact h earlier p rest hsplit q hq hnot hinputs

theorem Greedy.exhaust (hsound : Sound vertices w) (h : Greedy vertices w.taken) (fuel : Nat) :
    Greedy vertices (Worklist.exhaust vertices fuel w).taken := by
  induction fuel generalizing w with
  | zero => exact h
  | succ fuel ih =>
    cases hnext : w.takeNext? vertices with
    | none => simpa only [Worklist.exhaust, hnext] using h
    | some next =>
      simp only [Worklist.exhaust, hnext]
      exact ih (hsound.takeNext hnext) (h.takeNext hsound hnext)

theorem Greedy.final (vertices : List Vertex) : Greedy vertices (final vertices).taken :=
  Greedy.exhaust (.initial vertices) (.nil vertices) vertices.length

end Worklist

section Earliest

variable {display earlier later : List Entry} {e d : Entry}

theorem idxOf_getD (hnodup : display.Nodup) {p : Nat} (hp : p < display.length) :
    display.idxOf (display.getD p default) = p := by
  have hget : display.getD p default = display[p] := by simp [hp]
  rw [hget, hnodup.idxOf_getElem]

/-- A record is placed before all that are shown later and could be placed as well. -/
theorem placed_greedy (hnodup : display.Nodup) (h : placed display = earlier ++ e :: later)
    (hd : d ∈ display) (hnot : d ∉ earlier) (hinputs : ∀ x, DependsOn display d x → x ∈ earlier) :
    display.idxOf e ≤ display.idxOf d := by
  have hsound := sound_final display
  obtain ⟨before, rest, htaken, rfl, hrest⟩ := List.map_eq_append_iff.mp h
  obtain ⟨p, after, rfl, rfl, _⟩ := List.map_eq_cons_iff.mp hrest
  obtain ⟨q, hq, rfl⟩ := exists_position hd
  have hlt {x : Nat} (hx : x ∈ before ++ p :: after) : x < display.length := by
    have hbound := hsound.taken_lt x (htaken ▸ hx)
    rwa [List.length_map] at hbound
  rw [idxOf_getD hnodup (hlt (List.mem_append_right _ List.mem_cons_self)), idxOf_getD hnodup hq]
  apply Worklist.Greedy.final _ before p after htaken q (by rwa [List.length_map])
  · exact fun hin => hnot (List.mem_map_of_mem hin)
  · intro x hx hlists
    rw [List.length_map] at hx
    rw [vertexAt_eq hx, vertexAt_eq hq] at hlists
    obtain ⟨y, hy, heq⟩ := List.mem_map.mp (hinputs _ ⟨hd, getD_mem hx, hlists⟩)
    exact getD_inj hnodup (hlt (List.mem_append_left _ hy)) hx heq ▸ hy

end Earliest

/-- An order in which the records of a batch may be processed. -/
structure IsOrder (batch ordered : List Entry) : Prop where
  perm : ordered.Perm batch
  respects : RespectsInputs batch ordered

/-- At the first place where two lists differ, the first of them has the record that comes earlier in
the display list. -/
def ShownBefore (display xs ys : List Entry) : Prop :=
  ∃ shared e xs' d ys', xs = shared ++ e :: xs' ∧ ys = shared ++ d :: ys' ∧
    display.idxOf e < display.idxOf d

theorem exists_first_difference {α : Type} {xs ys : List α} (hlen : xs.length = ys.length)
    (hne : xs ≠ ys) :
    ∃ shared x xs' y ys', xs = shared ++ x :: xs' ∧ ys = shared ++ y :: ys' ∧ x ≠ y := by
  induction xs generalizing ys with
  | nil => exact absurd (List.eq_nil_of_length_eq_zero hlen.symm).symm hne
  | cons x xs ih =>
    cases ys with
    | nil => cases hlen
    | cons y ys =>
      by_cases hxy : x = y
      · subst hxy
        obtain ⟨shared, a, xs', b, ys', rfl, rfl, hab⟩ :=
          ih (Nat.succ.inj hlen) fun heq => hne (congrArg (x :: ·) heq)
        exact ⟨x :: shared, a, xs', b, ys', rfl, rfl, hab⟩
      · exact ⟨[], x, xs, y, ys, rfl, rfl, hxy⟩

/-- What is shown before another list comes before it in the lexicographic order of places. -/
theorem ShownBefore.places_lt {display xs ys : List Entry} (h : ShownBefore display xs ys) :
    xs.map display.idxOf < ys.map display.idxOf := by
  obtain ⟨shared, e, xs', d, ys', rfl, rfl, hlt⟩ := h
  rw [List.map_append, List.map_append]
  exact List.Lex.append_left _ (List.Lex.rel hlt) _

section Batch

variable {vertices : List Vertex} {ordered other : List Entry}

theorem acyclic_iff_placed_length : Acyclic (entries vertices) ↔
    (placed (displayList vertices)).length = (displayList vertices).length :=
  (acyclic_displayList vertices).symm.trans (placed_length_iff (displayList_nodup vertices)).symm

theorem orderEntries_of_acyclic (h : Acyclic (entries vertices)) :
    orderEntries vertices = .ok (placed (displayList vertices)) := by
  rw [orderEntries, settle_eq, if_pos (acyclic_iff_placed_length.mp h)]

theorem orderVertices_of_orderEntries (h : orderEntries vertices = .ok ordered) :
    orderVertices vertices = .ok (ordered.map (·.vertex)) :=
  orderVertices_eq_ok_iff.mpr ⟨ordered, h, rfl⟩

theorem exists_orderVertices_iff :
    (∃ order, orderVertices vertices = .ok order) ↔ Acyclic (entries vertices) := by
  constructor
  · rintro ⟨order, horder⟩
    obtain ⟨ordered, hordered, _⟩ := orderVertices_eq_ok_iff.mp horder
    rw [orderEntries, settle_eq] at hordered
    split at hordered
    · exact acyclic_iff_placed_length.mpr ‹_›
    · cases hordered
  · exact fun h => ⟨_, orderVertices_of_orderEntries (orderEntries_of_acyclic h)⟩

theorem isOrder_of_orderEntries (h : orderEntries vertices = .ok ordered) :
    IsOrder (entries vertices) ordered :=
  ⟨(orderEntries_ok h).1, (orderEntries_ok h).2⟩

theorem IsOrder.nodup (h : IsOrder (entries vertices) ordered) : ordered.Nodup :=
  h.perm.nodup_iff.mpr (entries_nodup vertices)

theorem IsOrder.mem_displayList (h : IsOrder (entries vertices) ordered) {e : Entry}
    (he : e ∈ ordered) : e ∈ displayList vertices :=
  (BuildProgress.mem_displayList vertices e).mpr (h.perm.mem_iff.mp he)

/-- No order can have an earlier record where it first departs from the work. -/
theorem placed_shownBefore (h : IsOrder (entries vertices) (placed (displayList vertices)))
    (hother : IsOrder (entries vertices) other) (hne : other ≠ placed (displayList vertices)) :
    ShownBefore (displayList vertices) (placed (displayList vertices)) other := by
  have hlen := (h.perm.trans hother.perm.symm).length_eq
  obtain ⟨shared, e, xs', d, ys', hplaced, rfl, hed⟩ := exists_first_difference hlen (Ne.symm hne)
  refine ⟨shared, e, xs', d, ys', hplaced, rfl, ?_⟩
  have he : e ∈ displayList vertices := h.mem_displayList (hplaced ▸ by simp)
  have hd : d ∈ displayList vertices := hother.mem_displayList (by simp)
  have hnew : d ∉ shared := fun hin =>
    (List.nodup_append.mp hother.nodup).2.2 d hin d List.mem_cons_self rfl
  have hle : (displayList vertices).idxOf e ≤ (displayList vertices).idxOf d := by
    apply placed_greedy (displayList_nodup vertices) hplaced hd hnew
    intro x hx
    rw [dependsOn_displayList] at hx
    exact hother.respects shared d ys' rfl x hx
  exact Nat.lt_of_le_of_ne hle fun heq => hed ((List.idxOf_inj he).mp heq)

/-- Nothing is shown before the display list itself. -/
theorem not_shownBefore_displayList (h : IsOrder (entries vertices) ordered) :
    ¬ ShownBefore (displayList vertices) ordered (displayList vertices) := by
  rintro ⟨shared, e, xs', d, ys', rfl, hdisplay, hlt⟩
  have hnodup := displayList_nodup vertices
  have hnew : e ∉ shared := fun hin =>
    (List.nodup_append.mp h.nodup).2.2 e hin e List.mem_cons_self rfl
  rw [hdisplay] at hlt hnodup
  have hd : d ∉ shared := fun hin =>
    (List.nodup_append.mp hnodup).2.2 d hin d List.mem_cons_self rfl
  rw [List.idxOf_append_of_notMem hnew, List.idxOf_append_of_notMem hd, List.idxOf_cons_self] at hlt
  omega

/-- What is shown in an order that respects the inputs is processed as it is shown. -/
theorem placed_eq_displayList (hacyclic : Acyclic (entries vertices))
    (hrespects : RespectsInputs (entries vertices) (displayList vertices)) :
    placed (displayList vertices) = displayList vertices := by
  have hordered := isOrder_of_orderEntries (orderEntries_of_acyclic hacyclic)
  have hdisplay : IsOrder (entries vertices) (displayList vertices) :=
    ⟨displayList_perm vertices, hrespects⟩
  by_contra hne
  exact not_shownBefore_displayList hordered (placed_shownBefore hordered hdisplay (Ne.symm hne))

end Batch

/-- A batch without a cycle is processed in the order that respects its inputs and is shown before all
other such orders. No other order has this property, and it is the display list itself if that respects
the inputs. -/
theorem orderEntries_earliest (vertices : List Vertex) (hacyclic : Acyclic (entries vertices)) :
    ∃ ordered, orderEntries vertices = .ok ordered ∧
      orderVertices vertices = .ok (ordered.map (·.vertex)) ∧
      IsOrder (entries vertices) ordered ∧
      (∀ other, IsOrder (entries vertices) other → other ≠ ordered →
        ShownBefore (displayList vertices) ordered other ∧
        ordered.map (displayList vertices).idxOf < other.map (displayList vertices).idxOf) ∧
      (∀ other, IsOrder (entries vertices) other →
        (∀ third, IsOrder (entries vertices) third → third ≠ other →
          other.map (displayList vertices).idxOf < third.map (displayList vertices).idxOf) →
        other = ordered) ∧
      (RespectsInputs (entries vertices) (displayList vertices) →
        ordered = displayList vertices) := by
  have hok := orderEntries_of_acyclic hacyclic
  have hordered := isOrder_of_orderEntries hok
  refine ⟨_, hok, orderVertices_of_orderEntries hok, hordered, ?_, ?_,
    placed_eq_displayList hacyclic⟩
  · intro other hother hne
    have hbefore := placed_shownBefore hordered hother hne
    exact ⟨hbefore, hbefore.places_lt⟩
  · intro other hother hleast
    by_contra hne
    have hlt := (placed_shownBefore hordered hother hne).places_lt
    exact lt_asymm hlt (hleast _ hordered (Ne.symm hne))

/-- The record that is shown first lists a digest twice, which two others have: one of them is shown
last. -/
theorem orderEntries_earliest_input_shown_last :
    let user : Vertex := { digest := "b", name := "[2/2] RUN x", inputs := ["a", "a"] }
    let image : Vertex := { digest := "a", name := "exporting to image" }
    let other : Vertex := { digest := "c", name := "x" }
    let input : Vertex := { digest := "a", name := "y" }
    let batch := [user, image, other, input]
    let order : List Entry := [⟨2, other⟩, ⟨3, input⟩, ⟨1, image⟩, ⟨0, user⟩]
    Acyclic (entries batch) ∧ displayList batch = [⟨0, user⟩, ⟨2, other⟩, ⟨3, input⟩, ⟨1, image⟩] ∧
      orderEntries batch = .ok order ∧
      ∀ third, IsOrder (entries batch) third → third ≠ order →
        ShownBefore (displayList batch) order third := by
  intro user image other input batch order
  have hacyclic : Acyclic (entries batch) := acyclic_iff_placed_length.mpr (by decide +kernel)
  have hok : orderEntries batch = .ok order := by decide +kernel
  obtain ⟨ordered, hordered, _, _, hbefore, _⟩ := orderEntries_earliest batch hacyclic
  obtain rfl := Except.ok.inj (hok.symm.trans hordered)
  exact ⟨hacyclic, by decide +kernel, hok, fun third hthird hne => (hbefore third hthird hne).1⟩

end BuildProgress
