import BuildProgress.Proofs.Graph.Earliest
import BuildProgress.Proofs.Graph.Stages

/-!
# Classes in the order of a batch

Inputs may bring a record forward past records of lower classes. As long as the records up to some
class need no record beyond it, none beyond it is brought forward: a record that is merely blocked is
blocked by one of its own side, so that the earliest record that is left can always be taken.
-/

namespace BuildProgress

set_option autoImplicit false

theorem pairwise_of_splits {α : Type} {R : α → α → Prop} {xs : List α}
    (h : ∀ earlier x later, xs = earlier ++ x :: later → ∀ y ∈ later, R x y) : xs.Pairwise R := by
  induction xs with
  | nil => exact List.Pairwise.nil
  | cons x xs ih =>
    refine List.pairwise_cons.mpr ⟨h [] x xs rfl, ih ?_⟩
    intro earlier y later heq
    exact h (x :: earlier) y later (congrArg (x :: ·) heq)

section Ranks

variable {display earlier later : List Entry} {e d : Entry} {limit : Nat}

theorem rank_le_of_idxOf_le (hsorted : display.Pairwise fun e d => e.rank ≤ d.rank)
    (he : e ∈ display) (hd : d ∈ display) (hle : display.idxOf e ≤ display.idxOf d) :
    e.rank ≤ d.rank := by
  rcases Nat.lt_or_eq_of_le hle with hlt | heq
  · have hrank := List.pairwise_iff_getElem.mp hsorted _ _ (List.idxOf_lt_length_of_mem he)
      (List.idxOf_lt_length_of_mem hd) hlt
    rwa [List.getElem_idxOf, List.getElem_idxOf] at hrank
  · rw [(List.idxOf_inj he).mp heq]

/-- The records up to a rank need none beyond it. -/
def ClosedUpTo (limit : Nat) (batch : List Entry) : Prop :=
  ∀ e d, DependsOn batch e d → e.rank ≤ limit → d.rank ≤ limit

/-- The first of the records up to a rank that come after one beyond it could have been taken in the
place of that one. -/
theorem not_beyond_before (hnodup : display.Nodup)
    (hsorted : display.Pairwise fun e d => e.rank ≤ d.rank) (hclosed : ClosedUpTo limit display)
    {between after : List Entry} (hplaced : placed display = earlier ++ e :: (between ++ d :: after))
    (hbetween : ∀ x ∈ between, limit < x.rank) (he : limit < e.rank) (hd : d.rank ≤ limit) :
    False := by
  have hmem {x : Entry} (hx : x ∈ earlier ++ e :: (between ++ d :: after)) : x ∈ display :=
    placed_subset display (hplaced ▸ hx)
  have hsplit : placed display = (earlier ++ e :: between) ++ d :: after := by simpa using hplaced
  have hinputs : ∀ x, DependsOn display d x → x ∈ earlier := by
    intro x hx
    have hlow : x.rank ≤ limit := hclosed d x hx hd
    rcases List.mem_append.mp (placed_respectsInputs display _ d after hsplit x hx) with hin | hin
    · exact hin
    · rcases List.mem_cons.mp hin with rfl | hin
      · exact absurd he (Nat.not_lt.mpr hlow)
      · exact absurd (hbetween x hin) (Nat.not_lt.mpr hlow)
  have hnew : d ∉ earlier := fun hin => by
    have hboth := placed_nodup hnodup
    rw [hplaced] at hboth
    exact (List.nodup_append.mp hboth).2.2 d hin d (by simp) rfl
  have hle := placed_greedy hnodup hplaced (hmem (by simp)) hnew hinputs
  have hrank := rank_le_of_idxOf_le hsorted (hmem (by simp)) (hmem (by simp)) hle
  omega

/-- After a record beyond a rank come only such records. -/
theorem placed_classes (hnodup : display.Nodup)
    (hsorted : display.Pairwise fun e d => e.rank ≤ d.rank) (hclosed : ClosedUpTo limit display) :
    (placed display).Pairwise fun e d => limit < e.rank → limit < d.rank := by
  apply pairwise_of_splits
  intro earlier e later hplaced d hd he
  by_contra hlow
  have hsome : (later.find? fun x => x.rank ≤ limit).isSome := by
    rw [List.find?_isSome]
    exact ⟨d, hd, by simpa using hlow⟩
  obtain ⟨first, hfirst⟩ := Option.isSome_iff_exists.mp hsome
  obtain ⟨hrank, between, after, rfl, hbetween⟩ := List.find?_eq_some_iff_append.mp hfirst
  apply not_beyond_before hnodup hsorted hclosed hplaced _ he (by simpa using hrank)
  intro x hx
  simpa using hbetween x hx

end Ranks

theorem DisplayClass.rank_ofBracketed (inner : List Char) :
    (DisplayClass.ofBracketed inner).rank = 2 := by
  unfold ofBracketed
  dsimp only
  split <;> rfl

/-- Only the record that exports the image is beyond the records without a prefix. -/
theorem Entry.beyond_unprefixed_iff (e : Entry) :
    DisplayClass.unprefixed.rank < e.rank ↔ e.vertex.name = DisplayClass.exportName := by
  unfold Entry.rank Entry.displayClass DisplayClass.ofName
  split
  · rename_i hname
    simp [hname, DisplayClass.rank]
  · rename_i hname
    simp only [hname, iff_false, Nat.not_lt]
    split
    · cases DisplayClass.definitionMark.toList.isPrefixOf e.vertex.name.toList <;> decide
    · split
      · rw [DisplayClass.rank_ofBracketed]
        decide
      · exact Nat.le_refl _

/-- If no record up to some class depends on one beyond it, then after a record beyond that class come
only such records. So the export of the image comes last unless a record depends on it. -/
theorem orderEntries_classes (vertices : List Vertex) (hacyclic : Acyclic (entries vertices)) :
    ∃ ordered, orderEntries vertices = .ok ordered ∧
      orderVertices vertices = .ok (ordered.map (·.vertex)) ∧
      ordered.Perm (entries vertices) ∧
      (∀ kind : DisplayClass, ClosedUpTo kind.rank (entries vertices) →
        ordered.Pairwise fun e d => kind.rank < e.rank → kind.rank < d.rank) ∧
      ((∀ e d, DependsOn (entries vertices) e d → d.vertex.name = DisplayClass.exportName →
          e.vertex.name = DisplayClass.exportName) →
        ordered.Pairwise fun e d => e.vertex.name = DisplayClass.exportName →
          d.vertex.name = DisplayClass.exportName) := by
  have hok := orderEntries_of_acyclic hacyclic
  have hclasses (kind : DisplayClass) (hclosed : ClosedUpTo kind.rank (entries vertices)) :
      (placed (displayList vertices)).Pairwise fun e d => kind.rank < e.rank → kind.rank < d.rank := by
    apply placed_classes (displayList_nodup vertices) (displayList_sorted vertices)
    rwa [ClosedUpTo, dependsOn_displayList]
  refine ⟨_, hok, orderVertices_of_orderEntries hok, (orderEntries_ok hok).1, hclasses, ?_⟩
  intro hexport
  have hclosed : ClosedUpTo DisplayClass.unprefixed.rank (entries vertices) := by
    intro e d hdepends hlow
    by_contra hbeyond
    have hname := d.beyond_unprefixed_iff.mp (Nat.not_le.mp hbeyond)
    have he := e.beyond_unprefixed_iff.mpr (hexport e d hdepends hname)
    omega
  apply (hclasses .unprefixed hclosed).imp
  intro e d himp hname
  exact d.beyond_unprefixed_iff.mp (himp (e.beyond_unprefixed_iff.mpr hname))

/-- The export waits for nothing, and the record that is shown first waits for a record without a prefix,
which waits for a stage. -/
theorem orderEntries_classes_export_ready :
    let image : Vertex := { digest := "i", name := "exporting to image" }
    let loader : Vertex :=
      { digest := "l", name := "[internal] load build definition from a", inputs := ["x"] }
    let plain : Vertex := { digest := "x", name := "x", inputs := ["s"] }
    let staged : Vertex := { digest := "s", name := "[1/1] FROM a" }
    let batch := [image, loader, plain, staged]
    Acyclic (entries batch) ∧ ClosedUpTo DisplayClass.unprefixed.rank (entries batch) ∧
      (∀ e d, DependsOn (entries batch) e d → d.vertex.name = DisplayClass.exportName →
        e.vertex.name = DisplayClass.exportName) ∧
      ∃ ordered, orderEntries batch = .ok ordered ∧
        ordered = [⟨3, staged⟩, ⟨2, plain⟩, ⟨1, loader⟩, ⟨0, image⟩] ∧
        (ordered.Pairwise fun e d => DisplayClass.unprefixed.rank < e.rank →
          DisplayClass.unprefixed.rank < d.rank) ∧
        ordered.Pairwise fun e d => e.vertex.name = DisplayClass.exportName →
          d.vertex.name = DisplayClass.exportName := by
  intro image loader plain staged batch
  have hacyclic : Acyclic (entries batch) := acyclic_iff_placed_length.mpr (by decide +kernel)
  have hranks : ∀ e ∈ entries batch, ∀ d ∈ entries batch, d.vertex.digest ∈ e.vertex.inputs →
      d.rank ≤ DisplayClass.unprefixed.rank ∧ d.vertex.name ≠ DisplayClass.exportName := by
    decide +kernel
  have hclosed : ClosedUpTo DisplayClass.unprefixed.rank (entries batch) :=
    fun e d ⟨he, hd, hlists⟩ _ => (hranks e he d hd hlists).1
  have hexport : ∀ e d, DependsOn (entries batch) e d → d.vertex.name = DisplayClass.exportName →
      e.vertex.name = DisplayClass.exportName :=
    fun e d ⟨he, hd, hlists⟩ hname => absurd hname (hranks e he d hd hlists).2
  have hok : orderEntries batch = .ok [⟨3, staged⟩, ⟨2, plain⟩, ⟨1, loader⟩, ⟨0, image⟩] := by
    decide +kernel
  obtain ⟨ordered, hordered, _, _, hkinds, hlast⟩ := orderEntries_classes batch hacyclic
  obtain rfl := Except.ok.inj (hok.symm.trans hordered)
  exact ⟨hacyclic, hclosed, hexport, _, hok, rfl, hkinds .unprefixed hclosed, hlast hexport⟩

end BuildProgress
