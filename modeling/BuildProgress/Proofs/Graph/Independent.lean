import BuildProgress.Proofs.Graph.Earliest
import BuildProgress.Proofs.Graph.Stages

/-!
# Batches in which no record depends on another

Such a batch is processed as it is shown: class by class, and in the order of the batch but for the
stages, whose records are sorted by step number in the places of the stage. A record without a number
that can be read counts as one with the largest number, so that it may come before a record that has
that number.
-/

namespace BuildProgress

set_option autoImplicit false

open BuildProgress.Text

/-- No record lists the digest of a record of the batch. -/
def Independent (vertices : List Vertex) : Prop :=
  ∀ v ∈ vertices, ∀ u ∈ vertices, u.digest ∉ v.inputs

namespace Entry

/-- The number of a record in its stage, if it can be read. -/
def counter? (e : Entry) : Option Nat :=
  match e.displayClass with
  | .stage _ step => step
  | _ => none

def countedAs (e : Entry) : Nat :=
  e.counter?.getD maxUnsigned

theorem stepKey_eq (e : Entry) : e.stepKey = e.countedAs := by
  unfold stepKey countedAs counter?
  cases e.displayClass <;> rfl

end Entry

/-- The records of a batch class by class. The records of a class other than that of the stages come as
in the batch, and so do the stages of the other records; the records of a stage are sorted by number. -/
structure ShownByClass (batch shown : List Entry) : Prop where
  perm : shown.Perm batch
  classes : shown.Pairwise fun e d => e.rank ≤ d.rank
  others : ∀ kind : DisplayClass, kind.stage? = none →
    shown.filter (·.displayClass = kind) = batch.filter (·.displayClass = kind)
  stages : (shown.filter Entry.isStaged).map Entry.stage? =
    (batch.filter Entry.isStaged).map Entry.stage?
  numbers : ∀ stage, (shown.filter (·.stage? == some stage)).Pairwise
    (Stably Entry.countedAs fun e d => e.index < d.index)
  /-- After a record without a number come only records without one or with the largest one. -/
  unnumbered : ∀ stage, (shown.filter (·.stage? == some stage)).Pairwise fun e d =>
    e.counter? = none → d.counter? = none ∨ d.counter? = some maxUnsigned

theorem readDigits?_le {digits : List Char} {n : Nat} (h : readDigits? digits = some n) :
    n ≤ maxUnsigned := by
  unfold readDigits? at h
  split at h
  · rename_i hfits
    obtain rfl := Option.some.inj h
    exact of_decide_eq_true (Bool.and_eq_true_iff.mp hfits).2
  · cases h

theorem readCount?_le {text : List Char} {n : Nat} (h : readCount? text = some n) :
    n ≤ maxUnsigned := by
  unfold readCount? at h
  split at h <;> exact readDigits?_le h

namespace DisplayClass

theorem ofBracketed_step_le {inner name : List Char} {n : Nat}
    (h : ofBracketed inner = .stage name (some n)) : n ≤ maxUnsigned := by
  unfold ofBracketed at h
  dsimp only at h
  split at h
  · rename_i step hstep
    obtain ⟨_, _, hread⟩ := Option.bind_eq_some_iff.mp hstep
    obtain ⟨_, hn⟩ := DisplayClass.stage.inj h
    exact Option.some.inj hn ▸ readCount?_le hread
  · cases h

theorem ofName_step_le {text : String} {name : List Char} {n : Nat}
    (h : ofName text = .stage name (some n)) : n ≤ maxUnsigned := by
  unfold ofName at h
  split at h
  · cases h
  · split at h
    · cases h
    · split at h
      · exact ofBracketed_step_le h
      · cases h

end DisplayClass

theorem Entry.counter?_le {e : Entry} {n : Nat} (h : e.counter? = some n) : n ≤ maxUnsigned := by
  unfold counter? at h
  split at h
  · rename_i name step hclass
    rw [h] at hclass
    exact DisplayClass.ofName_step_le hclass
  · cases h

/-- What counts for as much as a record without a number has none or the largest one. -/
theorem Entry.counter?_of_countedAs_le {e d : Entry} (he : e.counter? = none)
    (hle : e.countedAs ≤ d.countedAs) : d.counter? = none ∨ d.counter? = some maxUnsigned := by
  cases hd : d.counter? with
  | none => exact Or.inl rfl
  | some n =>
    have hbound := Entry.counter?_le hd
    simp only [Entry.countedAs, he, hd, Option.getD_none, Option.getD_some] at hle
    exact Or.inr (congrArg some (Nat.le_antisymm hbound hle))

section Independent

variable {vertices : List Vertex}

theorem vertex_mem_of_mem_entries {e : Entry} (he : e ∈ entries vertices) : e.vertex ∈ vertices := by
  rw [← entries_vertex vertices]
  exact List.mem_map_of_mem he

theorem Independent.not_dependsOn (h : Independent vertices) (e d : Entry) :
    ¬ DependsOn (entries vertices) e d := fun ⟨he, hd, hlists⟩ =>
  h _ (vertex_mem_of_mem_entries he) _ (vertex_mem_of_mem_entries hd) hlists

theorem Independent.acyclic (h : Independent vertices) : Acyclic (entries vertices) := by
  intro e hcycle
  obtain ⟨d, hstep, _⟩ := Relation.TransGen.head'_iff.mp hcycle
  exact h.not_dependsOn e d hstep

theorem Independent.orderEntries (h : Independent vertices) :
    orderEntries vertices = .ok (displayList vertices) := by
  have hrespects : RespectsInputs (entries vertices) (displayList vertices) :=
    fun _ e _ _ d hd => absurd hd (h.not_dependsOn e d)
  rw [orderEntries_of_acyclic h.acyclic, placed_eq_displayList h.acyclic hrespects]

theorem entries_rising (vertices : List Vertex) :
    (entries vertices).Pairwise fun e d => e.index < d.index := by
  have hindices : ((entries vertices).map (·.index)).Pairwise (· < ·) :=
    entries_index vertices ▸ List.pairwise_lt_range'
  exact List.pairwise_map.mp hindices

theorem displayList_shownByClass (vertices : List Vertex) :
    ShownByClass (entries vertices) (displayList vertices) := by
  have hnumbers (stage : List Char) : ((displayList vertices).filter (·.stage? == some stage)).Pairwise
      (Stably Entry.countedAs fun e d => e.index < d.index) := by
    rw [displayList_stage, funext Entry.stepKey_eq]
    exact sortBy_stable ((entries_rising vertices).filter _)
  refine ⟨displayList_perm vertices, displayList_sorted vertices,
    fun kind => displayList_class vertices, displayList_stages vertices, hnumbers, ?_⟩
  intro stage
  apply (hnumbers stage).imp
  exact fun hstably he => Entry.counter?_of_countedAs_le he hstably.key_le

theorem orderEntriesIn_eq {stages : List (List Char)}
    (hstages : ∀ v ∈ vertices, ∀ stage,
      (DisplayClass.ofName v.name).stage? = some stage → stage ∈ stages) :
    orderEntriesIn stages vertices = BuildProgress.orderEntries vertices := by
  unfold orderEntriesIn BuildProgress.orderEntries displayList
  rw [sortStagesIn_eq]
  intro e he stage hstage
  have hin := (sortBy_perm Entry.rank (entries vertices)).mem_iff.mp he
  exact hstages e.vertex (vertex_mem_of_mem_entries hin) stage hstage

end Independent

/-- A batch in which no record depends on another is processed class by class, and stage by stage by
number, whatever the order in which its stages are sorted. -/
theorem orderEntries_independent (vertices : List Vertex) (hfree : Independent vertices)
    (stages : List (List Char)) (hstages : ∀ v ∈ vertices, ∀ stage,
      (DisplayClass.ofName v.name).stage? = some stage → stage ∈ stages) :
    ∃ shown, orderEntriesIn stages vertices = .ok shown ∧ orderEntries vertices = .ok shown ∧
      orderVertices vertices = .ok (shown.map (·.vertex)) ∧
      ShownByClass (entries vertices) shown := by
  have hok := hfree.orderEntries
  exact ⟨_, (orderEntriesIn_eq hstages).trans hok, hok, orderVertices_of_orderEntries hok,
    displayList_shownByClass vertices⟩

/-- The stages `a` and `b` alternate, with an equal number, a missing one and the largest one. -/
theorem orderEntries_independent_interleaved :
    let largest : Vertex := { digest := "1", name := "[a 18446744073709551615/9] x" }
    let base : Vertex := { digest := "2", name := "[b 2/2] x" }
    let unnumbered : Vertex := { digest := "3", name := "[a] x" }
    let plain : Vertex := { digest := "4", name := "x" }
    let second : Vertex := { digest := "5", name := "[a 2/9] x" }
    let again : Vertex := { digest := "6", name := "[a 02/9] y" }
    let batch := [largest, base, unnumbered, plain, second, again]
    let stages := ["b".toList, "a".toList]
    Independent batch ∧ (∀ v ∈ batch, ∀ stage,
      (DisplayClass.ofName v.name).stage? = some stage → stage ∈ stages) ∧
    ∃ shown, orderEntriesIn stages batch = .ok shown ∧ orderEntries batch = .ok shown ∧
      shown = [⟨4, second⟩, ⟨1, base⟩, ⟨5, again⟩, ⟨0, largest⟩, ⟨2, unnumbered⟩, ⟨3, plain⟩] ∧
      ShownByClass (entries batch) shown := by
  intro largest base unnumbered plain second again batch stages
  have hfree : Independent batch := by
    unfold Independent
    decide +kernel
  have hkinds : ∀ v ∈ batch, (DisplayClass.ofName v.name).stage? = none ∨
      (DisplayClass.ofName v.name).stage? ∈ stages.map some := by
    decide +kernel
  have hstages : ∀ v ∈ batch, ∀ stage,
      (DisplayClass.ofName v.name).stage? = some stage → stage ∈ stages := by
    intro v hv stage hstage
    have hin := hkinds v hv
    rw [hstage] at hin
    simpa using hin
  have hok : orderEntries batch =
      .ok [⟨4, second⟩, ⟨1, base⟩, ⟨5, again⟩, ⟨0, largest⟩, ⟨2, unnumbered⟩, ⟨3, plain⟩] := by
    decide +kernel
  obtain ⟨shown, hin, hshown, _, hclass⟩ := orderEntries_independent batch hfree stages hstages
  obtain rfl := Except.ok.inj (hok.symm.trans hshown)
  exact ⟨hfree, hstages, _, hin, hok, rfl, hclass⟩

/-- A record without a number is not always the last one of its stage. -/
theorem unnumbered_before_largest :
    let unnumbered : Vertex := { digest := "a", name := "[s] y" }
    let largest : Vertex := { digest := "b", name := "[s 18446744073709551615/1] x" }
    let batch := [unnumbered, largest]
    Independent batch ∧ orderEntries batch = .ok [⟨0, unnumbered⟩, ⟨1, largest⟩] ∧
      ¬ ∀ shown, orderEntries batch = .ok shown → ∀ stage,
        (shown.filter (·.stage? == some stage)).Pairwise fun e d =>
          e.counter? = none → d.counter? = none := by
  intro unnumbered largest batch
  have hfree : Independent batch := by
    unfold Independent
    decide +kernel
  have hok : orderEntries batch = .ok [⟨0, unnumbered⟩, ⟨1, largest⟩] := by decide +kernel
  refine ⟨hfree, hok, fun hlast => ?_⟩
  have hpairs := hlast _ hok "s".toList
  revert hpairs
  decide +kernel

end BuildProgress
