import BuildProgress.Graph.Order

/-!
# Sorting stage by stage

A list of records may also be sorted one stage after the other: the places of each stage are looked up
in the list at first, and then what stands there is sorted and put back into these places. The stages
may be taken in any order.
-/

namespace BuildProgress

set_option autoImplicit false

/-- The places of a stage in a list of records, in rising order. -/
def stageSlots (display : List Entry) (stage : List Char) : List Nat :=
  (List.range display.length).filter fun p => (display.getD p default).stage? == some stage

/-- Puts records into places of a list, the first record into the first place. -/
def fillSlots (display : List Entry) (slots : List Nat) (members : List Entry) : List Entry :=
  (slots.zip members).foldl (fun list slot => list.set slot.1 slot.2) display

/-- Sorts the records in some places by step number. -/
def sortSlots (display : List Entry) (slots : List Nat) : List Entry :=
  fillSlots display slots (sortBy Entry.stepKey (slots.map fun p => display.getD p default))

/-- Sorts the records of some stages, one stage after the other. -/
def sortStagesIn (stages : List (List Char)) (display : List Entry) : List Entry :=
  (stages.map (stageSlots display)).foldl sortSlots display

/-- The records of a batch in the order in which they are processed, with the stages sorted one after
the other. -/
def orderEntriesIn (stages : List (List Char)) (vertices : List Vertex) :
    Except BuildError (List Entry) :=
  settle (sortStagesIn stages (sortBy Entry.rank (entries vertices)))

end BuildProgress
