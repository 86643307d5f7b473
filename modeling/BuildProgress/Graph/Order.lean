import BuildProgress.Error
import BuildProgress.Graph.Display
import BuildProgress.Graph.Worklist

/-!
# The order of a batch

A record comes after every record of the batch that it lists as an input; apart from that, records
come in display order.
-/

namespace BuildProgress

set_option autoImplicit false

/-- The records of a display list in an order that respects their inputs, the earliest possible
record first; or the digests of the records that a cycle keeps from ever being taken. -/
def settle (display : List Entry) : Except BuildError (List Entry) :=
  let vertices := display.map (·.vertex)
  let final := Worklist.final vertices
  if final.taken.length = display.length then
    .ok (final.taken.map fun position => display.getD position default)
  else
    .error (.contractViolation (.cyclicInputs
      (final.waiting.map fun position => (display.getD position default).vertex.digest)))

def orderEntries (vertices : List Vertex) : Except BuildError (List Entry) :=
  settle (displayList vertices)

/-- The records of a batch in the order in which they are processed. -/
def orderVertices (vertices : List Vertex) : Except BuildError (List Vertex) :=
  (orderEntries vertices).map fun ordered => ordered.map (·.vertex)

end BuildProgress
