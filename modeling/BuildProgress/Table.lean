/-!
# Tables

A table gives at most one value to a text. Entries keep the order in which they were first given.
-/

namespace BuildProgress

set_option autoImplicit false

/-- A table from texts to values, as a list of entries. -/
abbrev Table (α : Type) := List (String × α)

namespace Table

variable {α : Type}

def get? (t : Table α) (key : String) : Option α :=
  (t.find? (·.1 = key)).map (·.2)

def has (t : Table α) (key : String) : Bool :=
  t.any (·.1 = key)

/-- Gives a value to a key, in place of the one it has. -/
def set (key : String) (value : α) : Table α → Table α
  | [] => [(key, value)]
  | (k, v) :: rest => if k = key then (key, value) :: rest else (k, v) :: set key value rest

/-- Gives a value to a key that has none. -/
def setDefault (key : String) (value : α) (t : Table α) : Table α :=
  if t.has key then t else t ++ [(key, value)]

/-- Gives values to keys one after the other, so that the last one counts. -/
def setAll (t : Table α) (entries : List (String × α)) : Table α :=
  entries.foldl (fun t e => set e.1 e.2 t) t

end Table

end BuildProgress
