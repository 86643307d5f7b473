import BuildProgress.Json.Record
import Mathlib.Data.List.Forall2

/-!
# Fields of records

The members of an object tell a field if they give it once, or if they leave it out where it holds its
default. The order of the members does not matter, nor do members of other names.
-/

namespace BuildProgress.Json

set_option autoImplicit false

open BuildProgress.Text

/-- The members of an object give a field once, with a value that says what the field holds, or they
leave it out where it holds its default. -/
def Tells (members : List (String × Json)) (name : String) (holds : Json → Prop)
    (isDefault : Prop) : Prop :=
  (∃ value, holds value ∧ members.filter (·.1 == name) = [(name, value)]) ∨
    isDefault ∧ members.filter (·.1 == name) = []

/-- What is found of a field says what the field holds. -/
def Found (holds : Json → Prop) (isDefault : Prop) : Option Json → Prop
  | some value => holds value
  | none => isDefault

variable {members : List (String × Json)} {holds : Json → Prop} {isDefault : Prop}

theorem given_ofMembers (name : String) (members : List (String × Json)) :
    given name (members.map fun (key, value) => (some key, value)) =
      (members.filter (·.1 == name)).map (·.2) := by
  rw [given, List.filter_map, List.map_map]
  rfl

theorem Tells.found {name : String} (h : Tells members name holds isDefault) :
    ∃ field, atMostOnce name (members.map fun (key, value) => (some key, value)) = some field ∧
      Found holds isDefault field := by
  rcases h with ⟨value, hholds, hgiven⟩ | ⟨hdefault, hgiven⟩
  · exact ⟨some value, by rw [atMostOnce, given_ofMembers, hgiven]; rfl, hholds⟩
  · exact ⟨none, by rw [atMostOnce, given_ofMembers, hgiven]; rfl, hdefault⟩

theorem Found.fieldOr {α : Type} {field : Option Json} (read : Json → Option α) (default : α)
    {value : α} (h : Found holds isDefault field) (hread : ∀ j, holds j → read j = some value)
    (hdefault : isDefault → default = value) : Json.fieldOr read default field = some value := by
  cases field with
  | none => exact congrArg some (hdefault h)
  | some j => exact hread j h

/-- How a value says an optional field. -/
def SaysOption {α : Type} (holds : α → Json → Prop) : Option α → Json → Prop
  | none, j => j = .null
  | some a, j => j ≠ .null ∧ holds a j

theorem Found.optionalField {α : Type} {field : Option Json} (read : Json → Option α)
    {holds : α → Json → Prop} {value : Option α}
    (h : Found (SaysOption holds value) (value = none) field)
    (hread : ∀ a j, value = some a → holds a j → read j = some a) :
    Json.optionalField read field = some value := by
  cases field with
  | none =>
    rw [show value = none from h]
    rfl
  | some j =>
    cases value with
    | none =>
      rw [show j = .null from h]
      rfl
    | some a =>
      obtain ⟨hnull, hholds⟩ : j ≠ .null ∧ holds a j := h
      rw [Json.optionalField]
      · rw [hread a j rfl hholds]
        rfl
      · simpa using hnull

theorem fields?_ofMembers {names : List String} {fields : List (Option Json)}
    (h : List.Forall₂ (fun name field =>
      atMostOnce name (members.map fun (key, value) => (some key, value)) = some field)
      names fields) : fields? names (ofMembers members) = some fields := by
  have hkeys : (members.map fun (key, value) => (some key, value)).all (·.1.isSome) = true := by
    simp
  rw [ofMembers, fields?, if_pos hkeys]
  clear hkeys
  induction h with
  | nil => rfl
  | cons hfield _ ih => simp [List.mapM_cons, hfield, ih]

theorem mem_keys_of_lastOfEach {α : Type} {key : String} {entries : List (String × α)}
    (h : key ∈ (lastOfEach entries).map (·.1)) : key ∈ entries.map (·.1) := by
  induction entries with
  | nil => exact h
  | cons entry rest ih =>
    rw [lastOfEach] at h
    split at h
    · exact List.mem_cons_of_mem _ (ih h)
    · rcases List.mem_cons.1 h with rfl | h
      · exact List.mem_cons_self
      · exact List.mem_cons_of_mem _ (ih h)

/-- No key is repeated among the members that count. -/
theorem nodup_keys_lastOfEach {α : Type} (entries : List (String × α)) :
    ((lastOfEach entries).map (·.1)).Nodup := by
  induction entries with
  | nil => exact List.nodup_nil
  | cons entry rest ih =>
    rw [lastOfEach]
    split
    · exact ih
    · next hnew =>
      refine List.nodup_cons.2 ⟨fun hmem => hnew ?_, ih⟩
      obtain ⟨other, hother, hkey⟩ := List.mem_map.1 (mem_keys_of_lastOfEach hmem)
      exact List.any_eq_true.2 ⟨other, hother, by simpa using hkey⟩

theorem nodup_keys_of_table? {α : Type} {read : Json → Option α} {j : Json}
    {table : List (String × α)} (h : table? read j = some table) : (table.map (·.1)).Nodup := by
  unfold table? at h
  split at h
  · obtain ⟨entries, -, hlast⟩ := Option.bind_eq_some_iff.1 h
    rw [← Option.some.inj hlast]
    exact nodup_keys_lastOfEach entries
  · cases h

/-- A field that is read as a table has no key twice, be it given or not. -/
theorem nodup_keys_of_fieldOr {α : Type} {read : Json → Option α} {field : Option Json}
    {table : List (String × α)} (h : fieldOr (table? read) [] field = some table) :
    (table.map (·.1)).Nodup := by
  cases field with
  | none =>
    rw [← Option.some.inj h]
    exact List.nodup_nil
  | some j => exact nodup_keys_of_table? h

theorem text?_ofString (s : String) : text? (ofString s) = some s := rfl

theorem signed?_ofInt {n : Int} (h : isSigned64 n = true) : signed? (ofInt n) = some n := by
  simp [signed?, ofInt, integer?, h]

end BuildProgress.Json
