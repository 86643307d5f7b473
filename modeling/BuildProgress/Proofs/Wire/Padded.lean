import BuildProgress.Wire.Status
import BuildProgress.Proofs.Wire.Unknown

/-!
# Messages with unknown fields between their own

A sender that knows more fields may write them anywhere in a message. The reader asks for fields by
their numbers, so the fields that it knows are the ones that it would find without the others.
-/

namespace BuildProgress.Wire

set_option autoImplicit false

/-- The bytes hold the records in their order, with unknown fields between any two of them. Unknown
are the fields with numbers above `known`. -/
inductive Padded (depth known : Nat) : List Record → Bytes → Prop where
  | nil : Padded depth known [] []
  | record {r : Record} {records : List Record} {bytes : Bytes} :
      r.Fits → Padded depth known records bytes →
      Padded depth known (r :: records) (r.write ++ bytes)
  | unknown {u : Unknown} {records : List Record} {bytes : Bytes} :
      u.levels ≤ depth → (∀ r ∈ u.records, known < r.number) →
      Padded depth known records bytes → Padded depth known records (u.write ++ bytes)

section Fields

variable {known number : Nat} {a b : List Record}

@[simp] theorem field_append (number : Nat) (a b : List Record) :
    field number (a ++ b) = field number a ++ field number b :=
  List.filter_append _ _

theorem field_eq_nil (h : ∀ r ∈ a, number < r.number) : field number a = [] := by
  refine List.filter_eq_nil_iff.mpr ?_
  intro r hr
  have habove := h r hr
  simp only [beq_iff_eq]
  omega

/-- The two lists have the same records of every field up to `known`. -/
def SameFields (known : Nat) (a b : List Record) : Prop :=
  ∀ number ≤ known, field number a = field number b

theorem SameFields.cons (h : SameFields known a b) (r : Record) :
    SameFields known (r :: a) (r :: b) := by
  intro number hnumber
  simp only [field, List.filter_cons]
  rw [show a.filter (·.number == number) = b.filter (·.number == number) from h number hnumber]

theorem SameFields.append_left (h : SameFields known a b) {others : List Record}
    (hothers : ∀ r ∈ others, known < r.number) : SameFields known (others ++ a) b := by
  intro number hnumber
  have hnone : field number others = [] :=
    field_eq_nil fun r hr => Nat.lt_of_le_of_lt hnumber (hothers r hr)
  rw [field_append, hnone, List.nil_append, h number hnumber]

end Fields

namespace Padded

variable {depth known : Nat} {records : List Record} {bytes : Bytes}

theorem recordsFrom_eq (h : Padded depth known records bytes) (fuel : Nat)
    (hfuel : bytes.length ≤ fuel) : ∃ all, recordsFrom depth fuel bytes = some all ∧
      SameFields known all records := by
  induction h generalizing fuel with
  | nil => exact ⟨[], by cases fuel <;> rfl, fun _ _ => rfl⟩
  | @record r records bytes hfits _ ih =>
    have hlong := List.length_pos_iff.mpr hfits.write_ne_nil
    rw [List.length_append] at hfuel
    obtain ⟨fuel, rfl⟩ : ∃ k, fuel = k + 1 := ⟨fuel - 1, by omega⟩
    obtain ⟨all, hall, hsame⟩ := ih fuel (by omega)
    refine ⟨r :: all, ?_, hsame.cons r⟩
    rw [hfits.recordsFrom_write, hall, Option.map_some]
  | @unknown u records bytes hlevels hnumbers _ ih =>
    obtain ⟨left, hleft, hread⟩ := recordsFrom_unknown u hlevels fuel bytes hfuel
    obtain ⟨all, hall, hsame⟩ := ih left hleft
    refine ⟨u.records ++ all, ?_, hsame.append_left hnumbers⟩
    rw [hread, hall, Option.map_some]

/-- Reading finds the known fields, whatever stands between them. -/
theorem readRecords_eq (h : Padded depth known records bytes) : ∃ all,
    readRecords depth bytes = some all ∧ SameFields known all records :=
  h.recordsFrom_eq bytes.length (Nat.le_refl _)

theorem of_fits (depth known : Nat) {records : List Record} (h : ∀ r ∈ records, r.Fits) :
    Padded depth known records (writeRecords records) := by
  induction records with
  | nil => exact .nil
  | cons r records ih =>
    exact .record (h r (by simp)) (ih fun r' hr' => h r' (List.mem_cons_of_mem r hr'))

end Padded

end BuildProgress.Wire
