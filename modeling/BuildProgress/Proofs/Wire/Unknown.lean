import BuildProgress.Proofs.Wire.Record

/-!
# Fields that the reader does not know

Between the fields of a message may stand others, of any number and any shape. A group holds such
fields itself, and is read over up to its end, as long as groups are not nested too deep.
-/

namespace BuildProgress.Wire

set_option autoImplicit false

/-- Fields one after the other, as a sender may write them. -/
inductive Unknown where
  | nil
  | field (record : { r : Record // r.Fits }) (rest : Unknown)
  | group (number : { number : Nat // IsNumber number }) (inside rest : Unknown)

namespace Unknown

def write : Unknown → Bytes
  | nil => []
  | field record rest => record.val.write ++ rest.write
  | group number inside rest =>
    writeKey number 3 ++ (inside.write ++ (writeKey number 4 ++ rest.write))

/-- How deep the fields are nested: 1 if none is a group. -/
def levels : Unknown → Nat
  | nil => 0
  | field _ rest => max 1 rest.levels
  | group _ inside rest => max (inside.levels + 1) rest.levels

/-- What a reader makes of them: what is in a group is not kept. -/
def records : Unknown → List Record
  | nil => []
  | field record rest => record.val :: rest.records
  | group number _ rest => ⟨number, .group⟩ :: rest.records

/-- How many keys they have. A group has one at its start and one at its end. -/
def keys : Unknown → Nat
  | nil => 0
  | field _ rest => rest.keys + 1
  | group _ inside rest => inside.keys + (rest.keys + 1) + 1

theorem keys_le_length (u : Unknown) : u.keys ≤ u.write.length := by
  induction u with
  | nil => exact Nat.le_refl _
  | field record rest ih =>
    have hrecord := List.length_pos_iff.mpr record.property.write_ne_nil
    simp only [keys, write, List.length_append]
    omega
  | group number inside rest ihInside ih =>
    have hstart := List.length_pos_iff.mpr (writeKey_ne_nil number 3)
    have hend := List.length_pos_iff.mpr (writeKey_ne_nil number 4)
    simp only [keys, write, List.length_append]
    omega

end Unknown

section Groups

variable {depth fuel inner : Nat} {outer : List Nat}

theorem skipGroups_field {r : Record} (h : r.Fits) (hopen : outer.length + 1 < depth) (rest : Bytes) :
    skipGroups depth (fuel + 1) (inner :: outer) (r.write ++ rest) =
      skipGroups depth fuel (inner :: outer) rest := by
  have hkey := h.readKey_write rest
  have hpayload := h.readPayload_write depth rest
  have hdeep : ¬ depth ≤ outer.length + 1 := by omega
  rw [skipGroups, hkey]
  obtain ⟨number, payload⟩ := r
  cases payload with
  | group => exact h.payload.elim
  | _ =>
    simp only [readPayload, Payload.kind, Option.map_eq_some_iff] at hpayload
    obtain ⟨_, hread, heq⟩ := hpayload
    obtain ⟨_, rfl⟩ := Prod.mk.inj heq
    simp [Payload.kind, hdeep, hread]

theorem skipGroups_start {number : Nat} (hnumber : IsNumber number) (hopen : outer.length + 1 < depth)
    (rest : Bytes) : skipGroups depth (fuel + 1) (inner :: outer) (writeKey number 3 ++ rest) =
      skipGroups depth fuel (number :: inner :: outer) rest := by
  have hdeep : ¬ depth ≤ outer.length + 1 := by omega
  have hkey : readKey (writeKey number 3 ++ rest) = some (number, .startGroup, rest) :=
    readKey_writeKey hnumber (by omega) rfl rest
  simp [skipGroups, hkey, hdeep]

theorem skipGroups_end {number : Nat} (hnumber : IsNumber number) (rest : Bytes) :
    skipGroups depth (fuel + 1) (number :: outer) (writeKey number 4 ++ rest) =
      skipGroups depth fuel outer rest := by
  have hkey : readKey (writeKey number 4 ++ rest) = some (number, .endGroup, rest) :=
    readKey_writeKey hnumber (by omega) rfl rest
  simp [skipGroups, hkey]

/-- Inside open groups, fields that are not too deep are read over. -/
theorem skipGroups_write (u : Unknown) (hlevels : outer.length + 1 + u.levels ≤ depth) (fuel : Nat)
    (rest : Bytes) : skipGroups depth (u.keys + fuel) (inner :: outer) (u.write ++ rest) =
      skipGroups depth fuel (inner :: outer) rest := by
  induction u generalizing inner outer fuel rest with
  | nil => simp [Unknown.keys, Unknown.write]
  | field record more ih =>
    simp only [Unknown.levels] at hlevels
    rw [Unknown.keys, Unknown.write, List.append_assoc, Nat.add_right_comm,
      skipGroups_field record.property (by omega), ih (by omega)]
  | group number inside more ihInside ih =>
    simp only [Unknown.levels] at hlevels
    have hkeys : (Unknown.group number inside more).keys + fuel =
        inside.keys + ((more.keys + fuel) + 1) + 1 := by
      simp only [Unknown.keys]
      omega
    have hinside : (inner :: outer).length + 1 + inside.levels ≤ depth := by
      simp only [List.length_cons]
      omega
    rw [hkeys, Unknown.write]
    simp only [List.append_assoc]
    rw [skipGroups_start number.property (by omega), ihInside hinside,
      skipGroups_end number.property, ih (by omega)]

end Groups

section Messages

variable {depth : Nat}

/-- A group in a message is read over. -/
theorem recordsFrom_group {number : Nat} (hnumber : IsNumber number) {inside : Unknown}
    (hlevels : inside.levels + 1 ≤ depth) (fuel : Nat) (rest : Bytes) :
    recordsFrom depth (fuel + 1)
        (writeKey number 3 ++ (inside.write ++ (writeKey number 4 ++ rest))) =
      (recordsFrom depth fuel rest).map (⟨number, .group⟩ :: ·) := by
  have hkey : readKey (writeKey number 3 ++ (inside.write ++ (writeKey number 4 ++ rest))) =
      some (number, .startGroup, inside.write ++ (writeKey number 4 ++ rest)) :=
    readKey_writeKey hnumber (by omega) rfl _
  have hskip : ∃ left, skipGroups depth (inside.write ++ (writeKey number 4 ++ rest)).length [number]
      (inside.write ++ (writeKey number 4 ++ rest)) = skipGroups depth left [] rest := by
    have hkeys := inside.keys_le_length
    have hend := List.length_pos_iff.mpr (writeKey_ne_nil number 4)
    obtain ⟨left, hleft⟩ : ∃ left,
        (inside.write ++ (writeKey number 4 ++ rest)).length = inside.keys + (left + 1) := by
      refine ⟨(inside.write ++ (writeKey number 4 ++ rest)).length - inside.keys - 1, ?_⟩
      simp only [List.length_append]
      omega
    refine ⟨left, ?_⟩
    rw [hleft, skipGroups_write inside (by simp only [List.length_nil]; omega),
      skipGroups_end hnumber]
  obtain ⟨left, hskip⟩ := hskip
  have hpayload : readPayload depth number .startGroup (inside.write ++ (writeKey number 4 ++ rest)) =
      some (.group, rest) := by
    rw [readPayload, hskip]
    cases left <;> rfl
  exact recordsFrom_of_key hkey hpayload
    (List.append_ne_nil_of_left_ne_nil (writeKey_ne_nil number 3) _) fuel

theorem recordsFrom_unknown (u : Unknown) (hlevels : u.levels ≤ depth) (fuel : Nat) (rest : Bytes)
    (hfuel : (u.write ++ rest).length ≤ fuel) : ∃ left, rest.length ≤ left ∧
      recordsFrom depth fuel (u.write ++ rest) =
        (recordsFrom depth left rest).map (u.records ++ ·) := by
  induction u generalizing fuel with
  | nil =>
    refine ⟨fuel, hfuel, ?_⟩
    simp [Unknown.write, Unknown.records]
  | field record more ih =>
    simp only [Unknown.levels] at hlevels
    have hrecord := List.length_pos_iff.mpr record.property.write_ne_nil
    simp only [Unknown.write, List.length_append] at hfuel
    obtain ⟨fuel, rfl⟩ : ∃ k, fuel = k + 1 := ⟨fuel - 1, by omega⟩
    obtain ⟨left, hleft, hmore⟩ := ih (by omega) fuel (by rw [List.length_append]; omega)
    refine ⟨left, hleft, ?_⟩
    rw [Unknown.write, List.append_assoc, record.property.recordsFrom_write, hmore, Option.map_map]
    rfl
  | group number inside more ihInside ih =>
    simp only [Unknown.levels] at hlevels
    have hstart := List.length_pos_iff.mpr (writeKey_ne_nil number 3)
    simp only [Unknown.write, List.length_append] at hfuel
    obtain ⟨fuel, rfl⟩ : ∃ k, fuel = k + 1 := ⟨fuel - 1, by omega⟩
    obtain ⟨left, hleft, hmore⟩ := ih (by omega) fuel (by rw [List.length_append]; omega)
    refine ⟨left, hleft, ?_⟩
    rw [Unknown.write]
    simp only [List.append_assoc]
    rw [recordsFrom_group number.property (by omega), hmore, Option.map_map]
    rfl

end Messages

end BuildProgress.Wire
