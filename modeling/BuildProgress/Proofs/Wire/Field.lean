import BuildProgress.Proofs.Text.Utf8
import BuildProgress.Proofs.Wire.Padded

/-!
# Fields survive the wire

A value in its usual range is read back from the records of its field, and a value that is left out
is the one that a reader takes in its place.
-/

namespace BuildProgress.Wire

set_option autoImplicit false

section Numbers

variable {bits : Nat} {n : Int}

/-- The numbers that `bits` bits and a sign hold. -/
def IsSigned (bits : Nat) (n : Int) : Prop :=
  -Nat.pow 2 bits ≤ n ∧ n < Nat.pow 2 bits

theorem isSigned_toInt64 (n : Int64) : IsSigned 63 n.toInt :=
  ⟨n.le_toInt, n.toInt_lt⟩

theorem isSigned_toInt32 (n : Int32) : IsSigned 31 n.toInt :=
  ⟨n.le_toInt, n.toInt_lt⟩

theorem IsSigned.toInt_ofInt (h : IsSigned 63 n) : (Int64.ofInt n).toInt = n :=
  Int64.toInt_ofInt_of_le h.1 h.2

theorem IsSigned.bmod (h : IsSigned bits n) : n.bmod (Nat.pow 2 (bits + 1)) = n := by
  obtain ⟨hlow, hhigh⟩ := h
  have hdouble : Nat.pow 2 (bits + 1) = Nat.pow 2 bits * 2 := rfl
  exact Int.bmod_eq_of_le_mul_two (by omega) (by omega)

/-- Every number is written in 64 bits, and the bits above those of its type are dropped again. -/
theorem IsSigned.bmod_toNat (h : IsSigned bits n) (hbits : bits < 64) :
    ((n % Nat.pow 2 64).toNat : Int).bmod (Nat.pow 2 (bits + 1)) = n := by
  have hdvd : Nat.pow 2 (bits + 1) ∣ Nat.pow 2 64 := Nat.pow_dvd_pow 2 hbits
  have hpos : 0 < Nat.pow 2 64 := Nat.pow_pos (by omega)
  have hcast : ((n % Nat.pow 2 64).toNat : Int) = n % Nat.pow 2 64 :=
    Int.toNat_of_nonneg (Int.emod_nonneg _ (by omega))
  rw [hcast, ← Int.bmod_bmod_of_dvd hdvd, Int.emod_bmod, Int.bmod_bmod_of_dvd hdvd, h.bmod]

end Numbers

section Contents

variable {number other : Nat} {rs : List Record}

theorem field_of_number (h : ∀ r ∈ rs, r.number = other) (number : Nat) :
    field number rs = if other = number then rs else [] := by
  split
  case isTrue heq =>
    refine List.filter_eq_self.mpr ?_
    intro r hr
    simp [h r hr, heq]
  case isFalse hne =>
    refine List.filter_eq_nil_iff.mpr ?_
    intro r hr
    simp [h r hr, hne]

@[simp] theorem field_textField (text : String) :
    field number (textField other text) = if other = number then textField other text else [] := by
  refine field_of_number ?_ number
  rw [textField]
  split <;> simp

@[simp] theorem field_bytesField (bytes : Bytes) :
    field number (bytesField other bytes) =
      if other = number then bytesField other bytes else [] := by
  refine field_of_number ?_ number
  rw [bytesField]
  split <;> simp

@[simp] theorem field_signedField (n : Int) :
    field number (signedField other n) = if other = number then signedField other n else [] := by
  refine field_of_number ?_ number
  rw [signedField]
  split <;> simp

@[simp] theorem field_boolField (b : Bool) :
    field number (boolField other b) = if other = number then boolField other b else [] := by
  refine field_of_number ?_ number
  rw [boolField]
  split <;> simp

@[simp] theorem field_map {α : Type} (payload : α → Payload) (items : List α) :
    field number (items.map fun item => ⟨other, payload item⟩) =
      if other = number then items.map fun item => ⟨other, payload item⟩ else [] := by
  refine field_of_number (fun r hr => ?_) number
  obtain ⟨item, _, rfl⟩ := List.mem_map.mp hr
  rfl

end Contents

section Values

variable {number : Nat} {records : List Record}

theorem lastOr_of_nil {α : Type} (read : Record → Option α) (default : α)
    (h : field number records = []) : lastOr read default number records = some default := by
  simp [lastOr, h]

theorem lastOr_of_single {α : Type} {read : Record → Option α} {r : Record} {value : α}
    (default : α) (h : field number records = [r]) (hread : read r = some value) :
    lastOr read default number records = some value := by
  simp [lastOr, h, hread]

theorem text?_encode (number : Nat) (text : String) :
    Record.text? ⟨number, .delimited (Utf8.encode text.toList)⟩ = some text := by
  simp [Record.text?, Record.bytes?, Utf8.decode?_encode, String.ofList_toList]

theorem mapM_text? {texts : List String} (h : field number records =
      texts.map fun text => ⟨number, .delimited (Utf8.encode text.toList)⟩) :
    (field number records).mapM Record.text? = some texts := by
  rw [h]
  clear h
  induction texts with
  | nil => rfl
  | cons text texts ih => simp [List.mapM_cons, text?_encode, ih]

theorem lastOr_text {text : String} (h : field number records = textField number text) :
    lastOr Record.text? "" number records = some text := by
  rw [textField] at h
  split at h
  case isTrue hempty => rw [lastOr_of_nil Record.text? "" h, hempty]
  case isFalse => exact lastOr_of_single "" h (text?_encode number text)

theorem lastOr_bytes {bytes : Bytes} (h : field number records = bytesField number bytes) :
    lastOr Record.bytes? [] number records = some bytes := by
  rw [bytesField] at h
  split at h
  case isTrue hempty => rw [lastOr_of_nil Record.bytes? [] h, hempty]
  case isFalse => exact lastOr_of_single [] h rfl

theorem lastOr_bool {b : Bool} (h : field number records = boolField number b) :
    lastOr Record.bool? false number records = some b := by
  cases b with
  | false => exact lastOr_of_nil Record.bool? false h
  | true => exact lastOr_of_single false h rfl

theorem lastOr_signed {read : Record → Option Int} {n : Int}
    (hread : read ⟨number, .varint (n % Nat.pow 2 64).toNat⟩ = some n)
    (h : field number records = signedField number n) :
    lastOr read 0 number records = some n := by
  rw [signedField] at h
  split at h
  case isTrue hzero => rw [lastOr_of_nil read 0 h, hzero]
  case isFalse => exact lastOr_of_single 0 h hread

theorem lastOr_signed64 {n : Int} (hn : IsSigned 63 n)
    (h : field number records = signedField number n) :
    lastOr Record.signed64? 0 number records = some n :=
  lastOr_signed (congrArg some (hn.bmod_toNat (by omega))) h

theorem lastOr_signed32 {n : Int} (hn : IsSigned 31 n)
    (h : field number records = signedField number n) :
    lastOr Record.signed32? 0 number records = some n :=
  lastOr_signed (congrArg some (hn.bmod_toNat (by omega))) h

end Values

end BuildProgress.Wire
