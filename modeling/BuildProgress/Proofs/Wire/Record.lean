import BuildProgress.Wire.Record
import Mathlib.Logic.Basic

/-!
# Records survive the wire

A number of 64 bits takes at most ten bytes, a key is such a number, and a payload says how long it
is. So each record is read back whatever bytes follow it, and a message is read record by record.
-/

namespace BuildProgress.Wire

set_option autoImplicit false

/-- The numbers that a field may have. -/
def IsNumber (number : Nat) : Prop :=
  1 ≤ number ∧ number < Nat.pow 2 29

instance (number : Nat) : Decidable (IsNumber number) :=
  inferInstanceAs (Decidable (_ ∧ _))

section Varints

theorem toNat_ofNat {n : Nat} (h : n < 256) : (UInt8.ofNat n).toNat = n := by
  rw [UInt8.toNat_ofNat']
  omega

/-- With `left` bytes to go, all but the last hold seven bits and the last one holds one. -/
theorem varintFrom_varintBytes (left n : Nat) (rest : Bytes) (h : n < Nat.pow 2 (7 * left + 1)) :
    varintFrom (left + 1) (varintBytes (left + 1) n ++ rest) = some (n, rest) := by
  induction left generalizing n with
  | zero =>
    have hbit : n < 2 := h
    have hbyte : (UInt8.ofNat n).toNat = n := toNat_ofNat (by omega)
    simp [varintBytes, varintFrom, hbyte, show n < 128 by omega, show ¬ 1 < n by omega]
  | succ left ih =>
    by_cases hsmall : n < 128
    · have hbyte : (UInt8.ofNat n).toNat = n := toNat_ofNat (by omega)
      simp [varintBytes, varintFrom, hbyte, hsmall]
    · have hbyte : (UInt8.ofNat (n % 128 + 128)).toNat = n % 128 + 128 := toNat_ofNat (by omega)
      have hhigh : n / 128 < Nat.pow 2 (7 * left + 1) := by
        have hpow : Nat.pow 2 (7 * (left + 1) + 1) = Nat.pow 2 (7 * left + 1) * 128 :=
          Nat.pow_add 2 (7 * left + 1) 7
        rw [Nat.div_lt_iff_lt_mul (by omega), ← hpow]
        exact h
      have hmore : ¬ n % 128 + 128 < 128 := by omega
      rw [varintBytes, if_neg hsmall, List.cons_append, varintFrom, hbyte, if_neg hmore]
      simp [ih (n / 128) hhigh, Nat.mod_add_div]

theorem readVarint_writeVarint {n : Nat} (h : n < Nat.pow 2 64) (rest : Bytes) :
    readVarint (writeVarint n ++ rest) = some (n, rest) :=
  varintFrom_varintBytes 9 n rest h

theorem writeVarint_ne_nil (n : Nat) : writeVarint n ≠ [] := by
  rw [writeVarint, varintBytes]
  split <;> simp

end Varints

section Parts

variable {number code : Nat} {kind : Kind} {bytes rest : Bytes}

theorem readKey_writeKey (hnumber : IsNumber number) (hcode : code < 8)
    (hkind : Kind.ofCode? code = some kind) (rest : Bytes) :
    readKey (writeKey number code ++ rest) = some (number, kind, rest) := by
  obtain ⟨hlow, hhigh⟩ := hnumber
  have hpow : Nat.pow 2 29 * 8 = Nat.pow 2 32 := rfl
  have hfits : number * 8 + code < Nat.pow 2 32 := by omega
  have hkey : number * 8 + code < Nat.pow 2 64 :=
    Nat.lt_trans hfits (Nat.pow_lt_pow_right (by omega) (by omega))
  have hmod : (number * 8 + code) % 8 = code := by omega
  have hdiv : (number * 8 + code) / 8 = number := by omega
  simp [readKey, writeKey, readVarint_writeVarint hkey, hmod, hdiv, hkind, hfits, hlow]

theorem writeKey_ne_nil (number code : Nat) : writeKey number code ≠ [] :=
  writeVarint_ne_nil _

theorem takeExactly_append {n : Nat} (h : bytes.length = n) (rest : Bytes) :
    takeExactly n (bytes ++ rest) = some (bytes, rest) := by
  simp [takeExactly, ← h]

theorem readDelimited_write (h : bytes.length < Nat.pow 2 64) (rest : Bytes) :
    readDelimited (writeVarint bytes.length ++ (bytes ++ rest)) = some (bytes, rest) := by
  simp [readDelimited, readVarint_writeVarint h, takeExactly_append rfl]

end Parts

namespace Payload

/-- The payload stands by itself and is one that a sender can write. -/
def Fits : Payload → Prop
  | varint value => value < Nat.pow 2 64
  | fixed64 bytes => bytes.length = 8
  | delimited bytes => bytes.length < Nat.pow 2 64
  | group => False
  | fixed32 bytes => bytes.length = 4

def kind : Payload → Kind
  | varint _ => .varint
  | fixed64 _ => .fixed64
  | delimited _ => .delimited
  | group => .startGroup
  | fixed32 _ => .fixed32

def code : Payload → Nat
  | varint _ => 0
  | fixed64 _ => 1
  | delimited _ => 2
  | group => 3
  | fixed32 _ => 5

theorem code_lt (payload : Payload) : payload.code < 8 := by
  cases payload <;> simp [code]

theorem ofCode?_code (payload : Payload) : Kind.ofCode? payload.code = some payload.kind := by
  cases payload <;> rfl

def write : Payload → Bytes
  | varint value => writeVarint value
  | fixed64 bytes => bytes
  | delimited bytes => writeVarint bytes.length ++ bytes
  | group => []
  | fixed32 bytes => bytes

end Payload

structure Record.Fits (r : Record) : Prop where
  number : IsNumber r.number
  payload : r.payload.Fits

section Records

variable {r : Record} {depth : Nat}

theorem Record.Fits.write_eq (h : r.Fits) :
    r.write = writeKey r.number r.payload.code ++ r.payload.write := by
  obtain ⟨number, payload⟩ := r
  cases payload with
  | group => exact h.payload.elim
  | delimited bytes => exact List.append_assoc _ _ _
  | _ => rfl

theorem Record.Fits.readKey_write (h : r.Fits) (rest : Bytes) :
    readKey (r.write ++ rest) = some (r.number, r.payload.kind, r.payload.write ++ rest) := by
  rw [h.write_eq, List.append_assoc]
  obtain ⟨number, payload⟩ := r
  exact readKey_writeKey h.number payload.code_lt payload.ofCode?_code _

theorem Record.Fits.readPayload_write (h : r.Fits) (depth : Nat) (rest : Bytes) :
    readPayload depth r.number r.payload.kind (r.payload.write ++ rest) = some (r.payload, rest) := by
  obtain ⟨number, payload⟩ := r
  have hfits := h.payload
  cases payload with
  | varint value => simp [readPayload, Payload.kind, Payload.write, readVarint_writeVarint hfits]
  | fixed64 bytes =>
    simp [readPayload, Payload.kind, Payload.write, takeExactly_append hfits]
  | delimited bytes =>
    simp [readPayload, Payload.kind, Payload.write, readDelimited_write hfits]
  | group => exact hfits.elim
  | fixed32 bytes =>
    simp [readPayload, Payload.kind, Payload.write, takeExactly_append hfits]

theorem Record.Fits.write_ne_nil (h : r.Fits) : r.write ≠ [] := by
  rw [h.write_eq]
  exact List.append_ne_nil_of_left_ne_nil (writeKey_ne_nil _ _) _

theorem recordsFrom_of_key {bytes after after' : Bytes} {number : Nat} {kind : Kind}
    {payload : Payload} (hkey : readKey bytes = some (number, kind, after))
    (hpayload : readPayload depth number kind after = some (payload, after')) (hne : bytes ≠ [])
    (fuel : Nat) : recordsFrom depth (fuel + 1) bytes =
      (recordsFrom depth fuel after').map (⟨number, payload⟩ :: ·) := by
  obtain ⟨byte, more, rfl⟩ := List.exists_cons_of_ne_nil hne
  rw [recordsFrom, hkey]
  simp only [Option.bind_eq_bind, Option.bind_some, hpayload]
  cases recordsFrom depth fuel after' <;> rfl

/-- A record is read, and then what follows it. -/
theorem Record.Fits.recordsFrom_write (h : r.Fits) (depth fuel : Nat) (rest : Bytes) :
    recordsFrom depth (fuel + 1) (r.write ++ rest) =
      (recordsFrom depth fuel rest).map (r :: ·) :=
  recordsFrom_of_key (h.readKey_write rest) (h.readPayload_write depth rest)
    (List.append_ne_nil_of_left_ne_nil h.write_ne_nil _) fuel

end Records

end BuildProgress.Wire
