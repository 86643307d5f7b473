import BuildProgress.Base64
import Mathlib.Logic.Basic

/-!
# Bytes survive base64

Three bytes and four letters hold the same 24 bits. Padding is told from a letter, and the bits that
the last letter has left over are written as zero, so that the strict reader takes what is written, and
nothing else.
-/

namespace BuildProgress.Base64

set_option autoImplicit false

theorem value?_letter {value : Nat} (h : value < 64) : value? (letter value) = some value := by
  have hall : ∀ v : Fin 64, value? (letter v) = some v.val := by decide
  exact hall ⟨value, h⟩

theorem letter_ne_pad {value : Nat} (h : value < 64) : letter value ≠ '=' := by
  intro heq
  have hnone : value? '=' = none := by decide
  rw [← heq, value?_letter h] at hnone
  cases hnone

theorem ofNat_of_eq {byte : UInt8} {value : Nat} (h : value = byte.toNat) :
    UInt8.ofNat value = byte := by
  rw [h, UInt8.ofNat_toNat]

variable {w x y z : Nat}

theorem lastByte?_letters (hx : x < 64) (hy : y < 64) (hleft : y % 16 = 0) :
    lastByte? (letter x) (letter y) = some [UInt8.ofNat (x * 4 + y / 16)] := by
  simp [lastByte?, value?_letter hx, value?_letter hy, hleft]

theorem lastBytes?_letters (hx : x < 64) (hy : y < 64) (hz : z < 64) (hleft : z % 4 = 0) :
    lastBytes? (letter x) (letter y) (letter z) =
      some [UInt8.ofNat (x * 4 + y / 16), UInt8.ofNat (y % 16 * 16 + z / 4)] := by
  simp [lastBytes?, value?_letter hx, value?_letter hy, value?_letter hz, hleft]

theorem bytes?_letters (hx : x < 64) (hy : y < 64) (hz : z < 64) (hw : w < 64) :
    bytes? (letter x) (letter y) (letter z) (letter w) =
      some [UInt8.ofNat (x * 4 + y / 16), UInt8.ofNat (y % 16 * 16 + z / 4),
        UInt8.ofNat (z % 4 * 64 + w)] := by
  simp [bytes?, value?_letter hx, value?_letter hy, value?_letter hz, value?_letter hw]

/-- Four characters of which the last is no padding are read as three bytes. -/
theorem decode?_cons {a b c d : Char} (hd : d ≠ '=') (rest : List Char) :
    decode? (a :: b :: c :: d :: rest) =
      (bytes? a b c d).bind fun first => (decode? rest).bind fun more => some (first ++ more) := by
  rw [decode?]
  · rfl
  · exact fun _ hpad _ => hd hpad
  · exact fun hpad _ => hd hpad

theorem decode?_letters (hx : x < 64) (hy : y < 64) (hz : z < 64) (hw : w < 64) (rest : List Char) :
    decode? (letter x :: letter y :: letter z :: letter w :: rest) =
      (decode? rest).map fun more => [UInt8.ofNat (x * 4 + y / 16),
        UInt8.ofNat (y % 16 * 16 + z / 4), UInt8.ofNat (z % 4 * 64 + w)] ++ more := by
  rw [decode?_cons (letter_ne_pad hw), bytes?_letters hx hy hz hw]
  cases decode? rest <;> rfl

theorem decode?_encode (bytes : List UInt8) : decode? (encode bytes) = some bytes := by
  induction bytes using encode.induct with
  | case1 => rfl
  | case2 a =>
    have ha := a.toNat_lt
    have hlast := lastByte?_letters (x := a.toNat / 4) (y := a.toNat % 4 * 16) (by omega) (by omega)
      (by omega)
    have hbyte : UInt8.ofNat (a.toNat / 4 * 4 + a.toNat % 4 * 16 / 16) = a :=
      ofNat_of_eq (by omega)
    rw [hbyte] at hlast
    rw [encode, decode?, hlast]
  | case3 a b =>
    have ha := a.toNat_lt
    have hb := b.toNat_lt
    have hlast := lastBytes?_letters (x := a.toNat / 4) (y := a.toNat % 4 * 16 + b.toNat / 16)
      (z := b.toNat % 16 * 4) (by omega) (by omega) (by omega) (by omega)
    have hfirst : UInt8.ofNat (a.toNat / 4 * 4 + (a.toNat % 4 * 16 + b.toNat / 16) / 16) = a :=
      ofNat_of_eq (by omega)
    have hsecond : UInt8.ofNat ((a.toNat % 4 * 16 + b.toNat / 16) % 16 * 16 +
        b.toNat % 16 * 4 / 4) = b := ofNat_of_eq (by omega)
    rw [hfirst, hsecond] at hlast
    rw [encode, decode?, hlast]
    exact fun hpad => absurd hpad (letter_ne_pad (by omega))
  | case4 a b c rest ih =>
    have ha := a.toNat_lt
    have hb := b.toNat_lt
    have hc := c.toNat_lt
    have hfirst : UInt8.ofNat (a.toNat / 4 * 4 + (a.toNat % 4 * 16 + b.toNat / 16) / 16) = a :=
      ofNat_of_eq (by omega)
    have hsecond : UInt8.ofNat ((a.toNat % 4 * 16 + b.toNat / 16) % 16 * 16 +
        (b.toNat % 16 * 4 + c.toNat / 64) / 4) = b := ofNat_of_eq (by omega)
    have hthird : UInt8.ofNat ((b.toNat % 16 * 4 + c.toNat / 64) % 4 * 64 + c.toNat % 64) = c :=
      ofNat_of_eq (by omega)
    rw [encode, decode?_letters (by omega) (by omega) (by omega) (by omega), ih, hfirst, hsecond,
      hthird]
    rfl

section Canonical

theorem ascii_of_value? {c : Char} {value : Nat} (h : value? c = some value) : c.toNat < 128 := by
  unfold value? at h
  split at h
  · rename_i hrange
    exact Nat.lt_of_le_of_lt hrange.2 (by decide)
  · split at h
    · rename_i hrange
      exact Nat.lt_of_le_of_lt hrange.2 (by decide)
    · split at h
      · rename_i hrange
        exact Nat.lt_of_le_of_lt hrange.2 (by decide)
      · split at h
        · rename_i hplus
          rw [hplus]
          decide
        · split at h
          · rename_i hslash
            rw [hslash]
            decide
          · cases h

/-- A letter is the one that is written for its value. -/
theorem letter_of_value? {c : Char} {value : Nat} (h : value? c = some value) :
    value < 64 ∧ letter value = c := by
  have hall : ∀ n : Fin 128, ∀ v ∈ value? (Char.ofNat n), v < 64 ∧ letter v = Char.ofNat n := by
    decide
  have hletter := hall ⟨c.toNat, ascii_of_value? h⟩ value
  rw [Char.ofNat_toNat] at hletter
  exact hletter h

theorem encode_lastByte? {a b : Char} {bytes : List UInt8} (h : lastByte? a b = some bytes) :
    encode bytes = [a, b, '=', '='] := by
  simp only [lastByte?, Option.bind_eq_bind, Option.bind_eq_some_iff] at h
  obtain ⟨x, hx, y, hy, h⟩ := h
  obtain ⟨hx, rfl⟩ := letter_of_value? hx
  obtain ⟨hy, rfl⟩ := letter_of_value? hy
  split at h
  · obtain rfl := Option.some.inj h
    have hbyte : x * 4 + y / 16 < 256 := by omega
    have hfirst : (x * 4 + y / 16) / 4 = x := by omega
    have hsecond : (x * 4 + y / 16) % 4 * 16 = y := by omega
    rw [encode, UInt8.toNat_ofNat_of_lt' hbyte, hfirst, hsecond]
  · cases h

theorem encode_lastBytes? {a b c : Char} {bytes : List UInt8} (h : lastBytes? a b c = some bytes) :
    encode bytes = [a, b, c, '='] := by
  simp only [lastBytes?, Option.bind_eq_bind, Option.bind_eq_some_iff] at h
  obtain ⟨x, hx, y, hy, z, hz, h⟩ := h
  obtain ⟨hx, rfl⟩ := letter_of_value? hx
  obtain ⟨hy, rfl⟩ := letter_of_value? hy
  obtain ⟨hz, rfl⟩ := letter_of_value? hz
  split at h
  · obtain rfl := Option.some.inj h
    have hbyte : x * 4 + y / 16 < 256 := by omega
    have hnext : y % 16 * 16 + z / 4 < 256 := by omega
    have hfirst : (x * 4 + y / 16) / 4 = x := by omega
    have hsecond : (x * 4 + y / 16) % 4 * 16 + (y % 16 * 16 + z / 4) / 16 = y := by omega
    have hthird : (y % 16 * 16 + z / 4) % 16 * 4 = z := by omega
    rw [encode, UInt8.toNat_ofNat_of_lt' hbyte, UInt8.toNat_ofNat_of_lt' hnext, hfirst, hsecond,
      hthird]
  · cases h

theorem encode_bytes? {a b c d : Char} {bytes : List UInt8} (h : bytes? a b c d = some bytes)
    (more : List UInt8) : encode (bytes ++ more) = a :: b :: c :: d :: encode more := by
  simp only [bytes?, Option.bind_eq_bind, Option.bind_eq_some_iff] at h
  obtain ⟨x, hx, y, hy, z, hz, w, hw, h⟩ := h
  obtain ⟨hx, rfl⟩ := letter_of_value? hx
  obtain ⟨hy, rfl⟩ := letter_of_value? hy
  obtain ⟨hz, rfl⟩ := letter_of_value? hz
  obtain ⟨hw, rfl⟩ := letter_of_value? hw
  obtain rfl := Option.some.inj h
  have hbyte : x * 4 + y / 16 < 256 := by omega
  have hnext : y % 16 * 16 + z / 4 < 256 := by omega
  have hlast : z % 4 * 64 + w < 256 := by omega
  have hfirst : (x * 4 + y / 16) / 4 = x := by omega
  have hsecond : (x * 4 + y / 16) % 4 * 16 + (y % 16 * 16 + z / 4) / 16 = y := by omega
  have hthird : (y % 16 * 16 + z / 4) % 16 * 4 + (z % 4 * 64 + w) / 64 = z := by omega
  have hfourth : (z % 4 * 64 + w) % 64 = w := by omega
  simp only [List.cons_append, List.nil_append]
  rw [encode, UInt8.toNat_ofNat_of_lt' hbyte, UInt8.toNat_ofNat_of_lt' hnext,
    UInt8.toNat_ofNat_of_lt' hlast, hfirst, hsecond, hthird, hfourth]

/-- The strict reader takes nothing but what is written. -/
theorem encode_of_decode? {text : List Char} {bytes : List UInt8} (h : decode? text = some bytes) :
    encode bytes = text := by
  fun_induction decode? text generalizing bytes with
  | case1 =>
    obtain rfl := Option.some.inj h
    rfl
  | case2 a b => exact encode_lastByte? h
  | case3 a b c hpad => exact encode_lastBytes? h
  | case4 a b c d rest _ _ ih =>
    simp only [Option.bind_eq_bind, Option.bind_eq_some_iff] at h
    obtain ⟨first, hfirst, more, hmore, h⟩ := h
    obtain rfl := Option.some.inj h
    rw [encode_bytes? hfirst, ih hmore]
  | case5 => cases h

theorem decode?_eq_some_iff {text : List Char} {bytes : List UInt8} :
    decode? text = some bytes ↔ text = encode bytes :=
  ⟨fun h => (encode_of_decode? h).symm, fun h => h ▸ decode?_encode bytes⟩

theorem encode_injective : Function.Injective encode := by
  intro bytes bytes' h
  rw [← Option.some_inj, ← decode?_encode, ← decode?_encode, h]

end Canonical

end BuildProgress.Base64
