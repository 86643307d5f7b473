import BuildProgress.Json.Reader
import BuildProgress.Json.Writer
import BuildProgress.Proofs.Text.Digits

/-!
# Strings and numbers in JSON texts

A string is read back from its written form, whatever characters it holds. A number may be written
in more than one way unless it is an integer; `Number.Spells` says in which.
-/

namespace BuildProgress.Json

set_option autoImplicit false

open BuildProgress.Text

section Strings

variable {rest : List Char} {points : List Nat}

theorem hexDigit?_digitChar {k : Nat} (h : k < 16) : hexDigit? (Nat.digitChar k) = some k := by
  have hall : ∀ k < 16, hexDigit? (Nat.digitChar k) = some k := by decide
  exact hall k h

theorem hexUnit?_control {n : Nat} (h : n < 0x20) :
    hexUnit? '0' '0' (Nat.digitChar (n / 16)) (Nat.digitChar (n % 16)) = some n := by
  have hzero : hexDigit? '0' = some 0 := rfl
  have hvalue : ((0 * 16 + 0) * 16 + n / 16) * 16 + n % 16 = n := by omega
  simp [hexUnit?, hzero, hexDigit?_digitChar (show n / 16 < 16 by omega),
    hexDigit?_digitChar (show n % 16 < 16 by omega)]
  omega

theorem stringPoints_escape {e c : Char} (hescape : escaped? e = some c) (rest : List Char) :
    stringPoints ('\\' :: e :: rest) =
      (stringPoints rest).map fun (points, after) => (c.toNat :: points, after) := by
  have hplain : e ≠ 'u' := by
    rintro rfl
    cases hescape
  cases hrest : stringPoints rest <;> simp [stringPoints, hescape, hplain, hrest]

/-- A character is read back from its escape or from itself. -/
theorem stringPoints_escapedChar (c : Char) (rest : List Char) :
    stringPoints (escapedChar c ++ rest) =
      (stringPoints rest).map fun (points, after) => (c.toNat :: points, after) := by
  unfold escapedChar
  split_ifs with hquote hback hfeed hreturn htab hbell hpage hcontrol
  · exact stringPoints_escape (by rw [hquote]; rfl) rest
  · exact stringPoints_escape (by rw [hback]; rfl) rest
  · exact stringPoints_escape (by rw [hfeed]; rfl) rest
  · exact stringPoints_escape (by rw [hreturn]; rfl) rest
  · exact stringPoints_escape (by rw [htab]; rfl) rest
  · exact stringPoints_escape (by rw [hbell]; rfl) rest
  · exact stringPoints_escape (by rw [hpage]; rfl) rest
  · cases hrest : stringPoints rest <;> simp [stringPoints, hexUnit?_control hcontrol, hrest]
  · cases hrest : stringPoints rest <;> simp [stringPoints, hcontrol, hback, hrest]

theorem stringPoints_writeText (text rest : List Char) :
    stringPoints (text.flatMap escapedChar ++ '"' :: rest) = some (text.map Char.toNat, rest) := by
  induction text with
  | nil => rfl
  | cons c text ih =>
    rw [List.flatMap_cons, List.append_assoc, stringPoints_escapedChar, ih]
    rfl

/-- A character is no half of a surrogate pair. -/
theorem not_surrogate (c : Char) :
    isHighSurrogate c.toNat = false ∧ isLowSurrogate c.toNat = false := by
  have hvalid : c.toNat < 0xD800 ∨ 0xDFFF < c.toNat ∧ c.toNat < 0x110000 := c.valid
  simp [isHighSurrogate, isLowSurrogate]
  omega

theorem joinPairs_cons (c : Char) (points : List Nat) :
    joinPairs (c.toNat :: points) = (joinPairs points).map (c :: ·) := by
  obtain ⟨hhigh, hlow⟩ := not_surrogate c
  cases points with
  | nil => simp [joinPairs, hhigh, hlow]
  | cons second points => simp [joinPairs, hhigh, hlow]

theorem joinPairs_toNat (text : List Char) : joinPairs (text.map Char.toNat) = some text := by
  induction text with
  | nil => rfl
  | cons c text ih =>
    rw [List.map_cons, joinPairs_cons, ih]
    rfl

theorem stringBody_writeText (text : String) (rest : List Char) :
    stringBody (text.toList.flatMap escapedChar ++ '"' :: rest) = some (some text, rest) := by
  simp [stringBody, stringPoints_writeText, joinPairs_toNat]

end Strings

section Numbers

variable {rest : List Char}

/-- What may go on with a number. -/
def continuesNumber (c : Char) : Bool :=
  isDigit c || c == '.' || c == 'e' || c == 'E'

/-- The texts of an exponent: digits after a mark, with or without a sign. -/
inductive ExponentText : Int → List Char → Prop where
  | unsigned {mark : Char} {digits : List Char} (hmark : mark = 'e' ∨ mark = 'E')
      (hsome : digits ≠ []) (hdigits : ∀ c ∈ digits, isDigit c = true) :
      ExponentText (digitsValue digits) (mark :: digits)
  | positive {mark : Char} {digits : List Char} (hmark : mark = 'e' ∨ mark = 'E')
      (hsome : digits ≠ []) (hdigits : ∀ c ∈ digits, isDigit c = true) :
      ExponentText (digitsValue digits) (mark :: '+' :: digits)
  | negative {mark : Char} {digits : List Char} (hmark : mark = 'e' ∨ mark = 'E')
      (hsome : digits ≠ []) (hdigits : ∀ c ∈ digits, isDigit c = true) :
      ExponentText (-(digitsValue digits)) (mark :: '-' :: digits)

theorem not_isDigit_of_stops (hrest : StopsAt continuesNumber rest) : StopsAt isDigit rest :=
  hrest.mono fun c hc => by simp [continuesNumber, hc]

theorem exponentDigits?_run (negative : Bool) {digits : List Char} (hsome : digits ≠ [])
    (hdigits : ∀ c ∈ digits, isDigit c = true) (hrest : StopsAt isDigit rest) :
    exponentDigits? negative (digits ++ rest) =
      some (some (if negative then -(digitsValue digits : Int) else digitsValue digits), rest) := by
  simp [exponentDigits?, takeWhile_run hdigits hrest, dropWhile_run hdigits hrest, hsome]

theorem ExponentText.exponent? {exponent : Int} {text : List Char}
    (h : ExponentText exponent text) (hrest : StopsAt isDigit rest) :
    Json.exponent? (text ++ rest) = some (some exponent, rest) := by
  cases h with
  | @unsigned mark digits hmark hsome hdigits =>
    have hread := exponentDigits?_run false hsome hdigits hrest
    rw [List.cons_append, Json.exponent?, if_pos hmark]
    · exact hread
    -- The first digit is no sign.
    all_goals
      obtain ⟨d, more, rfl⟩ := List.exists_cons_of_ne_nil hsome
      have hd := hdigits d List.mem_cons_self
      rintro _ heq
      rw [(List.cons.inj heq).1] at hd
      cases hd
  | positive hmark hsome hdigits =>
    simp only [List.cons_append, Json.exponent?, if_pos hmark]
    exact exponentDigits?_run false hsome hdigits hrest
  | negative hmark hsome hdigits =>
    simp only [List.cons_append, Json.exponent?, if_pos hmark]
    exact exponentDigits?_run true hsome hdigits hrest

theorem exponent?_none (hrest : StopsAt continuesNumber rest) :
    exponent? rest = some (none, rest) := by
  cases rest with
  | nil => rfl
  | cons c rest =>
    have hc := stopsAt_cons.1 hrest
    have hmark : ¬ (c = 'e' ∨ c = 'E') := by
      rintro (rfl | rfl) <;> cases hc
    simp [exponent?.eq_def, hmark]

def afterPoint (places : List Char) : List Char :=
  if places = [] then [] else '.' :: places

theorem fraction?_afterPoint {places : List Char} (hplaces : ∀ c ∈ places, isDigit c = true)
    (hrest : StopsAt isDigit rest) (hpoint : ∀ c ∈ rest.head?, c ≠ '.') :
    fraction? (afterPoint places ++ rest) = some (places, rest) := by
  unfold afterPoint
  split_ifs with hnone
  · subst hnone
    rw [List.nil_append, fraction?]
    rintro more rfl
    exact hpoint '.' rfl rfl
  · simp [fraction?, takeWhile_run hplaces hrest, dropWhile_run hplaces hrest, hnone]

def signText (negative : Bool) : List Char :=
  if negative then ['-'] else []

/-- The texts of what stands after the digits and places of a number. -/
def TailText : Option Int → List Char → Prop
  | none, text => text = []
  | some exponent, text => ExponentText exponent text

theorem TailText.exponent? {exponent : Option Int} {tail : List Char}
    (h : TailText exponent tail) (hrest : StopsAt continuesNumber rest) :
    Json.exponent? (tail ++ rest) = some (exponent, rest) := by
  cases exponent with
  | none =>
    rw [show tail = [] from h]
    exact exponent?_none hrest
  | some exponent => exact ExponentText.exponent? h (not_isDigit_of_stops hrest)

/-- A number goes on neither with a digit nor with a point where its exponent may stand. -/
theorem TailText.stops {exponent : Option Int} {tail : List Char}
    (h : TailText exponent tail) (hrest : StopsAt continuesNumber rest) :
    StopsAt (fun c => isDigit c || c == '.') (tail ++ rest) := by
  cases exponent with
  | none =>
    rw [show tail = [] from h]
    exact hrest.mono fun c hc => by simp_all [continuesNumber]
  | some exponent =>
    have hmark : ∀ mark : Char, mark = 'e' ∨ mark = 'E' →
        (isDigit mark || mark == '.') = false := by
      rintro _ (rfl | rfl) <;> rfl
    cases h with
    | unsigned hm => exact stopsAt_cons.2 (hmark _ hm)
    | positive hm => exact stopsAt_cons.2 (hmark _ hm)
    | negative hm => exact stopsAt_cons.2 (hmark _ hm)

/-- The texts of a number: an integer has one, and any other number has its digits without a needless
zero in front, the places after the point if there are any, and an exponent if there is one. -/
inductive Number.Spells : Number → List Char → Prop where
  | integer (n : Int) : Spells (.integer n) (signedDecimal n)
  | decimal {negative : Bool} {whole : Nat} {places tail : List Char} {exponent : Option Int}
      (hplaces : ∀ c ∈ places, isDigit c = true) (htail : TailText exponent tail)
      (hproper : places ≠ [] ∨ exponent.isSome = true ∨ negative = true ∧ whole = 0) :
      Spells (.decimal negative (digitsValue (Text.decimal whole ++ places)) places.length
          (exponent.getD 0))
        (signText negative ++ (Text.decimal whole ++ (afterPoint places ++ tail)))

theorem unsignedNumber?_spelled (negative : Bool) (whole : Nat) {places tail : List Char}
    {exponent : Option Int} (hplaces : ∀ c ∈ places, isDigit c = true)
    (htail : TailText exponent tail) (hrest : StopsAt continuesNumber rest) :
    unsignedNumber? negative (decimal whole ++ (afterPoint places ++ (tail ++ rest))) =
      if (places = [] ∧ exponent = none) ∧ (negative = false ∨ whole ≠ 0) then
        some (.integer (if negative then -(whole : Int) else whole), rest)
      else
        some (.decimal negative (digitsValue (decimal whole ++ places)) places.length
          (exponent.getD 0), rest) := by
  have hstops := htail.stops hrest
  have hdigits : ∀ c ∈ decimal whole, isDigit c = true := fun c => isDigit_of_mem_decimal
  have hafter : StopsAt isDigit (afterPoint places ++ (tail ++ rest)) := by
    unfold afterPoint
    split_ifs
    · exact hstops.mono fun c hc => by simp [hc]
    · exact stopsAt_cons.2 rfl
  have hfraction := fraction?_afterPoint hplaces (hstops.mono fun c hc => by simp [hc])
    (fun c hc heq => by simpa [heq] using hstops c hc)
  have hzero : ((decimal whole).head? == some '0' && (decimal whole).length != 1) = false := by
    by_cases hhead : (decimal whole).head? = some '0'
    · rw [decimal_eq_of_head? hhead]
      rfl
    · simp [hhead]
  simp [unsignedNumber?, takeWhile_run hdigits hafter, dropWhile_run hdigits hafter, hfraction,
    htail.exponent? hrest, decimal_ne_nil, hzero, digitsValue_decimal]

theorem number?_decimal (whole : Nat) (rest : List Char) :
    number? (decimal whole ++ rest) = unsignedNumber? false (decimal whole ++ rest) := by
  rw [number?]
  obtain ⟨d, more, hdigits⟩ := List.exists_cons_of_ne_nil (decimal_ne_nil whole)
  have hd : isDigit d = true := isDigit_of_mem_decimal (n := whole) (by simp [hdigits])
  rintro _ heq
  rw [hdigits] at heq
  rw [(List.cons.inj heq).1] at hd
  cases hd

theorem Number.Spells.number? {n : Number} {text : List Char} (h : n.Spells text)
    (hrest : StopsAt continuesNumber rest) : Json.number? (text ++ rest) = some (n, rest) := by
  cases h with
  | integer n =>
    have hplaces : ∀ c ∈ ([] : List Char), isDigit c = true := by simp
    have htail : TailText none [] := rfl
    have hread := fun negative => unsignedNumber?_spelled negative n.natAbs hplaces htail hrest
    unfold signedDecimal
    split_ifs with hsign
    · refine (hread true).trans ?_
      rw [if_pos ⟨⟨rfl, rfl⟩, .inr (by omega)⟩, if_pos rfl, show -(n.natAbs : Int) = n by omega]
    · rw [number?_decimal]
      refine (hread false).trans ?_
      rw [if_pos ⟨⟨rfl, rfl⟩, .inl rfl⟩, show (n.natAbs : Int) = n by omega]
      rfl
  | @decimal negative whole places tail exponent hplaces htail hproper =>
    have hread := unsignedNumber?_spelled negative whole hplaces htail hrest
    rw [if_neg] at hread
    · simp only [List.append_assoc]
      cases negative with
      | true => exact hread
      | false => exact (number?_decimal _ _).trans hread
    · rintro ⟨⟨hplaces, hexponent⟩, hsign⟩
      rcases hproper with hproper | hproper | ⟨hnegative, hzero⟩
      · exact hproper hplaces
      · rw [hexponent] at hproper
        cases hproper
      · rcases hsign with hsign | hsign
        · rw [hsign] at hnegative
          cases hnegative
        · exact hsign hzero

end Numbers

end BuildProgress.Json
