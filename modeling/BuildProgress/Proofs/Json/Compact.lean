import BuildProgress.Proofs.Json.Scalar

/-!
# Compact texts

A compact text of a value has no blanks, and its strings are in their written form. It is read back as
the value.
-/

namespace BuildProgress.Json

set_option autoImplicit false

open BuildProgress.Text

mutual

/-- The compact texts of a value. There is one, unless there are numbers that are no integers. -/
inductive Compact : Json → List Char → Prop where
  | null : Compact .null ['n', 'u', 'l', 'l']
  | boolTrue : Compact (.bool true) ['t', 'r', 'u', 'e']
  | boolFalse : Compact (.bool false) ['f', 'a', 'l', 's', 'e']
  | number {n : Number} {text : List Char} (h : n.Spells text) : Compact (.number n) text
  | string (text : String) : Compact (ofString text) (writeText text)
  | emptyArray : Compact (.array []) ['[', ']']
  | array {items : List Json} {text : List Char} (h : CompactItems items text) :
      Compact (.array items) ('[' :: text ++ [']'])
  | emptyObject : Compact (.object []) ['{', '}']
  | object {members : List (Option String × Json)} {text : List Char}
      (h : CompactMembers members text) : Compact (.object members) ('{' :: text ++ ['}'])

inductive CompactItems : List Json → List Char → Prop where
  | last {item : Json} {text : List Char} (h : Compact item text) : CompactItems [item] text
  | cons {item : Json} {items : List Json} {text more : List Char} (h : Compact item text)
      (hmore : CompactItems items more) : CompactItems (item :: items) (text ++ ',' :: more)

inductive CompactMembers : List (Option String × Json) → List Char → Prop where
  | last {key : String} {value : Json} {text : List Char} (h : Compact value text) :
      CompactMembers [(some key, value)] (writeText key ++ ':' :: text)
  | cons {key : String} {value : Json} {members : List (Option String × Json)}
      {text more : List Char} (h : Compact value text) (hmore : CompactMembers members more) :
      CompactMembers ((some key, value) :: members) (writeText key ++ ':' :: (text ++ ',' :: more))

end

section Begins

/-- A character with which a number begins. -/
def beginsNumber (c : Char) : Bool :=
  isDigit c || c == '-'

theorem Number.Spells.begins {n : Number} {text : List Char} (h : n.Spells text) :
    ∃ c more, text = c :: more ∧ beginsNumber c = true := by
  have hdecimal : ∀ whole rest, ∃ c more, Text.decimal whole ++ rest = c :: more ∧
      beginsNumber c = true := fun whole rest => by
    obtain ⟨d, more, hdigits⟩ := List.exists_cons_of_ne_nil (decimal_ne_nil whole)
    have hd : isDigit d = true := isDigit_of_mem_decimal (n := whole) (by simp [hdigits])
    exact ⟨d, more ++ rest, by rw [hdigits]; rfl, by simp [beginsNumber, hd]⟩
  cases h with
  | integer n =>
    unfold signedDecimal
    split_ifs
    · exact ⟨_, _, rfl, rfl⟩
    · simpa using hdecimal n.natAbs []
  | @decimal negative whole places tail exponent _ _ _ =>
    cases negative with
    | true => exact ⟨_, _, rfl, rfl⟩
    | false => exact hdecimal _ _

theorem writeText_eq (text : String) (rest : List Char) :
    writeText text ++ rest = '"' :: (text.toList.flatMap escapedChar ++ '"' :: rest) := by
  simp [writeText]

/-- A value begins with no blank and not with the bracket that closes an array. -/
theorem Compact.begins {j : Json} {text : List Char} (h : Compact j text) :
    ∃ c more, text = c :: more ∧ isGap c = false ∧ c ≠ ']' := by
  cases h with
  | number h =>
    obtain ⟨c, more, heq, hc⟩ := h.begins
    refine ⟨c, more, heq, ?_, ?_⟩
    · cases hgap : isGap c with
      | false => rfl
      | true =>
        simp only [isGap, Bool.or_eq_true, beq_iff_eq] at hgap
        rcases hgap with ((rfl | rfl) | rfl) | rfl <;> cases hc
    · rintro rfl
      cases hc
  | string text => exact ⟨_, _, rfl, rfl, by decide⟩
  | null | boolTrue | boolFalse | emptyArray | array | emptyObject | object =>
    exact ⟨_, _, rfl, rfl, by decide⟩

theorem CompactItems.begins {items : List Json} {text : List Char} (h : CompactItems items text) :
    ∃ c more, text = c :: more ∧ isGap c = false ∧ c ≠ ']' := by
  cases h with
  | last h => exact h.begins
  | cons h _ =>
    obtain ⟨c, more, rfl, hc⟩ := h.begins
    exact ⟨c, _, rfl, hc⟩

theorem CompactMembers.begins {members : List (Option String × Json)} {text : List Char}
    (h : CompactMembers members text) : ∃ more, text = '"' :: more := by
  cases h with
  | last => exact ⟨_, rfl⟩
  | cons => exact ⟨_, rfl⟩

end Begins

section Reading

variable {fuel : Nat} {rest : List Char}

theorem skipGaps_cons {c : Char} (h : isGap c = false) (rest : List Char) :
    skipGaps (c :: rest) = c :: rest :=
  dropWhile_stop (stopsAt_cons.2 h)

theorem valueFrom_number {c : Char} (hc : beginsNumber c = true) (fuel : Nat) (rest : List Char) :
    valueFrom (fuel + 1) (c :: rest) =
      (number? (c :: rest)).map fun (n, after) => (.number n, after) := by
  have hgap : isGap c = false := by
    cases hgap : isGap c with
    | false => rfl
    | true =>
      simp only [isGap, Bool.or_eq_true, beq_iff_eq] at hgap
      rcases hgap with ((rfl | rfl) | rfl) | rfl <;> cases hc
  rw [valueFrom, skipGaps_cons hgap]
  split
  case h_7 => rfl
  all_goals
    rename_i heq
    rw [(List.cons.inj heq).1] at hc
    cases hc

theorem valueFrom_string (text : String) (fuel : Nat) (rest : List Char) :
    valueFrom (fuel + 1) (writeText text ++ rest) = some (ofString text, rest) := by
  rw [writeText_eq, valueFrom, skipGaps_cons rfl]
  simp [stringBody_writeText, ofString]

mutual

theorem Compact.valueFrom {j : Json} {text : List Char} (h : Compact j text) (fuel : Nat)
    (rest : List Char) (hfuel : 2 * text.length ≤ fuel) (hrest : StopsAt continuesNumber rest) :
    Json.valueFrom fuel (text ++ rest) = some (j, rest) := by
  obtain ⟨c, more, heq, hgap, hclose⟩ := h.begins
  obtain ⟨fuel, rfl⟩ : ∃ n, fuel = n + 1 := by
    rw [heq, List.length_cons] at hfuel
    exact ⟨fuel - 1, by omega⟩
  cases h with
  | null | boolTrue | boolFalse | emptyArray | emptyObject => rfl
  | number h =>
    have hread := h.number? hrest
    obtain ⟨c, more, rfl, hc⟩ := h.begins
    rw [List.cons_append, valueFrom_number hc, ← List.cons_append, hread]
    rfl
  | string text => exact valueFrom_string text fuel rest
  | @array items text h =>
    have hlength : 2 * text.length + 1 ≤ fuel := by
      simp at hfuel
      omega
    have hread := h.itemsFrom fuel rest hlength
    obtain ⟨c, more, rfl, hgap, hclose⟩ := h.begins
    rw [List.cons_append] at hread
    simp [Json.valueFrom, skipGaps_cons (c := '[') rfl, skipGaps_cons hgap, hclose, hread]
  | @object members text h =>
    have hlength : 2 * text.length + 1 ≤ fuel := by
      simp at hfuel
      omega
    have hread := h.membersFrom fuel rest hlength
    obtain ⟨more, rfl⟩ := h.begins
    rw [List.cons_append] at hread
    simp [Json.valueFrom, skipGaps_cons (c := '{') rfl, skipGaps_cons (c := '"') rfl, hread]

theorem CompactItems.itemsFrom {items : List Json} {text : List Char} (h : CompactItems items text)
    (fuel : Nat) (rest : List Char) (hfuel : 2 * text.length + 1 ≤ fuel) :
    Json.itemsFrom fuel (text ++ ']' :: rest) = some (items, rest) := by
  obtain ⟨fuel, rfl⟩ : ∃ n, fuel = n + 1 := ⟨fuel - 1, by omega⟩
  cases h with
  | last h =>
    have hvalue := h.valueFrom fuel (']' :: rest) (by omega) (stopsAt_cons.2 rfl)
    simp [Json.itemsFrom, hvalue, skipGaps_cons (c := ']') rfl]
  | @cons item items text more h hmore =>
    simp at hfuel
    have hvalue := h.valueFrom fuel (',' :: (more ++ ']' :: rest)) (by omega) (stopsAt_cons.2 rfl)
    have hitems := hmore.itemsFrom fuel rest (by omega)
    simp [Json.itemsFrom, hvalue, skipGaps_cons (c := ',') rfl, hitems]

theorem CompactMembers.membersFrom {members : List (Option String × Json)} {text : List Char}
    (h : CompactMembers members text) (fuel : Nat) (rest : List Char)
    (hfuel : 2 * text.length + 1 ≤ fuel) :
    Json.membersFrom fuel (text ++ '}' :: rest) = some (members, rest) := by
  obtain ⟨fuel, rfl⟩ : ∃ n, fuel = n + 1 := ⟨fuel - 1, by omega⟩
  cases h with
  | @last key value text h =>
    simp at hfuel
    have hvalue := h.valueFrom fuel ('}' :: rest) (by omega) (stopsAt_cons.2 rfl)
    rw [List.append_assoc, writeText_eq]
    simp [Json.membersFrom, skipGaps_cons (c := '"') rfl, stringBody_writeText,
      skipGaps_cons (c := ':') rfl, hvalue, skipGaps_cons (c := '}') rfl]
  | @cons key value members text more h hmore =>
    simp at hfuel
    have hvalue := h.valueFrom fuel (',' :: (more ++ '}' :: rest)) (by omega) (stopsAt_cons.2 rfl)
    have hmembers := hmore.membersFrom fuel rest (by omega)
    rw [List.append_assoc, writeText_eq]
    simp [Json.membersFrom, skipGaps_cons (c := '"') rfl, stringBody_writeText,
      skipGaps_cons (c := ':') rfl, hvalue, skipGaps_cons (c := ',') rfl, hmembers]

end

theorem Compact.read? {j : Json} {text : List Char} (h : Compact j text) :
    Json.read? text = some j := by
  have hvalue := h.valueFrom (2 * text.length + 2) [] (by omega) (stopsAt_nil _)
  rw [List.append_nil] at hvalue
  rw [Json.read?, hvalue]
  rfl

end Reading

end BuildProgress.Json
