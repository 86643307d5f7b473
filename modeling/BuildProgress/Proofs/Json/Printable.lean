import BuildProgress.Proofs.Json.Compact

/-!
# Compact texts are printable

A compact text has no control character: those of a string are escaped. So it has no line break, and it
stays on one line.
-/

namespace BuildProgress.Json

set_option autoImplicit false

open BuildProgress.Text

/-- No character of a text is a control character of ASCII below U+0020. -/
def Printable (text : List Char) : Prop :=
  ∀ c ∈ text, 0x20 ≤ c.toNat

@[simp] theorem printable_nil : Printable [] := by
  simp [Printable]

@[simp] theorem printable_cons {c : Char} {text : List Char} :
    Printable (c :: text) ↔ 0x20 ≤ c.toNat ∧ Printable text := by
  simp [Printable]

@[simp] theorem printable_append {first second : List Char} :
    Printable (first ++ second) ↔ Printable first ∧ Printable second := by
  simp [Printable, or_imp, forall_and]

theorem Printable.notMem {text : List Char} (h : Printable text) {c : Char} (hc : c.toNat < 0x20) :
    c ∉ text :=
  fun hmem => absurd (h c hmem) (by omega)

section Strings

theorem printable_digitChar {k : Nat} (h : k < 16) : 0x20 ≤ (Nat.digitChar k).toNat := by
  have hall : ∀ k < 16, 0x20 ≤ (Nat.digitChar k).toNat := by decide
  exact hall k h

theorem printable_escapedChar (c : Char) : Printable (escapedChar c) := by
  unfold escapedChar
  split_ifs with _ _ _ _ _ _ _ hcontrol
  iterate 7 · simp
  · simp [printable_digitChar (show c.toNat / 16 < 16 by omega),
      printable_digitChar (show c.toNat % 16 < 16 by omega)]
  · simpa using hcontrol

theorem printable_writeText (text : String) : Printable (writeText text) := by
  have hescaped : Printable (text.toList.flatMap escapedChar) := by
    intro c hc
    obtain ⟨d, -, hd⟩ := List.mem_flatMap.1 hc
    exact printable_escapedChar d c hd
  simp [writeText, hescaped]

end Strings

section Numbers

theorem printable_digits {digits : List Char} (h : ∀ c ∈ digits, isDigit c = true) :
    Printable digits := by
  intro c hc
  have hdigit := h c hc
  rw [isDigit_eq, Char.isDigit_iff_toNat] at hdigit
  have hzero : '0'.toNat = 0x30 := rfl
  omega

theorem printable_decimal (n : Nat) : Printable (decimal n) :=
  printable_digits fun _ => isDigit_of_mem_decimal

theorem ExponentText.printable {exponent : Int} {text : List Char} (h : ExponentText exponent text) :
    Printable text := by
  have hmark : ∀ mark : Char, mark = 'e' ∨ mark = 'E' → 0x20 ≤ mark.toNat := by
    rintro _ (rfl | rfl) <;> decide
  cases h with
  | unsigned hm _ hdigits => simp [hmark _ hm, printable_digits hdigits]
  | positive hm _ hdigits => simp [hmark _ hm, printable_digits hdigits]
  | negative hm _ hdigits => simp [hmark _ hm, printable_digits hdigits]

theorem Number.Spells.printable {n : Number} {text : List Char} (h : n.Spells text) :
    Printable text := by
  cases h with
  | integer n =>
    unfold signedDecimal
    split_ifs <;> simp [printable_decimal]
  | @decimal negative whole places tail exponent hplaces htail _ =>
    have hsign : Printable (signText negative) := by
      unfold signText
      split_ifs <;> simp
    have hpoint : Printable (afterPoint places) := by
      unfold afterPoint
      split_ifs <;> simp [printable_digits hplaces]
    have htail : Printable tail := by
      cases exponent with
      | none => simp [show tail = [] from htail]
      | some exponent => exact ExponentText.printable htail
    simp [hsign, printable_decimal, hpoint, htail]

end Numbers

section Values

mutual

theorem Compact.printable : ∀ {j : Json} {text : List Char}, Compact j text → Printable text
  | _, _, .null | _, _, .boolTrue | _, _, .boolFalse | _, _, .emptyArray | _, _, .emptyObject => by simp
  | _, _, .number h => h.printable
  | _, _, .string text => printable_writeText text
  | _, _, .array h => by simp [h.printable]
  | _, _, .object h => by simp [h.printable]

theorem CompactItems.printable : ∀ {items : List Json} {text : List Char},
    CompactItems items text → Printable text
  | _, _, .last h => h.printable
  | _, _, .cons h hmore => by simp [h.printable, hmore.printable]

theorem CompactMembers.printable : ∀ {members : List (Option String × Json)} {text : List Char},
    CompactMembers members text → Printable text
  | _, _, .last h => by simp [printable_writeText, h.printable]
  | _, _, .cons h hmore => by simp [printable_writeText, h.printable, hmore.printable]

end

/-- The text of an object stands in braces. -/
theorem Compact.braces {members : List (Option String × Json)} {text : List Char}
    (h : Compact (.object members) text) : ∃ middle, text = '{' :: middle ++ ['}'] := by
  cases h with
  | emptyObject => exact ⟨[], rfl⟩
  | object h => exact ⟨_, rfl⟩

end Values

end BuildProgress.Json
