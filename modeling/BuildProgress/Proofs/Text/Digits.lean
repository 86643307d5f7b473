import BuildProgress.Text.Decimal
import Mathlib.Data.List.TakeWhile

/-!
# Digits

A number is written with ASCII digits, at least one and no needless zero in front, and reading them
gives the number back. A run of characters of one kind is read as far as it goes.
-/

namespace BuildProgress.Text

set_option autoImplicit false

section Runs

variable {p : Char → Bool} {run rest : List Char}

/-- A run ends where a character follows that is not of its kind, or nothing. -/
def StopsAt (p : Char → Bool) (rest : List Char) : Prop :=
  ∀ c ∈ rest.head?, p c = false

theorem stopsAt_nil (p : Char → Bool) : StopsAt p [] := by
  simp [StopsAt]

theorem stopsAt_cons {c : Char} : StopsAt p (c :: rest) ↔ p c = false := by
  simp [StopsAt]

theorem StopsAt.mono {q : Char → Bool} (h : StopsAt p rest) (hpq : ∀ c, q c = true → p c = true) :
    StopsAt q rest := by
  intro c hc
  have hnot := h c hc
  cases hq : q c with
  | false => rfl
  | true => rw [hpq c hq] at hnot; exact hnot

theorem takeWhile_stop (hrest : StopsAt p rest) : rest.takeWhile p = [] := by
  cases rest with
  | nil => rfl
  | cons c rest => simp [stopsAt_cons.1 hrest]

theorem dropWhile_stop (hrest : StopsAt p rest) : rest.dropWhile p = rest := by
  cases rest with
  | nil => rfl
  | cons c rest => simp [stopsAt_cons.1 hrest]

theorem takeWhile_run (hrun : ∀ c ∈ run, p c = true) (hrest : StopsAt p rest) :
    (run ++ rest).takeWhile p = run := by
  rw [List.takeWhile_append_of_pos hrun, takeWhile_stop hrest, List.append_nil]

theorem dropWhile_run (hrun : ∀ c ∈ run, p c = true) (hrest : StopsAt p rest) :
    (run ++ rest).dropWhile p = rest := by
  rw [List.dropWhile_append_of_pos hrun, dropWhile_stop hrest]

theorem stopsAt_dropWhile (p : Char → Bool) (text : List Char) : StopsAt p (text.dropWhile p) := by
  induction text with
  | nil => exact stopsAt_nil p
  | cons c text ih =>
    cases hc : p c with
    | true => rwa [List.dropWhile_cons_of_pos hc]
    | false =>
      rw [List.dropWhile_cons_of_neg (by simp [hc])]
      exact stopsAt_cons.2 hc

/-- A text is split where its first run ends. -/
theorem split_eq_iff {text : List Char} : text.takeWhile p = run ∧ text.dropWhile p = rest ↔
    text = run ++ rest ∧ (∀ c ∈ run, p c = true) ∧ StopsAt p rest := by
  constructor
  · rintro ⟨rfl, rfl⟩
    exact ⟨List.takeWhile_append_dropWhile.symm, fun _ => List.mem_takeWhile_imp,
      stopsAt_dropWhile p text⟩
  · rintro ⟨rfl, hrun, hrest⟩
    exact ⟨takeWhile_run hrun hrest, dropWhile_run hrun hrest⟩

end Runs

section Decimal

theorem isDigit_eq (c : Char) : isDigit c = c.isDigit := by
  rw [isDigit, Char.isDigit]
  rfl

theorem isDigit_of_mem_decimal {n : Nat} {c : Char} (h : c ∈ decimal n) : isDigit c = true := by
  rw [isDigit_eq]
  exact Nat.isDigit_of_mem_toDigits (by omega) (by omega) h

theorem decimal_ne_nil (n : Nat) : decimal n ≠ [] :=
  Nat.toDigits_ne_nil

theorem digitsValue_decimal (n : Nat) : digitsValue (decimal n) = n :=
  Nat.ofDigitChars_ten_toDigits

theorem digitsValue_zeros (k : Nat) (digits : List Char) :
    digitsValue (List.replicate k '0' ++ digits) = digitsValue digits := by
  induction k with
  | zero => rfl
  | succ k ih =>
    rw [List.replicate_succ, List.cons_append, digitsValue, Nat.ofDigitChars_cons]
    exact ih

theorem readDigits?_run {run : List Char} (hsome : run ≠ []) (hrun : ∀ c ∈ run, isDigit c = true) :
    readDigits? run =
      if digitsValue run ≤ maxUnsigned then some (digitsValue run) else none := by
  have hall : run.all isDigit = true := List.all_eq_true.mpr hrun
  simp [readDigits?, hsome, hall]

/-- A run of digits has no sign in front. -/
theorem readCount?_run {run : List Char} (hrun : ∀ c ∈ run, isDigit c = true) :
    readCount? run = readDigits? run := by
  unfold readCount?
  split
  · exact absurd (hrun '+' List.mem_cons_self) (by decide)
  · rfl

/-- The first digit is zero for zero only. -/
theorem head?_toDigits {base n : Nat} (hbase : 1 < base) (h : (Nat.toDigits base n).head? = some '0') :
    n = 0 := by
  induction n using Nat.strongRecOn with
  | ind n ih =>
    rw [Nat.toDigits_eq_if hbase] at h
    split at h
    · simpa using h
    · have hfewer : n / base < n := Nat.div_lt_self (by omega) hbase
      have hhead : (Nat.toDigits base (n / base)).head? = some '0' := by
        obtain ⟨c, more, hdigits⟩ := List.exists_cons_of_ne_nil (Nat.toDigits_ne_nil (n := n / base))
        rw [hdigits] at h ⊢
        exact h
      have hzero := ih (n / base) hfewer hhead
      rw [Nat.div_eq_zero_iff] at hzero
      omega

theorem decimal_eq_of_head? {n : Nat} (h : (decimal n).head? = some '0') : decimal n = ['0'] := by
  rw [head?_toDigits (by omega) h]
  rfl

theorem length_decimal_le {n k : Nat} (hk : 0 < k) (h : n < Nat.pow 10 k) : (decimal n).length ≤ k :=
  (Nat.length_toDigits_le_iff (by omega) hk).2 h

end Decimal

end BuildProgress.Text
