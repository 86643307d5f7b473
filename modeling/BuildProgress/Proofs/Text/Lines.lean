import BuildProgress.Proofs.Text.Digits
import BuildProgress.Text.Blank
import BuildProgress.Text.Lines
import Mathlib.Data.List.Induction
import Mathlib.Data.List.TakeWhile

/-!
# Stretches, splitting and trimming

Where a list is cut in two at a stop, its stretches are those of the two parts. Splitting at the first
or the last stop finds the one before or after which there is none. Trimming takes no notice of what is
blank at either end of a text.
-/

namespace BuildProgress.Text

set_option autoImplicit false

section Stretches

variable {α : Type} [DecidableEq α] {stop : α}

theorem stretches_cons_stop (stop : α) (xs : List α) :
    stretches stop (stop :: xs) = ([] :: (stretches stop xs).1, (stretches stop xs).2) := by
  simp [stretches]

/-- Stretches and a rest, and those of what comes after them: the rest goes on with what comes
first. -/
def joinStretches (before after : List (List α) × List α) : List (List α) × List α :=
  match after.1 with
  | [] => (before.1, before.2 ++ after.2)
  | first :: more => (before.1 ++ (before.2 ++ first) :: more, after.2)

theorem stretches_append (stop : α) (xs ys : List α) :
    stretches stop (xs ++ ys) = joinStretches (stretches stop xs) (stretches stop ys) := by
  induction xs with
  | nil =>
    rw [List.nil_append]
    rcases stretches stop ys with ⟨_ | ⟨first, more⟩, rest⟩ <;> rfl
  | cons x xs ih =>
    by_cases hx : x = stop
    · subst hx
      rw [List.cons_append, stretches_cons_stop, ih, stretches_cons_stop]
      rcases stretches x ys with ⟨_ | ⟨first, more⟩, rest⟩ <;> simp [joinStretches]
    · rw [List.cons_append, stretches, ih, stretches]
      -- The first stretch goes on if there is one, else the rest does.
      rcases stretches stop xs with ⟨_ | ⟨first, more⟩, rest⟩ <;>
        rcases stretches stop ys with ⟨_ | ⟨next, later⟩, last⟩ <;> simp [hx, joinStretches]

theorem stretches_append_stop (stop : α) (xs ys : List α) :
    stretches stop (xs ++ stop :: ys) =
      ((stretches stop xs).1 ++ (stretches stop xs).2 :: (stretches stop ys).1,
        (stretches stop ys).2) := by
  simp [stretches_append, stretches_cons_stop, joinStretches]

theorem stretches_of_notMem {xs : List α} (h : stop ∉ xs) : stretches stop xs = ([], xs) := by
  induction xs with
  | nil => rfl
  | cons x xs ih =>
    rw [List.mem_cons, not_or] at h
    simp [stretches, ih h.2, Ne.symm h.1]

theorem stretches_append_of_notMem (xs : List α) {ys : List α} (h : stop ∉ ys) :
    stretches stop (xs ++ ys) = ((stretches stop xs).1, (stretches stop xs).2 ++ ys) := by
  rw [stretches_append, stretches_of_notMem h, joinStretches]

/-- A stretch at the start of a list. -/
theorem stretches_line {xs : List α} (h : stop ∉ xs) (ys : List α) :
    stretches stop (xs ++ stop :: ys) = (xs :: (stretches stop ys).1, (stretches stop ys).2) := by
  rw [stretches_append_stop, stretches_of_notMem h]
  rfl

/-- The stretches, each with its stop, and the rest make up the list. -/
theorem flatMap_stretches (stop : α) (xs : List α) :
    (stretches stop xs).1.flatMap (· ++ [stop]) ++ (stretches stop xs).2 = xs := by
  induction xs with
  | nil => rfl
  | cons x xs ih =>
    by_cases hx : x = stop
    · subst hx
      rw [stretches_cons_stop, List.flatMap_cons, List.nil_append, List.append_assoc, ih,
        List.singleton_append]
    · rw [stretches]
      -- The new item goes to the first stretch if there is one, else to the rest.
      generalize stretches stop xs = parts at ih ⊢
      rcases parts with ⟨_ | ⟨first, more⟩, rest⟩ <;> simpa [hx] using ih

theorem notMem_stretches (stop : α) (xs : List α) :
    (∀ part ∈ (stretches stop xs).1, stop ∉ part) ∧ stop ∉ (stretches stop xs).2 := by
  induction xs with
  | nil => simp [stretches]
  | cons x xs ih =>
    by_cases hx : x = stop
    · subst hx
      rw [stretches_cons_stop]
      simpa using ih
    · rw [stretches]
      generalize stretches stop xs = parts at ih ⊢
      rcases parts with ⟨_ | ⟨first, more⟩, rest⟩ <;>
        simpa [hx, Ne.symm hx, and_assoc] using ih

theorem notMem_splitAll {part xs : List α} (h : part ∈ splitAll stop xs) : stop ∉ part := by
  obtain ⟨hended, hrest⟩ := notMem_stretches stop xs
  rcases List.mem_append.1 h with h | h
  · exact hended part h
  · rw [List.mem_singleton.1 h]
    exact hrest

end Stretches

section Lines

theorem dropLastIf_sublist {α : Type} [DecidableEq α] (x : α) (xs : List α) :
    (dropLastIf x xs).Sublist xs := by
  unfold dropLastIf
  split
  · exact List.dropLast_sublist xs
  · exact .refl xs

/-- A line consists of characters of the text. -/
theorem mem_of_mem_lines {text line : List Char} {c : Char} (hline : line ∈ lines text)
    (hc : c ∈ line) : c ∈ text := by
  rw [← flatMap_stretches '\n' text, List.mem_append, List.mem_flatMap]
  rcases List.mem_append.1 hline with hended | hrest
  · obtain ⟨part, hpart, rfl⟩ := List.mem_map.1 hended
    have hin : c ∈ part := (dropLastIf_sublist '\r' part).subset hc
    exact .inl ⟨part, hpart, List.mem_append_left _ hin⟩
  · right
    split at hrest
    · cases hrest
    · rwa [List.mem_singleton.1 hrest] at hc

end Lines

section Splitting

variable {α : Type} [DecidableEq α] {stop : α} {before after xs : List α}

theorem splitFirst?_append (h : stop ∉ before) (after : List α) :
    splitFirst? stop (before ++ stop :: after) = some (before, after) := by
  induction before with
  | nil => simp [splitFirst?]
  | cons x before ih =>
    rw [List.mem_cons, not_or] at h
    rw [List.cons_append, splitFirst?, if_neg (Ne.symm h.1), ih h.2]
    rfl

theorem splitFirst?_of_notMem (h : stop ∉ xs) : splitFirst? stop xs = none := by
  induction xs with
  | nil => rfl
  | cons x xs ih =>
    rw [List.mem_cons, not_or] at h
    rw [splitFirst?, if_neg (Ne.symm h.1), ih h.2]
    rfl

theorem splitFirst?_eq_some_iff :
    splitFirst? stop xs = some (before, after) ↔ xs = before ++ stop :: after ∧ stop ∉ before := by
  constructor
  · intro h
    by_cases hin : stop ∈ xs
    · obtain ⟨first, rest, rfl, hfirst⟩ := List.eq_append_cons_of_mem hin
      rw [splitFirst?_append hfirst] at h
      obtain ⟨rfl, rfl⟩ := Prod.mk.inj (Option.some.inj h)
      exact ⟨rfl, hfirst⟩
    · rw [splitFirst?_of_notMem hin] at h
      cases h
  · rintro ⟨rfl, hbefore⟩
    exact splitFirst?_append hbefore after

theorem splitFirst?_eq_none_iff : splitFirst? stop xs = none ↔ stop ∉ xs := by
  refine ⟨fun h hin => ?_, splitFirst?_of_notMem⟩
  obtain ⟨first, rest, rfl, hfirst⟩ := List.eq_append_cons_of_mem hin
  rw [splitFirst?_append hfirst] at h
  cases h

theorem splitLast?_append (before : List α) (h : stop ∉ after) :
    splitLast? stop (before ++ stop :: after) = some (before, after) := by
  have hreverse : stop ∉ after.reverse := fun hin => h (List.mem_reverse.1 hin)
  rw [splitLast?, List.reverse_append, List.reverse_cons, List.append_assoc, List.singleton_append,
    splitFirst?_append hreverse]
  simp

theorem splitLast?_of_notMem (h : stop ∉ xs) : splitLast? stop xs = none := by
  have hreverse : stop ∉ xs.reverse := fun hin => h (List.mem_reverse.1 hin)
  rw [splitLast?, splitFirst?_of_notMem hreverse]
  rfl

end Splitting

section Trimming

variable {text blanks : List Char}

theorem isBlank_of_isDigit {c : Char} (h : isDigit c = true) : isBlank c = false := by
  have hrange : 48 ≤ c.toNat ∧ c.toNat ≤ 57 := by
    simpa [isDigit, Char.le_def, UInt32.le_iff_toNat_le] using h
  simp only [isBlank, Bool.or_eq_false_iff, Bool.and_eq_false_iff, decide_eq_false_iff_not,
    beq_eq_false_iff_ne]
  omega

theorem isBlank_of_mem_blanks (count : Nat) : ∀ c ∈ List.replicate count ' ', isBlank c = true := by
  intro c hc
  rw [List.eq_of_mem_replicate hc]
  rfl

theorem dropEndWhile_run {α : Type} {p : α → Bool} {run : List α} (xs : List α)
    (h : ∀ x ∈ run, p x = true) : dropEndWhile p (xs ++ run) = dropEndWhile p xs := by
  have hreverse : ∀ x ∈ run.reverse, p x = true := fun x hx => h x (List.mem_reverse.1 hx)
  rw [dropEndWhile, List.reverse_append, List.dropWhile_append_of_pos hreverse]
  rfl

theorem trim_of_blank (h : ∀ c ∈ blanks, isBlank c = true) : trim blanks = [] := by
  have hdrop : blanks.dropWhile isBlank = [] := List.dropWhile_eq_nil_iff.2 h
  rw [trim, hdrop]
  rfl

theorem trim_append_blank (text : List Char) {c : Char} (hc : isBlank c = true) :
    trim (text ++ [c]) = trim text := by
  by_cases hall : ∀ d ∈ text, isBlank d = true
  · rw [trim_of_blank hall, trim_of_blank]
    intro d hd
    rcases List.mem_append.1 hd with hd | hd
    · exact hall d hd
    · rw [List.mem_singleton.1 hd]
      exact hc
  · have hsome : text.dropWhile isBlank ≠ [] := fun hnil => hall (List.dropWhile_eq_nil_iff.1 hnil)
    have hdrop : (text ++ [c]).dropWhile isBlank = text.dropWhile isBlank ++ [c] := by
      rw [List.dropWhile_append, if_neg (by simpa using hsome)]
    rw [trim, hdrop, dropEndWhile, List.reverse_append]
    simp [hc, trim, dropEndWhile]

theorem trim_blanks_append (h : ∀ c ∈ blanks, isBlank c = true) (text : List Char) :
    trim (blanks ++ text) = trim text := by
  rw [trim, List.dropWhile_append_of_pos h]
  rfl

theorem trim_append_blanks (text : List Char) (h : ∀ c ∈ blanks, isBlank c = true) :
    trim (text ++ blanks) = trim text := by
  induction blanks using List.reverseRecOn with
  | nil => rw [List.append_nil]
  | append_singleton blanks c ih =>
    rw [List.forall_mem_append] at h
    rw [← List.append_assoc, trim_append_blank _ (h.2 c (List.mem_singleton_self c)), ih h.1]

theorem dropEndWhile_stop {p : Char → Bool} (h : StopsAt p text.reverse) :
    dropEndWhile p text = text := by
  rw [dropEndWhile, dropWhile_stop h, List.reverse_reverse]

/-- What neither begins nor ends with a blank is left as it is. -/
theorem trim_bare (hbegins : StopsAt isBlank text) (hends : StopsAt isBlank text.reverse) :
    trim text = text := by
  rw [trim, dropWhile_stop hbegins, dropEndWhile_stop hends]

theorem trim_of_notBlank (h : ∀ c ∈ text, isBlank c = false) : trim text = text := by
  apply trim_bare
  · exact fun c hc => h c (List.mem_of_mem_head? hc)
  · exact fun c hc => h c (List.mem_reverse.1 (List.mem_of_mem_head? hc))

end Trimming

end BuildProgress.Text
