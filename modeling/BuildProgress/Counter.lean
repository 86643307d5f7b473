/-!
# Counters

A counter for each of several labels. A label that was never counted has no entry.
-/

namespace BuildProgress

set_option autoImplicit false

/-- Labels with how often each was counted, in the order of their first count. -/
abbrev Counter (κ : Type) := List (κ × Nat)

namespace Counter

variable {κ : Type} [DecidableEq κ]

def bump (label : κ) : Counter κ → Counter κ
  | [] => [(label, 1)]
  | (k, n) :: rest => if k = label then (k, n + 1) :: rest else (k, n) :: bump label rest

def total (c : Counter κ) : Nat :=
  c.foldr (fun entry sum => entry.2 + sum) 0

def count (label : κ) (c : Counter κ) : Nat :=
  ((c.find? (·.1 = label)).map (·.2)).getD 0

theorem total_bump (label : κ) (c : Counter κ) : (c.bump label).total = c.total + 1 := by
  induction c with
  | nil => rfl
  | cons entry rest ih =>
    obtain ⟨k, n⟩ := entry
    unfold bump
    split
    · simp only [total, List.foldr_cons]
      omega
    · simp only [total, List.foldr_cons] at ih ⊢
      omega

end Counter

end BuildProgress
