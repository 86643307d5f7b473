import BuildProgress.Proofs.Text.Utf8
import Mathlib.Tactic.SplitIfs

/-!
# ASCII bytes in UTF-8

A byte below 0x80 is never a part of a longer sequence: it is written for its own character only, and
where it is read it stands for that character whatever stands before it.
-/

namespace BuildProgress.Utf8

set_option autoImplicit false

section Writing

theorem toNat_of_mem_encodeChar {c : Char} {byte : UInt8} (h : byte ∈ String.utf8EncodeChar c)
    (hascii : byte.toNat < 0x80) : byte.toNat = c.toNat := by
  have hc : c.toNat = c.val.toNat := rfl
  have hlong : ∀ k, 0x80 ≤ k → k < 0x100 → byte ≠ UInt8.ofNat k := by
    rintro k hlow hhigh rfl
    rw [toNat_ofNat hhigh] at hascii
    omega
  unfold String.utf8EncodeChar at h
  dsimp only at h
  split at h
  · rw [List.mem_singleton.1 h, UInt8.toNat_ofNat', hc]
    omega
  · exfalso
    split_ifs at h <;> simp only [List.mem_cons, List.not_mem_nil, or_false] at h
    · rcases h with h | h <;> exact hlong _ (by omega) (by omega) h
    · rcases h with h | h | h <;> exact hlong _ (by omega) (by omega) h
    · rcases h with h | h | h | h <;> exact hlong _ (by omega) (by omega) h

theorem notMem_encode {text : List Char} {c : Char} {byte : UInt8} (h : c ∉ text)
    (hbyte : byte.toNat = c.toNat) (hascii : byte.toNat < 0x80) : byte ∉ encode text := by
  intro hmem
  obtain ⟨d, hd, hmem⟩ := List.mem_flatMap.1 hmem
  have hvalue := toNat_of_mem_encodeChar hmem hascii
  have hsame : d = c := Char.toNat_inj.1 (by omega)
  exact h (hsame ▸ hd)

end Writing

section Reading

/-- The bytes that may follow are no ASCII bytes. -/
def Pending.Wide (p : Pending) : Prop :=
  ∀ range ∈ p.next :: p.later, 0x80 ≤ range.1

theorem lead?_wide {byte value : Nat} {ranges : List (Nat × Nat)}
    (h : lead? byte = some (value, ranges)) : ∀ range ∈ ranges, 0x80 ≤ range.1 := by
  unfold lead? at h
  split_ifs at h
  all_goals
    simp only [Option.some.injEq, Prod.mk.injEq] at h
    rw [← h.2]
    decide

theorem advance_wide {value : Nat} {ranges : List (Nat × Nat)}
    (h : ∀ range ∈ ranges, 0x80 ≤ range.1) : ∀ p ∈ (advance value ranges).2, p.Wide := by
  cases ranges with
  | nil => simp [advance]
  | cons next later => simpa [advance, Pending.Wide] using h

theorem start_wide (byte : Nat) : ∀ p ∈ (start byte).2, p.Wide := by
  unfold start
  split
  · simp
  · rename_i hlead
    exact advance_wide (lead?_wide hlead)

theorem step_wide {pending : Option Pending} (h : ∀ p ∈ pending, p.Wide) (byte : Nat) :
    ∀ p ∈ (step pending byte).2, p.Wide := by
  cases pending with
  | none => exact start_wide byte
  | some p =>
    unfold step
    dsimp only
    split_ifs
    · exact advance_wide fun range hrange => h p rfl range (List.mem_cons_of_mem _ hrange)
    · exact start_wide byte

theorem start_ascii {byte : Nat} (h : byte < 0x80) : start byte = ([some (Char.ofNat byte)], none) := by
  rw [start, lead?_one (by omega)]
  rfl

theorem piecesFrom_append_ascii {byte : UInt8} (hascii : byte.toNat < 0x80) (bytes : List UInt8) :
    ∀ {pending : Option Pending}, (∀ p ∈ pending, p.Wide) →
    piecesFrom pending (bytes ++ [byte]) =
      piecesFrom pending bytes ++ [some (Char.ofNat byte.toNat)] := by
  induction bytes with
  | nil =>
    intro pending hwide
    cases pending with
    | none => simp [piecesFrom, step, start_ascii hascii]
    | some p =>
      have hlow : ¬ p.next.1 ≤ byte.toNat := by
        have := hwide p rfl p.next List.mem_cons_self
        omega
      simp [piecesFrom, step, start_ascii hascii, hlow]
  | cons b bytes ih =>
    intro pending hwide
    simp only [List.cons_append, piecesFrom, ih (step_wide hwide b.toNat), List.append_assoc]

theorem decode?_append_ascii (bytes : List UInt8) {byte : UInt8} (hascii : byte.toNat < 0x80) :
    decode? (bytes ++ [byte]) = (decode? bytes).map (· ++ [Char.ofNat byte.toNat]) := by
  rw [decode?, pieces, piecesFrom_append_ascii hascii bytes (by simp), List.mapM_append, decode?,
    pieces]
  cases (piecesFrom none bytes).mapM id <;> rfl

end Reading

end BuildProgress.Utf8
