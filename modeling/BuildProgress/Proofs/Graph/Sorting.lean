import BuildProgress.Proofs.Graph.Display

/-!
# Stable sorting

Sorting by a key moves an item past another only if its key is smaller. So items with equal keys keep
their order, and what is sorted may be looked at item by item: sorting and then selecting is selecting
and then sorting.
-/

namespace BuildProgress

set_option autoImplicit false

variable {α β : Type} {key : α → Nat} {R : α → α → Prop}

/-- One item comes before another: by its key or, where the keys are equal, because it came first. -/
def Stably (key : α → Nat) (R : α → α → Prop) (x y : α) : Prop :=
  key x < key y ∨ (key x = key y ∧ R x y)

theorem Stably.key_le {x y : α} (h : Stably key R x y) : key x ≤ key y := by
  rcases h with hlt | ⟨heq, _⟩
  · exact Nat.le_of_lt hlt
  · exact Nat.le_of_eq heq

theorem insertBy_of_le {x : α} {xs : List α} (h : ∀ y ∈ xs, key x ≤ key y) :
    insertBy key x xs = x :: xs := by
  cases xs with
  | nil => rfl
  | cons y ys => rw [insertBy, if_pos (h y List.mem_cons_self)]

theorem insertBy_stable {x : α} {xs : List α} (hx : ∀ y ∈ xs, R x y)
    (h : xs.Pairwise (Stably key R)) : (insertBy key x xs).Pairwise (Stably key R) := by
  induction xs with
  | nil => exact List.pairwise_singleton _ _
  | cons y ys ih =>
    obtain ⟨hy, hys⟩ := List.pairwise_cons.mp h
    rw [insertBy]
    split
    · rename_i hle
      refine List.pairwise_cons.mpr ⟨?_, h⟩
      intro z hz
      have hkey : key x ≤ key z := by
        rcases List.mem_cons.mp hz with rfl | hz
        · exact hle
        · exact Nat.le_trans hle (hy z hz).key_le
      rcases Nat.lt_or_eq_of_le hkey with hlt | heq
      · exact Or.inl hlt
      · exact Or.inr ⟨heq, hx z hz⟩
    · rename_i hnot
      refine List.pairwise_cons.mpr ⟨?_, ih (fun z hz => hx z (List.mem_cons_of_mem y hz)) hys⟩
      intro z hz
      rcases List.mem_cons.mp ((insertBy_perm key x ys).mem_iff.mp hz) with rfl | hz
      · exact Or.inl (Nat.not_le.mp hnot)
      · exact hy z hz

theorem sortBy_stable {xs : List α} (h : xs.Pairwise R) :
    (sortBy key xs).Pairwise (Stably key R) := by
  induction xs with
  | nil => exact List.Pairwise.nil
  | cons x xs ih =>
    obtain ⟨hx, hxs⟩ := List.pairwise_cons.mp h
    exact insertBy_stable (fun y hy => hx y ((sortBy_perm key xs).mem_iff.mp hy)) (ih hxs)

theorem sortBy_sorted (key : α → Nat) (xs : List α) :
    (sortBy key xs).Pairwise fun x y => key x ≤ key y := by
  have hany : xs.Pairwise fun _ _ => True := List.pairwise_of_forall fun _ _ => trivial
  exact (sortBy_stable hany).imp Stably.key_le

theorem sortBy_of_sorted {xs : List α} (h : xs.Pairwise fun x y => key x ≤ key y) :
    sortBy key xs = xs := by
  induction xs with
  | nil => rfl
  | cons x xs ih =>
    obtain ⟨hx, hxs⟩ := List.pairwise_cons.mp h
    have hcons : sortBy key (x :: xs) = insertBy key x (sortBy key xs) := rfl
    rw [hcons, ih hxs, insertBy_of_le hx]

theorem filter_insertBy (p : α → Bool) (x : α) {xs : List α}
    (h : xs.Pairwise fun x y => key x ≤ key y) : (insertBy key x xs).filter p =
      if p x then insertBy key x (xs.filter p) else xs.filter p := by
  induction xs with
  | nil => cases hx : p x <;> simp [insertBy, hx]
  | cons y ys ih =>
    obtain ⟨hy, hys⟩ := List.pairwise_cons.mp h
    by_cases hle : key x ≤ key y
    · have hall : ∀ z ∈ (y :: ys).filter p, key x ≤ key z := by
        intro z hz
        rcases List.mem_cons.mp (List.mem_of_mem_filter hz) with rfl | hz
        · exact hle
        · exact Nat.le_trans hle (hy z hz)
      rw [insertBy, if_pos hle, insertBy_of_le hall, List.filter_cons]
    · rw [insertBy, if_neg hle, List.filter_cons, List.filter_cons, ih hys]
      cases hpx : p x <;> cases hpy : p y <;> simp [insertBy, hle]

/-- What is selected of a sorted list is the selection, sorted. -/
theorem filter_sortBy (p : α → Bool) (key : α → Nat) (xs : List α) :
    (sortBy key xs).filter p = sortBy key (xs.filter p) := by
  induction xs with
  | nil => rfl
  | cons x xs ih =>
    have hcons : sortBy key (x :: xs) = insertBy key x (sortBy key xs) := rfl
    rw [hcons, filter_insertBy p x (sortBy_sorted key xs), ih, List.filter_cons]
    split <;> rfl

/-- Items with one key are not moved. -/
theorem filter_sortBy_of_key {p : α → Bool} {k : Nat} (hp : ∀ x, p x = true → key x = k)
    (xs : List α) : (sortBy key xs).filter p = xs.filter p := by
  rw [filter_sortBy]
  apply sortBy_of_sorted
  apply List.pairwise_of_forall_mem_list
  intro x hx y hy
  exact Nat.le_of_eq ((hp x (List.mem_filter.mp hx).2).trans (hp y (List.mem_filter.mp hy).2).symm)

/-- A list is known by what kind of item stands where, and by the items of each kind. -/
theorem eq_of_kinds [BEq β] [LawfulBEq β] {kind : α → β} {xs ys : List α}
    (hmap : xs.map kind = ys.map kind)
    (hfilter : ∀ k, xs.filter (kind · == k) = ys.filter (kind · == k)) : xs = ys := by
  induction xs generalizing ys with
  | nil => exact (List.map_eq_nil_iff.mp hmap.symm).symm
  | cons x xs ih =>
    cases ys with
    | nil => cases hmap
    | cons y ys =>
      obtain ⟨hkind, hrest⟩ := List.cons.inj hmap
      have hhead := hfilter (kind y)
      rw [List.filter_cons_of_pos (by simp [hkind]), List.filter_cons_of_pos (by simp)] at hhead
      obtain ⟨rfl, _⟩ := List.cons.inj hhead
      congr 1
      apply ih hrest
      intro k
      have hk := hfilter k
      rw [List.filter_cons, List.filter_cons] at hk
      split at hk
      · exact (List.cons.inj hk).2
      · exact hk

end BuildProgress
