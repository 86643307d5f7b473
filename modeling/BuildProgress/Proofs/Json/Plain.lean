import BuildProgress.Json.Record
import BuildProgress.Proofs.Json.Compact
import Mathlib.Data.List.Nodup

/-!
# Plain values

A value is plain if all its strings are text, all its numbers are integers of 64 bits, with or without
a sign, and no object in it has a key twice. A plain value has one compact text, which is the one that
is written, and it is kept as it is, provided that it is not nested too deep.
-/

namespace BuildProgress.Json

set_option autoImplicit false

open BuildProgress.Text

def Number.Plain : Number → Prop
  | .integer n => -(Nat.pow 2 63 : Int) ≤ n ∧ n < (Nat.pow 2 64 : Int)
  | .decimal _ _ _ _ => False

mutual

def Plain : Json → Prop
  | .null | .bool _ => True
  | .number n => n.Plain
  | .string text => text.isSome = true
  | .array items => PlainItems items
  | .object members => PlainMembers members ∧ (members.map (·.1)).Nodup

def PlainItems : List Json → Prop
  | [] => True
  | item :: rest => Plain item ∧ PlainItems rest

def PlainMembers : List (Option String × Json) → Prop
  | [] => True
  | (key, value) :: rest => key.isSome = true ∧ Plain value ∧ PlainMembers rest

end

mutual

/-- How deep arrays and objects are nested in a value. -/
def depth : Json → Nat
  | .array items => depthOfItems items + 1
  | .object members => depthOfMembers members + 1
  | _ => 0

def depthOfItems : List Json → Nat
  | [] => 0
  | item :: rest => max (depth item) (depthOfItems rest)

def depthOfMembers : List (Option String × Json) → Nat
  | [] => 0
  | (_, value) :: rest => max (depth value) (depthOfMembers rest)

end

section Writing

mutual

theorem Plain.compact : ∀ {j : Json}, j.Plain → Compact j (write j)
  | .null, _ => .null
  | .bool true, _ => .boolTrue
  | .bool false, _ => .boolFalse
  | .number (.integer n), _ => .number (.integer n)
  | .string (some text), _ => .string text
  | .array [], _ => .emptyArray
  | .array (_ :: _), h => .array (PlainItems.compact (by simp) h)
  | .object [], _ => .emptyObject
  | .object (_ :: _), h => .object (PlainMembers.compact (by simp) h.1)

theorem PlainItems.compact : ∀ {items : List Json}, items ≠ [] → PlainItems items →
    CompactItems items (writeItems items)
  | [_], _, h => .last h.1.compact
  | _ :: _ :: _, _, h => .cons h.1.compact (PlainItems.compact (by simp) h.2)

theorem PlainMembers.compact : ∀ {members : List (Option String × Json)}, members ≠ [] →
    PlainMembers members → CompactMembers members (writeMembers members)
  | [(some _, _)], _, h => .last h.2.1.compact
  | (some key, value) :: second :: rest, _, h => by
    have hrest : CompactMembers (second :: rest) (writeMembers (second :: rest)) :=
      PlainMembers.compact (by simp) h.2.2
    have hcons : CompactMembers ((some key, value) :: second :: rest) _ := .cons h.2.1.compact hrest
    simpa [writeMembers, writeString] using hcons

end

end Writing

section Keeping

theorem lastOfEach_nodup {α : Type} {members : List (String × α)} (h : (members.map (·.1)).Nodup) :
    lastOfEach members = members := by
  induction members with
  | nil => rfl
  | cons member rest ih =>
    obtain ⟨key, value⟩ := member
    rw [List.map_cons, List.nodup_cons] at h
    have hnew : rest.any (·.1 == key) = false := by
      rw [List.any_eq_false]
      intro other hother heq
      exact h.1 (List.mem_map.2 ⟨other, hother, by simpa using heq⟩)
    rw [lastOfEach, hnew, ih h.2]
    rfl

theorem Number.Plain.keep? {n : Number} (h : n.Plain) : n.keep? = some n := by
  cases n with
  | decimal => exact h.elim
  | integer n =>
    have hrange : (isSigned64 n || (0 ≤ n && n.toNat ≤ maxUnsigned)) = true := by
      simp only [Number.Plain, Nat.pow_eq, Nat.reducePow] at h
      simp [isSigned64, maxUnsigned]
      omega
    rw [Number.keep?, if_pos hrange]

mutual

theorem Plain.keep? : ∀ {j : Json} {levels : Nat}, j.Plain → j.depth ≤ levels →
    Json.keep? levels j = some j
  | .null, _, _, _ => by simp [Json.keep?]
  | .bool _, _, _, _ => by simp [Json.keep?]
  | .number n, _, h, _ => by simp [Json.keep?, Number.Plain.keep? h]
  | .string (some text), _, _, _ => by simp [Json.keep?, ofString]
  | .array items, 0, _, hdepth => by simp [depth] at hdepth
  | .array items, levels + 1, h, hdepth => by
    have hlevels : depthOfItems items ≤ levels := by simpa [depth] using hdepth
    have hitems := PlainItems.keepItems h hlevels
    simp [Json.keep?, hitems]
  | .object members, 0, _, hdepth => by simp [depth] at hdepth
  | .object members, levels + 1, h, hdepth => by
    have hlevels : depthOfMembers members ≤ levels := by simpa [depth] using hdepth
    obtain ⟨kept, hkept, rfl⟩ := PlainMembers.keepMembers h.1 hlevels
    have hnodup : (kept.map (·.1)).Nodup := by
      have hkeys := h.2
      rw [List.map_map] at hkeys
      exact List.Nodup.of_map some (by rwa [List.map_map])
    simp [Json.keep?, hkept, lastOfEach_nodup hnodup, ofMembers]

theorem PlainItems.keepItems : ∀ {items : List Json} {levels : Nat}, PlainItems items →
    depthOfItems items ≤ levels → Json.keepItems levels items = some items
  | [], _, _, _ => by simp [Json.keepItems]
  | item :: rest, levels, h, hdepth => by
    obtain ⟨hitem, hrest⟩ := Nat.max_le.1 hdepth
    simp [Json.keepItems, h.1.keep? hitem, PlainItems.keepItems h.2 hrest]

theorem PlainMembers.keepMembers : ∀ {members : List (Option String × Json)} {levels : Nat},
    PlainMembers members → depthOfMembers members ≤ levels →
    ∃ kept, Json.keepMembers levels members = some kept ∧
      kept.map (fun (key, value) => (some key, value)) = members
  | [], _, _, _ => ⟨[], by simp [Json.keepMembers], rfl⟩
  | (some key, value) :: rest, levels, h, hdepth => by
    obtain ⟨hvalue, hrest⟩ := Nat.max_le.1 hdepth
    obtain ⟨kept, hkept, hmembers⟩ := PlainMembers.keepMembers h.2.2 hrest
    refine ⟨(key, value) :: kept, ?_, ?_⟩
    · simp [Json.keepMembers, h.2.1.keep? hvalue, hkept]
    · rw [List.map_cons, hmembers]

end

end Keeping

end BuildProgress.Json
