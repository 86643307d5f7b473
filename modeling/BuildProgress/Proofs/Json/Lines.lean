import BuildProgress.Proofs.Json.Plain

/-!
# Records with one member a line

A record that is written with one member a line is read back: the reader skips the blanks between the
parts, and the values are compact texts.
-/

namespace BuildProgress.Json

set_option autoImplicit false

open BuildProgress.Text

section Gaps

variable {gaps : List Char}

theorem skipGaps_append (h : gaps.all isGap = true) (text : List Char) :
    skipGaps (gaps ++ text) = skipGaps text :=
  List.dropWhile_append_of_pos (List.all_eq_true.1 h)

/-- Blanks before a value do not matter. -/
theorem valueFrom_gaps (h : gaps.all isGap = true) (fuel : Nat) (text : List Char) :
    valueFrom fuel (gaps ++ text) = valueFrom fuel text := by
  cases fuel with
  | zero => simp [valueFrom]
  | succ fuel => rw [valueFrom, valueFrom, skipGaps_append h]

end Gaps

section Members

/-- The members of a record, each on a line of its own and all but the last with a comma behind it. -/
def lineMembers : List (String × Json) → List Char
  | [] => []
  | [(key, value)] => memberLine key value
  | (key, value) :: members => memberLine key value ++ ',' :: lineMembers members

theorem writeLines_eq {members : List (String × Json)} (h : members ≠ []) :
    writeLines members = '{' :: (lineMembers members ++ ['\n', '}']) := by
  cases members with
  | nil => exact absurd rfl h
  | cons member members =>
    obtain ⟨key, value⟩ := member
    rw [writeLines, List.cons_append, List.cons_append]
    congr 2
    induction members generalizing key value with
    | nil => simp [lineMembers]
    | cons member members ih =>
      obtain ⟨next, other⟩ := member
      have hmore := ih next other (by simp)
      rw [List.flatMap_cons, lineMembers, ← hmore]
      · simp
      · simp

theorem lineMembers_begins {members : List (String × Json)} (h : members ≠ []) :
    ∃ text, lineMembers members = '\n' :: ' ' :: ' ' :: '"' :: text := by
  match members, h with
  | [_], _ => exact ⟨_, rfl⟩
  | _ :: _ :: _, _ => exact ⟨_, rfl⟩

/-- The text of a member after its opening quote. -/
theorem skipGaps_memberLine (key : String) (value : Json) (rest : List Char) :
    skipGaps (memberLine key value ++ rest) =
      '"' :: (key.toList.flatMap escapedChar ++ '"' :: ':' :: ([' '] ++ (write value ++ rest))) := by
  have hline : memberLine key value ++ rest = ['\n', ' ', ' '] ++
      '"' :: (key.toList.flatMap escapedChar ++ '"' :: ':' :: ([' '] ++ (write value ++ rest))) := by
    simp [memberLine, writeText]
  rw [hline, skipGaps_append rfl, skipGaps_cons rfl]

theorem valueFrom_afterKey (fuel : Nat) (rest : List Char) {value : Json} (hvalue : value.Plain)
    (hfuel : 2 * (write value).length ≤ fuel) (hrest : StopsAt continuesNumber rest) :
    valueFrom fuel ([' '] ++ (write value ++ rest)) = some (value, rest) := by
  rw [valueFrom_gaps rfl]
  exact hvalue.compact.valueFrom fuel rest hfuel hrest

theorem membersFrom_close (key : String) {value : Json} (hvalue : value.Plain) {fuel : Nat}
    (hfuel : 2 * (write value).length ≤ fuel) (rest : List Char) :
    membersFrom (fuel + 1) (memberLine key value ++ '\n' :: '}' :: rest) =
      some ([(some key, value)], rest) := by
  have hread := valueFrom_afterKey fuel ('\n' :: '}' :: rest) hvalue hfuel (stopsAt_cons.2 rfl)
  rw [List.singleton_append] at hread
  have hclose : skipGaps ('\n' :: '}' :: rest) = '}' :: rest := rfl
  rw [membersFrom, skipGaps_memberLine]
  simp [stringBody_writeText, skipGaps_cons (c := ':') rfl, hread, hclose]

theorem membersFrom_comma (key : String) {value : Json} (hvalue : value.Plain) {fuel : Nat}
    (hfuel : 2 * (write value).length ≤ fuel) {more rest : List Char}
    {members : List (Option String × Json)} (hmore : membersFrom fuel more = some (members, rest)) :
    membersFrom (fuel + 1) (memberLine key value ++ ',' :: more) =
      some ((some key, value) :: members, rest) := by
  have hread := valueFrom_afterKey fuel (',' :: more) hvalue hfuel (stopsAt_cons.2 rfl)
  rw [List.singleton_append] at hread
  rw [membersFrom, skipGaps_memberLine]
  simp [stringBody_writeText, skipGaps_cons (c := ':') rfl, hread, skipGaps_cons (c := ',') rfl, hmore]

theorem membersFrom_lineMembers (fuel : Nat) (rest : List Char) {members : List (String × Json)}
    (hplain : ∀ member ∈ members, member.2.Plain) (hsome : members ≠ [])
    (hfuel : 2 * (lineMembers members).length + 1 ≤ fuel) :
    membersFrom fuel (lineMembers members ++ '\n' :: '}' :: rest) =
      some (members.map fun (key, value) => (some key, value), rest) := by
  obtain ⟨fuel, rfl⟩ : ∃ n, fuel = n + 1 := ⟨fuel - 1, by omega⟩
  induction members generalizing fuel with
  | nil => exact absurd rfl hsome
  | cons member members ih =>
    obtain ⟨key, value⟩ := member
    have hvalue : value.Plain := hplain _ List.mem_cons_self
    have hmembers := (List.forall_mem_cons.1 hplain).2
    have hlength : (memberLine key value).length =
        3 + (writeText key).length + 2 + (write value).length := by
      simp [memberLine]
      omega
    cases members with
    | nil =>
      rw [lineMembers] at hfuel ⊢
      exact membersFrom_close key hvalue (by omega) rest
    | cons next members =>
      rw [lineMembers, List.length_append, List.length_cons] at hfuel
      · obtain ⟨fuel, rfl⟩ : ∃ n, fuel = n + 1 := ⟨fuel - 1, by omega⟩
        have hmore := ih hmembers (by simp) fuel (by omega)
        rw [lineMembers, List.append_assoc, List.cons_append]
        · exact membersFrom_comma key hvalue (by omega) hmore
        · simp
      · simp

/-- A record is read back from its lines. -/
theorem read?_writeLines {members : List (String × Json)}
    (hplain : ∀ member ∈ members, member.2.Plain) (hsome : members ≠ []) :
    read? (writeLines members) = some (ofMembers members) := by
  obtain ⟨text, htext⟩ := lineMembers_begins hsome
  have hmembers := membersFrom_lineMembers (2 * (writeLines members).length + 1) [] hplain hsome (by
      rw [writeLines_eq hsome]
      simp
      omega)
  have hclose : ∀ rest, skipGaps (lineMembers members ++ rest) = '"' :: (text ++ rest) := by
    intro rest
    have hgaps : ['\n', ' ', ' '].all isGap = true := rfl
    rw [htext]
    exact skipGaps_append hgaps _
  have hvalue : valueFrom (2 * (writeLines members).length + 2) (writeLines members) =
      some (ofMembers members, []) := by
    rw [valueFrom, writeLines_eq hsome, skipGaps_cons rfl]
    rw [writeLines_eq hsome] at hmembers
    simp only [hclose, hmembers]
    rfl
  rw [read?, hvalue]
  rfl

end Members

end BuildProgress.Json
