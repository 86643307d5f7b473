import BuildProgress.Proofs.Text.Digits
import BuildProgress.SocketAddress

/-!
# Socket addresses are read back

An address is read back from its text, in whichever of its forms an address of version 6 is written:
with all groups, with the longest run of zero groups left out, or with an address of version 4 in it.
-/

namespace BuildProgress.SocketAddress

set_option autoImplicit false

open BuildProgress.Text

/-- The parts of an address are as wide as they may be. -/
def WellFormed : SocketAddress → Prop
  | .v4 a b c d service => (a < 256 ∧ b < 256 ∧ c < 256 ∧ d < 256) ∧ service < 65536
  | .v6 groups scope service =>
    (groups.length = 8 ∧ ∀ group ∈ groups, group < 65536) ∧ scope < Nat.pow 2 32 ∧ service < 65536

section Numbers

variable {base : Nat} {rest : List Char}

/-- Whether a character is a digit of a base. -/
def isDigitIn (base : Nat) (c : Char) : Bool :=
  (digitIn? base c).isSome

theorem digitIn?_digitChar {k : Nat} (hk : k < base) (hbase : base ≤ 16) :
    digitIn? base (Nat.digitChar k) = some k := by
  have hall : ∀ k < 16, hexDigit? (Nat.digitChar k) = some k := by decide
  simp [digitIn?, hall k (by omega), hk]

theorem isDigitIn_of_mem {n : Nat} {c : Char} (hlow : 1 < base) (hbase : base ≤ 16)
    (h : c ∈ Nat.toDigits base n) : isDigitIn base c = true := by
  induction n using Nat.strongRecOn with
  | ind n ih =>
    rw [Nat.toDigits_eq_if hlow] at h
    split at h
    · rename_i hn
      rw [List.mem_singleton.1 h, isDigitIn, digitIn?_digitChar hn hbase]
      rfl
    · rcases List.mem_append.1 h with h | h
      · exact ih _ (Nat.div_lt_self (by omega) hlow) h
      · rw [List.mem_singleton.1 h, isDigitIn, digitIn?_digitChar (Nat.mod_lt n (by omega)) hbase]
        rfl

theorem valueIn_append (digits : List Char) (c : Char) :
    valueIn base (digits ++ [c]) = valueIn base digits * base + (digitIn? base c).getD 0 := by
  simp [valueIn]

theorem valueIn_toDigits (hlow : 1 < base) (hbase : base ≤ 16) (n : Nat) :
    valueIn base (Nat.toDigits base n) = n := by
  induction n using Nat.strongRecOn with
  | ind n ih =>
    rw [Nat.toDigits_eq_if hlow]
    split
    · rename_i hn
      simp [valueIn, digitIn?_digitChar hn hbase]
    · have hfewer : n / base < n := Nat.div_lt_self (by omega) hlow
      rw [valueIn_append, ih _ hfewer, digitIn?_digitChar (Nat.mod_lt n (by omega)) hbase]
      exact Nat.div_add_mod' n base

/-- A number is read as far as its digits go. -/
theorem readNumber_toDigits {limit n : Nat} {allowed : List Char → Bool} (hlow : 1 < base)
    (hbase : base ≤ 16) (hn : n ≤ limit) (hallowed : allowed (Nat.toDigits base n) = true)
    (hrest : StopsAt (isDigitIn base) rest) :
    readNumber base limit allowed (Nat.toDigits base n ++ rest) = some (n, rest) := by
  have hdigits : (Nat.toDigits base n ++ rest).takeWhile (isDigitIn base) = Nat.toDigits base n :=
    takeWhile_run (fun c => isDigitIn_of_mem hlow hbase) hrest
  unfold isDigitIn at hdigits
  simp [readNumber, hdigits, valueIn_toDigits hlow hbase, hallowed, hn]

end Numbers

section VersionFour

variable {rest : List Char}

theorem not_isDigitIn {c : Char} {base : Nat} (h : hexDigit? c = none) : isDigitIn base c = false := by
  simp [isDigitIn, digitIn?, h]

theorem readByte_decimal {n : Nat} (hn : n < 256) (hrest : StopsAt (isDigitIn 10) rest) :
    readByte (decimal n ++ rest) = some (n, rest) := by
  refine readNumber_toDigits (by omega) (by omega) (by omega) ?_ hrest
  have hlength : (Nat.toDigits 10 n).length ≤ 3 :=
    length_decimal_le (by omega) (show n < 1000 by omega)
  by_cases hhead : (Nat.toDigits 10 n).head? = some '0'
  · rw [head?_toDigits (by omega) hhead]
    rfl
  · simp [hlength, hhead]

theorem readV4_writeV4 {a b c d : Nat} (ha : a < 256) (hb : b < 256) (hc : c < 256) (hd : d < 256)
    (hrest : StopsAt (isDigitIn 10) rest) :
    readV4 (writeV4 a b c d ++ rest) = some ((a, b, c, d), rest) := by
  have hpoint : ∀ text : List Char, StopsAt (isDigitIn 10) ('.' :: text) := fun text =>
    stopsAt_cons.2 (not_isDigitIn rfl)
  simp [readV4, writeV4, readByte_decimal ha (hpoint _), readByte_decimal hb (hpoint _),
    readByte_decimal hc (hpoint _), readByte_decimal hd hrest, readChar]

theorem readService_decimal {service : Nat} (hservice : service < 65536) :
    readService (':' :: decimal service) = some (service, []) := by
  have hread : readNumber 10 65535 (fun _ => true) (decimal service ++ []) = some (service, []) :=
    readNumber_toDigits (by omega) (by omega) (by omega) rfl (stopsAt_nil _)
  rw [List.append_nil] at hread
  simpa [readService, readChar] using hread

theorem readSocketV4_write {a b c d service : Nat}
    (h : WellFormed (.v4 a b c d service)) :
    readSocketV4 (write (.v4 a b c d service)) = some (.v4 a b c d service, []) := by
  obtain ⟨⟨ha, hb, hc, hd⟩, hservice⟩ := h
  have hstops : StopsAt (isDigitIn 10) (':' :: decimal service) := stopsAt_cons.2 (not_isDigitIn rfl)
  have hread := readV4_writeV4 ha hb hc hd hstops
  simp [readSocketV4, write, hread, readService_decimal hservice]

end VersionFour

section Groups

variable {rest : List Char} {room : Nat}

/-- What stands behind groups: the end of the address, its scope, or a gap in the groups. -/
inductive GroupsEnd : List Char → Prop where
  | closed (rest : List Char) : GroupsEnd (']' :: rest)
  | scope (rest : List Char) : GroupsEnd ('%' :: rest)
  | gap (rest : List Char) : GroupsEnd (':' :: ':' :: rest)

/-- No digit and no point follows. -/
def EndsGroup (rest : List Char) : Prop :=
  StopsAt (fun c => isDigitIn 16 c || c == '.') rest

theorem GroupsEnd.endsGroup (h : GroupsEnd rest) : EndsGroup rest := by
  cases h with
  | closed | scope | gap => exact stopsAt_cons.2 rfl

theorem EndsGroup.stops (h : EndsGroup rest) : StopsAt (isDigitIn 16) rest :=
  h.mono fun c hc => by simp [hc]

theorem isDigitIn_sixteen {c : Char} (h : isDigitIn 10 c = true) : isDigitIn 16 c = true := by
  rw [isDigitIn, digitIn?, Option.isSome_filter] at h ⊢
  revert h
  cases hexDigit? c with
  | none => simp
  | some k => simp; omega

theorem readGroup_hexadecimal {group : Nat} (hgroup : group < 65536) (hrest : EndsGroup rest) :
    readGroup (hexadecimal group ++ rest) = some (group, rest) := by
  refine readNumber_toDigits (by omega) (by omega) (by omega) ?_ hrest.stops
  have hlength : (Nat.toDigits 16 group).length ≤ 4 :=
    (Nat.length_toDigits_le_iff (by omega) (by omega)).2 (by omega)
  simpa using hlength

theorem readNumber_rest {base limit value : Nat} {allowed : List Char → Bool} {text after : List Char}
    (h : readNumber base limit allowed text = some (value, after)) :
    after = text.dropWhile (isDigitIn base) := by
  rw [readNumber] at h
  split_ifs at h
  cases h
  exact (congrArg (List.drop _) List.takeWhile_append_dropWhile.symm).trans List.drop_left

/-- A group is no part of an address of version 4: no point follows its digits. -/
theorem readV4_group {digits : List Char} (hdigits : ∀ c ∈ digits, isDigitIn 16 c = true)
    (hrest : EndsGroup rest) : readV4 (digits ++ rest) = none := by
  have hafter : ∀ c ∈ ((digits ++ rest).dropWhile (isDigitIn 10)).head?, c ≠ '.' := by
    induction digits with
    | nil =>
      rw [List.nil_append, dropWhile_stop (hrest.stops.mono fun c => isDigitIn_sixteen)]
      rintro c hc rfl
      cases hrest '.' hc
    | cons d digits ih =>
      rw [List.cons_append, List.dropWhile_cons]
      split_ifs
      · exact ih fun c hc => hdigits c (List.mem_cons_of_mem _ hc)
      · intro c hc
        cases hc
        rintro rfl
        cases hdigits '.' List.mem_cons_self
  rw [readV4]
  cases hread : readByte (digits ++ rest) with
  | none => rfl
  | some read =>
    obtain ⟨value, after⟩ := read
    rw [← readNumber_rest hread] at hafter
    cases after with
    | nil => rfl
    | cons c after => simp [readChar, hafter c rfl]

theorem readV4_stop (hrest : EndsGroup rest) : readV4 rest = none := by
  have hnone : ∀ c ∈ ([] : List Char), isDigitIn 16 c = true := by simp
  exact readV4_group hnone hrest

theorem readNumber_stop {base limit : Nat} {allowed : List Char → Bool}
    (hrest : StopsAt (isDigitIn base) rest) : readNumber base limit allowed rest = none := by
  have hnone : rest.takeWhile (isDigitIn base) = [] := takeWhile_stop hrest
  unfold isDigitIn at hnone
  simp [readNumber, hnone]

/-- Reading groups ends at what stands behind them. -/
theorem readGroups_end (h : GroupsEnd rest) (room : Nat) (isFirst : Bool) :
    readGroups room isFirst rest = ([], false, rest) := by
  have hnothing : ∀ after, readSeparator isFirst rest = some ((), after) →
      readV4 after = none ∧ readGroup after = none := by
    intro after hafter
    have hstops : EndsGroup after := by
      cases isFirst with
      | true =>
        cases hafter
        exact h.endsGroup
      | false =>
        cases h with
        | closed | scope => cases hafter
        | gap rest =>
          cases hafter
          exact stopsAt_cons.2 rfl
    exact ⟨readV4_stop hstops, readNumber_stop hstops.stops⟩
  cases room with
  | zero => rfl
  | succ room =>
    cases hseparator : readSeparator isFirst rest with
    | none => simp [readGroups, hseparator]
    | some read =>
      obtain ⟨_, after⟩ := read
      obtain ⟨hfour, hgroup⟩ := hnothing after hseparator
      simp [readGroups, hseparator, hfour, hgroup]

/-- The text before a group. -/
def separator (isFirst : Bool) : List Char :=
  if isFirst then [] else [':']

theorem readSeparator_separator (isFirst : Bool) (rest : List Char) :
    readSeparator isFirst (separator isFirst ++ rest) = some ((), rest) := by
  cases isFirst <;> simp [readSeparator, separator, readChar]

theorem readGroups_cons (room : Nat) {group : Nat} (hgroup : group < 65536) (isFirst : Bool)
    (hrest : EndsGroup rest) :
    readGroups (room + 1) isFirst (separator isFirst ++ (hexadecimal group ++ rest)) =
      (group :: (readGroups room false rest).1, (readGroups room false rest).2) := by
  have hfour : readV4 (hexadecimal group ++ rest) = none :=
    readV4_group (fun c => isDigitIn_of_mem (by omega) (by omega)) hrest
  simp [readGroups, readSeparator_separator, hfour, readGroup_hexadecimal hgroup hrest]

/-- Groups with a colon before each. -/
def moreGroups (groups : List Nat) : List Char :=
  groups.flatMap fun group => ':' :: hexadecimal group

theorem writeGroups_cons (group : Nat) (groups : List Nat) :
    writeGroups (group :: groups) = hexadecimal group ++ moreGroups groups := by
  induction groups generalizing group with
  | nil => simp [writeGroups, moreGroups]
  | cons next groups ih => simp [writeGroups, ih, moreGroups]

theorem endsGroup_moreGroups (groups : List Nat) (hrest : EndsGroup rest) :
    EndsGroup (moreGroups groups ++ rest) := by
  cases groups with
  | nil => exact hrest
  | cons group groups => exact stopsAt_cons.2 rfl

theorem readGroups_moreGroups {groups : List Nat} (hgroups : ∀ group ∈ groups, group < 65536)
    (hrest : GroupsEnd rest) (hroom : groups.length ≤ room) :
    readGroups room false (moreGroups groups ++ rest) = (groups, false, rest) := by
  induction groups generalizing room with
  | nil => exact readGroups_end hrest room false
  | cons group groups ih =>
    rw [List.length_cons] at hroom
    obtain ⟨room, rfl⟩ : ∃ n, room = n + 1 := ⟨room - 1, by omega⟩
    obtain ⟨hgroup, hgroups⟩ := List.forall_mem_cons.1 hgroups
    have hread := readGroups_cons room hgroup false
      (endsGroup_moreGroups groups hrest.endsGroup)
    rw [ih hgroups (by omega)] at hread
    simpa [moreGroups, separator] using hread

theorem readGroups_writeGroups {groups : List Nat} (hgroups : ∀ group ∈ groups, group < 65536)
    (hrest : GroupsEnd rest) (hroom : groups.length ≤ room) :
    readGroups room true (writeGroups groups ++ rest) = (groups, false, rest) := by
  cases groups with
  | nil => exact readGroups_end hrest room true
  | cons group groups =>
    rw [List.length_cons] at hroom
    obtain ⟨room, rfl⟩ : ∃ n, room = n + 1 := ⟨room - 1, by omega⟩
    obtain ⟨hgroup, hgroups⟩ := List.forall_mem_cons.1 hgroups
    have hread := readGroups_cons room hgroup true
      (endsGroup_moreGroups groups hrest.endsGroup)
    rw [readGroups_moreGroups hgroups hrest (by omega)] at hread
    rw [writeGroups_cons, List.append_assoc]
    exact hread

end Groups

section Runs

/-- A run of zeros and what comes after it. -/
theorem zeros_append_drop (groups : List Nat) :
    groups = List.replicate (zeroRun groups) 0 ++ groups.drop (zeroRun groups) := by
  induction groups with
  | nil => rfl
  | cons group groups ih =>
    by_cases hgroup : group = 0
    · subst hgroup
      have hrun : zeroRun (0 :: groups) = zeroRun groups + 1 := by simp [zeroRun]
      rw [hrun, List.replicate_succ, List.drop_succ_cons, List.cons_append, ← ih]
    · have hrun : zeroRun (group :: groups) = 0 := by simp [zeroRun, hgroup]
      rw [hrun]
      rfl

/-- The longest run is a run of zeros. -/
theorem longestRun_eq {groups : List Nat} {start length : Nat}
    (h : longestRun groups = (start, length)) :
    groups = groups.take start ++ (List.replicate length 0 ++ groups.drop (start + length)) := by
  induction groups generalizing start length with
  | nil =>
    cases h
    rfl
  | cons group groups ih =>
    rcases hrest : longestRun groups with ⟨later, run⟩
    simp only [longestRun, hrest] at h
    split_ifs at h
    · cases h
      rw [List.take_zero, List.nil_append, Nat.zero_add]
      exact zeros_append_drop _
    · cases h
      have hgroups := ih hrest
      rw [List.take_succ_cons, List.cons_append, Nat.add_right_comm, List.drop_succ_cons, ← hgroups]

end Runs

section VersionSix

variable {rest : List Char}

theorem readV6_writeGroups {groups : List Nat} (hlength : groups.length = 8)
    (hgroups : ∀ group ∈ groups, group < 65536) (hrest : GroupsEnd rest) :
    readV6 (writeGroups groups ++ rest) = some (groups, rest) := by
  simp [readV6, readGroups_writeGroups hgroups hrest hlength.le, hlength]

theorem readV6_gap {front back : List Nat} (hlength : front.length + back.length ≤ 7)
    (hfront : ∀ group ∈ front, group < 65536) (hback : ∀ group ∈ back, group < 65536)
    (hrest : GroupsEnd rest) :
    readV6 (writeGroups front ++ ([':', ':'] ++ (writeGroups back ++ rest))) =
      some (front ++ List.replicate (8 - front.length - back.length) 0 ++ back, rest) := by
  have hreadFront := readGroups_writeGroups hfront (.gap (writeGroups back ++ rest))
    (show front.length ≤ 8 by omega)
  have hreadBack := readGroups_writeGroups hback hrest
    (show back.length ≤ 7 - front.length by omega)
  have hshort : front.length ≠ 8 := by omega
  simp [readV6, hreadFront, hshort, readChar, hreadBack]

/-- The groups that stand for an address of version 4 are written as one. -/
theorem readV6_mapped {x y : Nat} (hx : x < 65536) (hy : y < 65536)
    (hrest : StopsAt (isDigitIn 10) rest) :
    readV6 ([':', ':', 'f', 'f', 'f', 'f', ':'] ++
      (writeV4 (x / 256) (x % 256) (y / 256) (y % 256) ++ rest)) =
      some ([0, 0, 0, 0, 0, 0xFFFF, x, y], rest) := by
  let embedded := writeV4 (x / 256) (x % 256) (y / 256) (y % 256) ++ rest
  have hfour : readV4 embedded = some ((x / 256, x % 256, y / 256, y % 256), rest) :=
    readV4_writeV4 (by omega) (by omega) (by omega) (by omega) hrest
  have hfront : readGroups 8 true (':' :: ':' :: 'f' :: 'f' :: 'f' :: 'f' :: ':' :: embedded) =
      ([], false, ':' :: ':' :: 'f' :: 'f' :: 'f' :: 'f' :: ':' :: embedded) :=
    readGroups_end (.gap _) 8 true
  have hpair : readGroups 6 false (':' :: embedded) = ([x, y], true, rest) := by
    have hseparator := readSeparator_separator false embedded
    rw [separator, if_neg (by decide), List.singleton_append] at hseparator
    simp only [readGroups, hseparator, Option.bind_some, if_pos (show 0 < 5 by decide), hfour,
      show x / 256 * 256 + x % 256 = x by omega, show y / 256 * 256 + y % 256 = y by omega]
  have hback : readGroups 7 true ('f' :: 'f' :: 'f' :: 'f' :: ':' :: embedded) =
      ([0xFFFF, x, y], true, rest) := by
    have hstops : EndsGroup (':' :: embedded) := stopsAt_cons.2 rfl
    have hread := readGroups_cons 6 (show 0xFFFF < 65536 by decide) true hstops
    rw [hpair] at hread
    exact hread
  change readV6 (':' :: ':' :: 'f' :: 'f' :: 'f' :: 'f' :: ':' :: embedded) = _
  simp [readV6, hfront, readChar, hback]

theorem readV6_writeV6 {groups : List Nat} (hlength : groups.length = 8)
    (hgroups : ∀ group ∈ groups, group < 65536) (hrest : GroupsEnd rest) :
    readV6 (writeV6 groups ++ rest) = some (groups, rest) := by
  unfold writeV6
  split
  · rename_i x y
    simp only [List.forall_mem_cons] at hgroups
    have hstops : StopsAt (isDigitIn 10) rest :=
      hrest.endsGroup.stops.mono fun c => isDigitIn_sixteen
    simpa using readV6_mapped (by omega) (by omega) hstops
  · rcases hrun : longestRun groups with ⟨start, length⟩
    dsimp only
    split_ifs with hshort
    · exact readV6_writeGroups hlength hgroups hrest
    · have hgap := longestRun_eq hrun
      have hcount := congrArg List.length hgap
      simp only [List.length_append, List.length_take, List.length_replicate, List.length_drop,
        hlength] at hcount
      have hread := @readV6_gap rest (groups.take start) (groups.drop (start + length))
        (by simp only [List.length_take, List.length_drop, hlength]; omega)
        (fun group h => hgroups group (List.mem_of_mem_take h))
        (fun group h => hgroups group (List.mem_of_mem_drop h)) hrest
      have hzeros : 8 - (groups.take start).length - (groups.drop (start + length)).length = length := by
        simp only [List.length_take, List.length_drop, hlength]
        omega
      rw [hzeros, List.append_assoc, ← hgap] at hread
      simpa using hread

theorem readScope_write {scope : Nat} (hscope : scope < Nat.pow 2 32) (rest : List Char) :
    readScope ((if scope = 0 then [] else '%' :: decimal scope) ++ ']' :: rest) =
      (scope, ']' :: rest) := by
  split_ifs with hzero
  · subst hzero
    rfl
  · have hread : readNumber 10 (Nat.pow 2 32 - 1) (fun _ => true) (decimal scope ++ ']' :: rest) =
        some (scope, ']' :: rest) :=
      readNumber_toDigits (by omega) (by omega) (Nat.le_sub_one_of_lt hscope) rfl
        (stopsAt_cons.2 (not_isDigitIn rfl))
    simp [readScope, readChar, hread]

theorem readSocketV6_write {groups : List Nat} {scope service : Nat}
    (h : WellFormed (.v6 groups scope service)) :
    readSocketV6 (write (.v6 groups scope service)) = some (.v6 groups scope service, []) := by
  obtain ⟨⟨hlength, hgroups⟩, hscope, hservice⟩ := h
  let tail := (if scope = 0 then [] else '%' :: decimal scope) ++ ']' :: ':' :: decimal service
  have hend : GroupsEnd tail := by
    by_cases hzero : scope = 0
    · simp only [tail, if_pos hzero]
      exact .closed _
    · simp only [tail, if_neg hzero]
      exact .scope _
  have hwrite : write (.v6 groups scope service) = '[' :: (writeV6 groups ++ tail) := by
    simp [write, tail]
  simp [readSocketV6, hwrite, readChar, readV6_writeV6 hlength hgroups hend, tail,
    readScope_write hscope, readService_decimal hservice]

end VersionSix

/-- An address is read back from its text. -/
theorem WellFormed.ofText? {address : SocketAddress} (h : address.WellFormed) :
    ofText? address.text = some address := by
  rw [SocketAddress.ofText?, text, String.toList_ofList]
  cases address with
  | v4 => rw [readSocketV4_write h, Option.some_or]
  | v6 =>
    have hbracket : ∀ rest, readSocketV4 ('[' :: rest) = none := fun rest => by
      have hnone : readV4 ('[' :: rest) = none := readV4_stop (stopsAt_cons.2 rfl)
      rw [readSocketV4, hnone]
      rfl
    rw [readSocketV6_write h, write, List.append_assoc, List.append_assoc, List.cons_append,
      hbracket, Option.none_or]

example : text (.v6 [0x2001, 0xDB8, 0, 0, 1, 0, 0, 1] 3 9100) = "[2001:db8::1:0:0:1%3]:9100" := by
  decide

end BuildProgress.SocketAddress
