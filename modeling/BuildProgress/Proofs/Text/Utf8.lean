import BuildProgress.Text.Utf8
import Mathlib.Data.List.Forall2
import Mathlib.Tactic.SplitIfs

/-!
# Text survives UTF-8

A character is written as one to four bytes. The first byte says how many follow and in which range
the next one lies; the ranges leave room for exactly the characters that need as many bytes, so that
reading what was written gives the character back, whatever bytes come after it. For the same reason
nothing else is read without a refusal.
-/

namespace BuildProgress.Utf8

set_option autoImplicit false

variable {byte value : Nat} {rest : List UInt8}

theorem toNat_ofNat (h : byte < 256) : (UInt8.ofNat byte).toNat = byte := by
  rw [UInt8.toNat_ofNat']
  omega

theorem piecesFrom_start (h : byte < 256) : piecesFrom none (UInt8.ofNat byte :: rest) =
    (start byte).1 ++ piecesFrom (start byte).2 rest := by
  rw [piecesFrom, toNat_ofNat h, step]

/-- A byte in its range carries six bits. -/
theorem piecesFrom_follow {next : Nat × Nat} {later : List (Nat × Nat)} (h : byte < 256)
    (hlow : next.1 ≤ byte) (hhigh : byte ≤ next.2) :
    piecesFrom (some ⟨value, next, later⟩) (UInt8.ofNat byte :: rest) =
      (advance (value * 64 + (byte - 0x80)) later).1 ++
        piecesFrom (advance (value * 64 + (byte - 0x80)) later).2 rest := by
  rw [piecesFrom, toNat_ofNat h, step, if_pos ⟨hlow, hhigh⟩]

section Leads

theorem lead?_one (h : byte ≤ 0x7F) : lead? byte = some (byte, []) :=
  if_pos h

theorem lead?_two (hlow : 0xC2 ≤ byte) (hhigh : byte ≤ 0xDF) :
    lead? byte = some (byte - 0xC0, [follower]) := by
  have hlow' : ¬ byte ≤ 0x7F := by omega
  have hshort : ¬ byte < 0xC2 := by omega
  rw [lead?, if_neg hlow', if_neg hshort, if_pos hhigh]

/-- The first of three bytes allows the second one for every value that needs three bytes and is no
surrogate. -/
theorem lead?_three (hlow : 0x800 ≤ value) (hhigh : value ≤ 0xFFFF)
    (hvalid : value < 0xD800 ∨ 0xDFFF < value) :
    ∃ next : Nat × Nat, lead? (value / 4096 + 224) = some (value / 4096, [next, follower]) ∧
      next.1 ≤ value / 64 % 64 + 128 ∧ value / 64 % 64 + 128 ≤ next.2 := by
  have hlead : value / 4096 ≤ 15 := by omega
  have hnot : ¬ value / 4096 + 224 ≤ 0x7F ∧ ¬ value / 4096 + 224 < 0xC2 ∧
      ¬ value / 4096 + 224 ≤ 0xDF := by omega
  have hsub : value / 4096 + 224 - 0xE0 = value / 4096 := by omega
  rw [lead?, if_neg hnot.1, if_neg hnot.2.1, if_neg hnot.2.2, hsub]
  by_cases hfirst : value / 4096 + 224 = 0xE0
  · rw [if_pos hfirst]
    refine ⟨_, rfl, ?_, ?_⟩ <;> dsimp only <;> omega
  · rw [if_neg hfirst]
    by_cases hsurrogate : value / 4096 + 224 = 0xED
    · rw [if_pos hsurrogate]
      refine ⟨_, rfl, ?_, ?_⟩ <;> dsimp only <;> omega
    · rw [if_neg hsurrogate, if_pos (by omega)]
      refine ⟨follower, rfl, ?_, ?_⟩ <;> dsimp only [follower] <;> omega

theorem lead?_four (hlow : 0x10000 ≤ value) (hhigh : value < 0x110000) :
    ∃ next : Nat × Nat,
      lead? (value / 262144 + 240) = some (value / 262144, [next, follower, follower]) ∧
      next.1 ≤ value / 4096 % 64 + 128 ∧ value / 4096 % 64 + 128 ≤ next.2 := by
  have hlead : value / 262144 ≤ 4 := by omega
  have hnot : ¬ value / 262144 + 240 ≤ 0x7F ∧ ¬ value / 262144 + 240 < 0xC2 ∧
      ¬ value / 262144 + 240 ≤ 0xDF ∧ value / 262144 + 240 ≠ 0xE0 ∧ value / 262144 + 240 ≠ 0xED ∧
      ¬ value / 262144 + 240 ≤ 0xEF := by omega
  obtain ⟨h₁, h₂, h₃, h₄, h₅, h₆⟩ := hnot
  have hsub : value / 262144 + 240 - 0xF0 = value / 262144 := by omega
  rw [lead?, if_neg h₁, if_neg h₂, if_neg h₃, if_neg h₄, if_neg h₅, if_neg h₆, hsub]
  by_cases hfirst : value / 262144 + 240 = 0xF0
  · rw [if_pos hfirst]
    refine ⟨_, rfl, ?_, ?_⟩ <;> dsimp only <;> omega
  · rw [if_neg hfirst]
    by_cases hmiddle : value / 262144 + 240 ≤ 0xF3
    · rw [if_pos hmiddle]
      refine ⟨follower, rfl, ?_, ?_⟩ <;> dsimp only [follower] <;> omega
    · rw [if_neg hmiddle, if_pos (by omega)]
      refine ⟨_, rfl, ?_, ?_⟩ <;> dsimp only <;> omega

end Leads

section Values

theorem follower_range (value : Nat) :
    follower.1 ≤ value % 64 + 128 ∧ value % 64 + 128 ≤ follower.2 := by
  dsimp only [follower]
  omega

theorem piecesFrom_one (h : value ≤ 0x7F) :
    piecesFrom none (UInt8.ofNat value :: rest) = some (Char.ofNat value) :: piecesFrom none rest := by
  rw [piecesFrom_start (by omega), start, lead?_one h]
  rfl

theorem piecesFrom_two (hlow : 0x80 ≤ value) (hhigh : value ≤ 0x7FF) :
    piecesFrom none (UInt8.ofNat (value / 64 % 32 + 192) :: UInt8.ofNat (value % 64 + 128) :: rest) =
      some (Char.ofNat value) :: piecesFrom none rest := by
  have hlast := follower_range value
  have hvalue : (value / 64 % 32 + 192 - 0xC0) * 64 + (value % 64 + 128 - 0x80) = value := by omega
  rw [piecesFrom_start (by omega), start, lead?_two (by omega) (by omega)]
  simp only [advance, List.nil_append]
  rw [piecesFrom_follow (by omega) hlast.1 hlast.2, hvalue]
  rfl

theorem piecesFrom_three (hlow : 0x800 ≤ value) (hhigh : value ≤ 0xFFFF)
    (hvalid : value < 0xD800 ∨ 0xDFFF < value) :
    piecesFrom none (UInt8.ofNat (value / 4096 % 16 + 224) :: UInt8.ofNat (value / 64 % 64 + 128) ::
      UInt8.ofNat (value % 64 + 128) :: rest) = some (Char.ofNat value) :: piecesFrom none rest := by
  obtain ⟨next, hlead, hnext⟩ := lead?_three hlow hhigh hvalid
  have hlast := follower_range value
  have hfirst : value / 4096 % 16 = value / 4096 := by omega
  have hvalue : (value / 4096 * 64 + (value / 64 % 64 + 128 - 0x80)) * 64 +
      (value % 64 + 128 - 0x80) = value := by omega
  rw [hfirst, piecesFrom_start (by omega), start, hlead]
  simp only [advance, List.nil_append]
  rw [piecesFrom_follow (by omega) hnext.1 hnext.2]
  simp only [advance, List.nil_append]
  rw [piecesFrom_follow (by omega) hlast.1 hlast.2, hvalue]
  rfl

theorem piecesFrom_four (hlow : 0x10000 ≤ value) (hhigh : value < 0x110000) :
    piecesFrom none (UInt8.ofNat (value / 262144 % 8 + 240) :: UInt8.ofNat (value / 4096 % 64 + 128) ::
      UInt8.ofNat (value / 64 % 64 + 128) :: UInt8.ofNat (value % 64 + 128) :: rest) =
      some (Char.ofNat value) :: piecesFrom none rest := by
  obtain ⟨next, hlead, hnext⟩ := lead?_four hlow hhigh
  have hthird := follower_range (value / 64)
  have hlast := follower_range value
  have hfirst : value / 262144 % 8 = value / 262144 := by omega
  have hvalue : ((value / 262144 * 64 + (value / 4096 % 64 + 128 - 0x80)) * 64 +
      (value / 64 % 64 + 128 - 0x80)) * 64 + (value % 64 + 128 - 0x80) = value := by omega
  rw [hfirst, piecesFrom_start (by omega), start, hlead]
  simp only [advance, List.nil_append]
  rw [piecesFrom_follow (by omega) hnext.1 hnext.2]
  simp only [advance, List.nil_append]
  rw [piecesFrom_follow (by omega) hthird.1 hthird.2]
  simp only [advance, List.nil_append]
  rw [piecesFrom_follow (by omega) hlast.1 hlast.2, hvalue]
  rfl

end Values

theorem piecesFrom_encodeChar (c : Char) (rest : List UInt8) :
    piecesFrom none (String.utf8EncodeChar c ++ rest) = some c :: piecesFrom none rest := by
  have hvalid : c.val.toNat < 0xD800 ∨ 0xDFFF < c.val.toNat ∧ c.val.toNat < 0x110000 := c.valid
  have hc : Char.ofNat c.val.toNat = c := Char.ofNat_toNat c
  rw [← congrArg (some · :: piecesFrom none rest) hc]
  unfold String.utf8EncodeChar
  dsimp only
  split
  · exact piecesFrom_one ‹_›
  · split
    · exact piecesFrom_two (by omega) ‹_›
    · split
      · exact piecesFrom_three (by omega) ‹_› (by omega)
      · exact piecesFrom_four (by omega) (by omega)

theorem pieces_encode (text : List Char) : pieces (encode text) = text.map some := by
  induction text with
  | nil => rfl
  | cons c text ih =>
    rw [encode, List.flatMap_cons, pieces, piecesFrom_encodeChar, List.map_cons]
    exact congrArg _ ih

theorem decode?_encode (text : List Char) : decode? (encode text) = some text := by
  rw [decode?, pieces_encode]
  induction text with
  | nil => rfl
  | cons c text ih => simp [List.mapM_cons, ih]

section Strict

/-- What a first byte asks for: none, one, two or three more bytes. -/
inductive Leads (byte : Nat) : Nat → List (Nat × Nat) → Prop where
  | one (hascii : byte ≤ 0x7F) : Leads byte byte []
  | two (hlow : 0xC2 ≤ byte) (hhigh : byte ≤ 0xDF) : Leads byte (byte - 0xC0) [follower]
  | three {next : Nat × Nat} (hlow : 0xE0 ≤ byte) (hhigh : byte ≤ 0xEF) (hnext : 0x80 ≤ next.1)
      (hnext' : next.2 ≤ 0xBF) (hlong : byte = 0xE0 → 0xA0 ≤ next.1)
      (hvalid : byte = 0xED → next.2 ≤ 0x9F) : Leads byte (byte - 0xE0) [next, follower]
  | four {next : Nat × Nat} (hlow : 0xF0 ≤ byte) (hhigh : byte ≤ 0xF4) (hnext : 0x80 ≤ next.1)
      (hnext' : next.2 ≤ 0xBF) (hlong : byte = 0xF0 → 0x90 ≤ next.1)
      (hvalid : byte = 0xF4 → next.2 ≤ 0x8F) : Leads byte (byte - 0xF0) [next, follower, follower]

theorem leads_of_lead? {ranges : List (Nat × Nat)} (h : lead? byte = some (value, ranges)) :
    Leads byte value ranges := by
  unfold lead? at h
  split_ifs at h with h1 h2 h3 h4 h5 h6 h7 h8 h9
  all_goals
    obtain ⟨rfl, rfl⟩ := Prod.mk.inj (Option.some.inj h)
  · exact .one h1
  · exact .two (by omega) h3
  · exact .three (by omega) (by omega) (by decide) (by decide) (fun _ => by decide) (by omega)
  · exact .three (by omega) (by omega) (by decide) (by decide) (by omega) (fun _ => by decide)
  · exact .three (by omega) (by omega) (by decide) (by decide) (by omega) (by omega)
  · exact .four (by omega) (by omega) (by decide) (by decide) (fun _ => by decide) (by omega)
  · exact .four (by omega) (by omega) (by decide) (by decide) (by omega) (by omega)
  · exact .four (by omega) (by omega) (by decide) (by decide) (by omega) (fun _ => by decide)

/-- A following byte that lies in its range. -/
def Follows (range : Nat × Nat) (byte : UInt8) : Prop :=
  range.1 ≤ byte.toNat ∧ byte.toNat ≤ range.2

/-- The value of a character with the six bits of one more byte. -/
def extend (value : Nat) (byte : UInt8) : Nat :=
  value * 64 + (byte.toNat - 0x80)

/-- The value of a character that begins with these bits and goes on with these bytes. -/
def gather (value : Nat) (followers : List UInt8) : Nat :=
  followers.foldl extend value

/-- Where nothing is refused, a character that has begun is completed. -/
theorem piecesFrom_pending {next : Nat × Nat} {later : List (Nat × Nat)} {bytes : List UInt8}
    {text : List Char} (h : piecesFrom (some ⟨value, next, later⟩) bytes = text.map some) :
    ∃ followers rest text', bytes = followers ++ rest ∧
      List.Forall₂ Follows (next :: later) followers ∧
      text = Char.ofNat (gather value followers) :: text' ∧
      piecesFrom none rest = text'.map some := by
  induction later generalizing value next bytes with
  | nil =>
    cases bytes with
    | nil => cases text <;> simp [piecesFrom] at h
    | cons byte rest =>
      by_cases hrange : next.1 ≤ byte.toNat ∧ byte.toNat ≤ next.2
      · rw [piecesFrom, step, if_pos hrange] at h
        cases text with
        | nil => simp [advance] at h
        | cons c text =>
          simp only [advance, List.cons_append, List.nil_append, List.map_cons, List.cons.injEq,
            Option.some.injEq] at h
          obtain ⟨rfl, hrest⟩ := h
          exact ⟨[byte], rest, text, rfl, .cons hrange .nil, rfl, hrest⟩
      · rw [piecesFrom, step, if_neg hrange] at h
        cases text <;> simp at h
  | cons second later ih =>
    cases bytes with
    | nil => cases text <;> simp [piecesFrom] at h
    | cons byte bytes =>
      by_cases hrange : next.1 ≤ byte.toNat ∧ byte.toNat ≤ next.2
      · rw [piecesFrom, step, if_pos hrange] at h
        simp only [advance, List.nil_append] at h
        obtain ⟨followers, rest, text', rfl, hfollow, htext, hrest⟩ := ih h
        have hgather : gather value (byte :: followers) = gather (extend value byte) followers :=
          List.foldl_cons ..
        refine ⟨byte :: followers, rest, text', rfl, .cons hrange hfollow, ?_, hrest⟩
        rw [hgather]
        exact htext
      · rw [piecesFrom, step, if_neg hrange] at h
        cases text <;> simp at h

section Writing

theorem toNat_ofNat_valid (h : value.isValidChar) : (Char.ofNat value).val.toNat = value := by
  rw [Char.ofNat, dif_pos h]
  rfl

variable {a b c d : UInt8}

theorem encodeChar_one (h : a.toNat ≤ 0x7F) :
    String.utf8EncodeChar (Char.ofNat a.toNat) = [a] := by
  have hvalid : a.toNat < 0xD800 := by omega
  have hvalue := toNat_ofNat_valid (Or.inl hvalid)
  simp only [String.utf8EncodeChar, hvalue]
  rw [if_pos h, UInt8.ofNat_toNat]

theorem encodeChar_two (hlow : 0xC2 ≤ a.toNat) (hhigh : a.toNat ≤ 0xDF) (hb : Follows follower b) :
    String.utf8EncodeChar (Char.ofNat (gather (a.toNat - 0xC0) [b])) = [a, b] := by
  obtain ⟨hb, hb'⟩ := hb
  simp only [follower] at hb hb'
  have hgather : gather (a.toNat - 0xC0) [b] = (a.toNat - 0xC0) * 64 + (b.toNat - 0x80) := rfl
  generalize hv : gather (a.toNat - 0xC0) [b] = value at hgather ⊢
  have hvalid : value < 0xD800 := by omega
  have hvalue := toNat_ofNat_valid (Or.inl hvalid)
  have ha : value / 64 % 32 + 192 = a.toNat := by omega
  have hb : value % 64 + 128 = b.toNat := by omega
  simp only [String.utf8EncodeChar, hvalue]
  rw [if_neg (by omega), if_pos (by omega), ha, hb, UInt8.ofNat_toNat, UInt8.ofNat_toNat]

theorem encodeChar_three {next : Nat × Nat} (hlow : 0xE0 ≤ a.toNat) (hhigh : a.toNat ≤ 0xEF)
    (hnext : 0x80 ≤ next.1) (hnext' : next.2 ≤ 0xBF) (hlong : a.toNat = 0xE0 → 0xA0 ≤ next.1)
    (hvalid : a.toNat = 0xED → next.2 ≤ 0x9F) (hb : Follows next b) (hc : Follows follower c) :
    String.utf8EncodeChar (Char.ofNat (gather (a.toNat - 0xE0) [b, c])) = [a, b, c] := by
  obtain ⟨hb, hb'⟩ := hb
  obtain ⟨hc, hc'⟩ := hc
  simp only [follower] at hc hc'
  have hgather : gather (a.toNat - 0xE0) [b, c] =
      ((a.toNat - 0xE0) * 64 + (b.toNat - 0x80)) * 64 + (c.toNat - 0x80) := rfl
  generalize gather (a.toNat - 0xE0) [b, c] = value at hgather ⊢
  have hscalar : value < 0xD800 ∨ 0xDFFF < value ∧ value < 0x110000 := by omega
  have hvalue := toNat_ofNat_valid hscalar
  have ha : value / 4096 % 16 + 224 = a.toNat := by omega
  have hb : value / 64 % 64 + 128 = b.toNat := by omega
  have hc : value % 64 + 128 = c.toNat := by omega
  simp only [String.utf8EncodeChar, hvalue]
  rw [if_neg (by omega), if_neg (by omega), if_pos (by omega), ha, hb, hc, UInt8.ofNat_toNat,
    UInt8.ofNat_toNat, UInt8.ofNat_toNat]

theorem encodeChar_four {next : Nat × Nat} (hlow : 0xF0 ≤ a.toNat) (hhigh : a.toNat ≤ 0xF4)
    (hnext : 0x80 ≤ next.1) (hnext' : next.2 ≤ 0xBF) (hlong : a.toNat = 0xF0 → 0x90 ≤ next.1)
    (hvalid : a.toNat = 0xF4 → next.2 ≤ 0x8F) (hb : Follows next b) (hc : Follows follower c)
    (hd : Follows follower d) :
    String.utf8EncodeChar (Char.ofNat (gather (a.toNat - 0xF0) [b, c, d])) = [a, b, c, d] := by
  obtain ⟨hb, hb'⟩ := hb
  obtain ⟨hc, hc'⟩ := hc
  obtain ⟨hd, hd'⟩ := hd
  simp only [follower] at hc hc' hd hd'
  have hgather : gather (a.toNat - 0xF0) [b, c, d] =
      (((a.toNat - 0xF0) * 64 + (b.toNat - 0x80)) * 64 + (c.toNat - 0x80)) * 64 +
        (d.toNat - 0x80) := rfl
  generalize gather (a.toNat - 0xF0) [b, c, d] = value at hgather ⊢
  have hscalar : value < 0xD800 ∨ 0xDFFF < value ∧ value < 0x110000 := by omega
  have hvalue := toNat_ofNat_valid hscalar
  have ha : value / 262144 % 8 + 240 = a.toNat := by omega
  have hb : value / 4096 % 64 + 128 = b.toNat := by omega
  have hc : value / 64 % 64 + 128 = c.toNat := by omega
  have hd : value % 64 + 128 = d.toNat := by omega
  simp only [String.utf8EncodeChar, hvalue]
  rw [if_neg (by omega), if_neg (by omega), if_neg (by omega), ha, hb, hc, hd, UInt8.ofNat_toNat,
    UInt8.ofNat_toNat, UInt8.ofNat_toNat, UInt8.ofNat_toNat]

end Writing

/-- A first byte and the bytes that it asks for are those of the character that they spell. -/
theorem Leads.encodeChar {byte : UInt8} {ranges : List (Nat × Nat)} {followers : List UInt8}
    (h : Leads byte.toNat value ranges) (hfollow : List.Forall₂ Follows ranges followers) :
    String.utf8EncodeChar (Char.ofNat (gather value followers)) = byte :: followers := by
  cases h with
  | one hascii =>
    cases hfollow
    exact encodeChar_one hascii
  | two hlow hhigh =>
    obtain _ | ⟨hb, _ | _⟩ := hfollow
    exact encodeChar_two hlow hhigh hb
  | three hlow hhigh hnext hnext' hlong hvalid =>
    obtain _ | ⟨hb, _ | ⟨hc, _ | _⟩⟩ := hfollow
    exact encodeChar_three hlow hhigh hnext hnext' hlong hvalid hb hc
  | four hlow hhigh hnext hnext' hlong hvalid =>
    obtain _ | ⟨hb, _ | ⟨hc, _ | ⟨hd, _ | _⟩⟩⟩ := hfollow
    exact encodeChar_four hlow hhigh hnext hnext' hlong hvalid hb hc hd

/-- Where nothing is refused, the bytes begin with those of a character. -/
theorem piecesFrom_first {byte : UInt8} {bytes : List UInt8} {text : List Char}
    (h : piecesFrom none (byte :: bytes) = text.map some) :
    ∃ c text' rest, text = c :: text' ∧ byte :: bytes = String.utf8EncodeChar c ++ rest ∧
      piecesFrom none rest = text'.map some := by
  rw [piecesFrom, step, start] at h
  cases hlead : lead? byte.toNat with
  | none =>
    rw [hlead] at h
    cases text <;> simp at h
  | some lead =>
    obtain ⟨value, ranges⟩ := lead
    have hleads := leads_of_lead? hlead
    rw [hlead] at h
    cases ranges with
    | nil =>
      cases text with
      | nil => simp [advance] at h
      | cons c text =>
        simp only [advance, List.cons_append, List.nil_append, List.map_cons, List.cons.injEq,
          Option.some.injEq] at h
        obtain ⟨rfl, hrest⟩ := h
        exact ⟨_, text, bytes, rfl, congrArg (· ++ bytes) (hleads.encodeChar .nil).symm, hrest⟩
    | cons next later =>
      obtain ⟨followers, rest, text', rfl, hfollow, rfl, hrest⟩ := piecesFrom_pending h
      exact ⟨_, text', rest, rfl, congrArg (· ++ rest) (hleads.encodeChar hfollow).symm, hrest⟩

/-- Only what is written for a text is read as it without a refusal. -/
theorem eq_encode_of_pieces {bytes : List UInt8} {text : List Char}
    (h : pieces bytes = text.map some) : bytes = encode text := by
  induction text generalizing bytes with
  | nil =>
    cases bytes with
    | nil => rfl
    | cons byte bytes =>
      obtain ⟨c, text', rest, htext, _⟩ := piecesFrom_first h
      cases htext
  | cons c text ih =>
    cases bytes with
    | nil => cases h
    | cons byte bytes =>
      obtain ⟨c', text', rest, htext, hbytes, hrest⟩ := piecesFrom_first h
      obtain ⟨rfl, rfl⟩ := List.cons.inj htext
      rw [hbytes, ih hrest]
      rfl

theorem eq_map_some_of_mapM {α : Type} {items : List (Option α)} {values : List α}
    (h : items.mapM id = some values) : items = values.map some := by
  induction items generalizing values with
  | nil =>
    obtain rfl := Option.some.inj h
    rfl
  | cons item items ih =>
    rw [List.mapM_cons, Option.bind_eq_bind, Option.bind_eq_some_iff] at h
    obtain ⟨value, hvalue, h⟩ := h
    rw [Option.bind_eq_bind, Option.bind_eq_some_iff] at h
    obtain ⟨rest, hrest, h⟩ := h
    obtain rfl := Option.some.inj h
    rw [ih hrest, List.map_cons, ← hvalue]
    rfl

theorem decode?_eq_some_iff {bytes : List UInt8} {text : List Char} :
    decode? bytes = some text ↔ bytes = encode text := by
  constructor
  · exact fun h => eq_encode_of_pieces (eq_map_some_of_mapM h)
  · exact fun h => h ▸ decode?_encode text

theorem encode_injective : Function.Injective encode := by
  intro text text' h
  rw [← Option.some_inj, ← decode?_encode, ← decode?_encode, h]

end Strict

end BuildProgress.Utf8
