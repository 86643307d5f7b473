import BuildProgress.Proofs.Text.Utf8
import Mathlib.Algebra.Order.BigOperators.Group.List
import Mathlib.Algebra.Order.Group.Nat

/-!
# Text in chunks

A text whose bytes are cut into chunks can be read chunk by chunk as long as no character is cut. Where
one is cut the text is lost: a chunk gives as many characters as begin in it at least, and one more if it
begins inside a character, so that more characters are read than were written.
-/

namespace BuildProgress.Utf8

set_option autoImplicit false

variable {bytes rest before after : List UInt8} {text : List Char} {value : Nat}
  {ranges : List (Nat × Nat)}

def isFollower (byte : UInt8) : Bool :=
  follower.1 ≤ byte.toNat && byte.toNat ≤ follower.2

theorem isFollower_iff {byte : UInt8} :
    isFollower byte = true ↔ 0x80 ≤ byte.toNat ∧ byte.toNat ≤ 0xBF := by
  rw [isFollower, Bool.and_eq_true, decide_eq_true_eq, decide_eq_true_eq]
  rfl

/-- The number of characters that begin in some bytes. -/
def begun (bytes : List UInt8) : Nat :=
  bytes.countP (!isFollower ·)

/-- No character is cut in front of the bytes. -/
def BeginsWhole (bytes : List UInt8) : Prop :=
  ∀ byte ∈ bytes.head?, isFollower byte = false

section Writing

theorem isFollower_ofNat {byte : Nat} (h : byte < 256) :
    isFollower (UInt8.ofNat byte) = (0x80 ≤ byte && byte ≤ 0xBF) := by
  rw [isFollower, toNat_ofNat h, follower]

/-- A character is written as a first byte and followers. -/
theorem exists_encodeChar (c : Char) : ∃ first followers,
    String.utf8EncodeChar c = first :: followers ∧ isFollower first = false ∧
      ∀ byte ∈ followers, isFollower byte = true := by
  have hbound : c.val.toNat < 0x110000 := by
    have hvalid : c.val.toNat < 0xD800 ∨ 0xDFFF < c.val.toNat ∧ c.val.toNat < 0x110000 := c.valid
    omega
  have hfollower (n : Nat) : isFollower (UInt8.ofNat (n % 64 + 128)) = true := by
    rw [isFollower_ofNat (by omega)]
    simp
    omega
  have hfirst {n : Nat} (h : n < 256) (hnot : n < 0x80 ∨ 0xBF < n) :
      isFollower (UInt8.ofNat n) = false := by
    rw [isFollower_ofNat h]
    simp
    omega
  unfold String.utf8EncodeChar
  dsimp only
  split
  · exact ⟨_, _, rfl, hfirst (by omega) (by omega), by simp⟩
  · split
    · refine ⟨_, _, rfl, hfirst (by omega) (by omega), ?_⟩
      exact List.forall_mem_singleton.2 (hfollower _)
    · split
      · refine ⟨_, _, rfl, hfirst (by omega) (by omega), ?_⟩
        exact List.forall_mem_cons.2 ⟨hfollower _, List.forall_mem_singleton.2 (hfollower _)⟩
      · refine ⟨_, _, rfl, hfirst (by omega) (by omega), ?_⟩
        exact List.forall_mem_cons.2 ⟨hfollower _, List.forall_mem_cons.2
          ⟨hfollower _, List.forall_mem_singleton.2 (hfollower _)⟩⟩

theorem begun_encode (text : List Char) : begun (encode text) = text.length := by
  induction text with
  | nil => rfl
  | cons c text ih =>
    obtain ⟨first, followers, hchar, hfirst, hfollowers⟩ := exists_encodeChar c
    have hnone : followers.countP (!isFollower ·) = 0 :=
      List.countP_eq_zero.2 fun byte hbyte => by simp [hfollowers byte hbyte]
    have hone : (String.utf8EncodeChar c).countP (!isFollower ·) = 1 := by
      rw [hchar, List.countP_cons_of_pos (by simp [hfirst]), hnone]
    rw [encode, List.flatMap_cons, begun, List.countP_append, hone, List.length_cons, ← ih,
      Nat.add_comm]
    rfl

/-- A text that is cut between two characters is cut in two texts. -/
theorem split_encode (h : before ++ after = encode text) (hwhole : BeginsWhole after) :
    ∃ part part', before = encode part ∧ after = encode part' := by
  induction text generalizing before with
  | nil =>
    obtain ⟨rfl, rfl⟩ := List.append_eq_nil_iff.1 h
    exact ⟨[], [], rfl, rfl⟩
  | cons c text ih =>
    rw [encode, List.flatMap_cons] at h
    rcases List.append_eq_append_iff.1 h with ⟨mid, hchar, hafter⟩ | ⟨mid, hbefore, htext⟩
    · obtain ⟨first, followers, hshape, _, hfollowers⟩ := exists_encodeChar c
      cases before with
      | nil => exact ⟨[], c :: text, rfl, h⟩
      | cons byte before =>
        cases mid with
        | nil =>
          rw [List.append_nil] at hchar
          exact ⟨[c], text, by simp [encode, hchar], hafter⟩
        | cons next mid =>
          -- The part after the cut would begin with a follower of the character.
          rw [hshape] at hchar
          obtain ⟨_, htail⟩ := List.cons.inj hchar
          have hnext := hfollowers next (htail ▸ List.mem_append_right _ List.mem_cons_self)
          rw [hwhole next (by simp [hafter])] at hnext
          cases hnext
    · obtain ⟨part, part', rfl, hafter⟩ := ih htext.symm
      exact ⟨c :: part, part', hbefore, hafter⟩

end Writing

section Reading

def Within (ranges : List (Nat × Nat)) : Prop :=
  ∀ range ∈ ranges, follower.1 ≤ range.1 ∧ range.2 ≤ follower.2

theorem within_of_lead? {byte : Nat} (h : lead? byte = some (value, ranges)) : Within ranges := by
  have hfollower : follower.1 ≤ follower.1 ∧ follower.2 ≤ follower.2 := ⟨Nat.le_refl _, Nat.le_refl _⟩
  cases leads_of_lead? h with
  | one => simp [Within]
  | two => exact List.forall_mem_singleton.2 hfollower
  | three _ _ hnext hnext' =>
    exact List.forall_mem_cons.2 ⟨⟨hnext, hnext'⟩, List.forall_mem_singleton.2 hfollower⟩
  | four _ _ hnext hnext' =>
    exact List.forall_mem_cons.2 ⟨⟨hnext, hnext'⟩,
      List.forall_mem_cons.2 ⟨hfollower, List.forall_mem_singleton.2 hfollower⟩⟩

/-- A run gives as many pieces as characters begin in it, and one more for a character that has
begun before. -/
structure Counts (bytes : List UInt8) : Prop where
  fresh : begun bytes ≤ (piecesFrom none bytes).length
  pending : ∀ value next later, Within (next :: later) →
    begun bytes + 1 ≤ (piecesFrom (some ⟨value, next, later⟩) bytes).length

theorem Counts.advance (h : Counts rest) (value : Nat) (hranges : Within ranges) :
    begun rest + 1 ≤ ((advance value ranges).1 ++ piecesFrom (advance value ranges).2 rest).length := by
  cases ranges with
  | nil => simpa [Utf8.advance] using h.fresh
  | cons next later => exact h.pending value next later hranges

theorem Counts.start (h : Counts rest) (byte : Nat) :
    begun rest + 1 ≤ ((start byte).1 ++ piecesFrom (start byte).2 rest).length := by
  unfold Utf8.start
  cases hlead : lead? byte with
  | none => simpa using h.fresh
  | some lead => exact h.advance lead.1 (within_of_lead? hlead)

theorem begun_cons_le (byte : UInt8) (rest : List UInt8) : begun (byte :: rest) ≤ begun rest + 1 := by
  unfold begun
  rw [List.countP_cons]
  split <;> omega

theorem counts (bytes : List UInt8) : Counts bytes := by
  induction bytes with
  | nil => exact ⟨Nat.le_refl _, fun _ _ _ _ => Nat.le_refl _⟩
  | cons byte rest ih =>
    have hcons := begun_cons_le byte rest
    refine ⟨Nat.le_trans hcons (ih.start byte.toNat), ?_⟩
    intro value next later hranges
    rw [piecesFrom, step]
    by_cases hfits : next.1 ≤ byte.toNat ∧ byte.toNat ≤ next.2
    · have hnext := hranges next List.mem_cons_self
      have hfollower : isFollower byte = true :=
        isFollower_iff.2 ⟨Nat.le_trans hnext.1 hfits.1, Nat.le_trans hfits.2 hnext.2⟩
      have hsame : begun (byte :: rest) = begun rest := by
        simp [begun, hfollower]
      rw [if_pos hfits, hsame]
      exact ih.advance _ fun range hrange => hranges range (List.mem_cons_of_mem _ hrange)
    · rw [if_neg hfits]
      have hstart := ih.start byte.toNat
      simp only [List.cons_append, List.length_cons]
      omega

theorem begun_le_length (bytes : List UInt8) : begun bytes ≤ (decodeLossy bytes).length := by
  rw [decodeLossy, List.length_map]
  exact (counts bytes).fresh

/-- Bytes that begin inside a character give a character too many. -/
theorem begun_lt_length (h : ¬ BeginsWhole bytes) : begun bytes < (decodeLossy bytes).length := by
  cases bytes with
  | nil => simp [BeginsWhole] at h
  | cons byte rest =>
    have hfollower : isFollower byte = true := by simpa [BeginsWhole] using h
    have hsame : begun (byte :: rest) = begun rest := by
      simp [begun, hfollower]
    have hstart := (counts rest).start byte.toNat
    rw [decodeLossy, List.length_map, hsame]
    exact hstart

theorem decodeLossy_encode (text : List Char) : decodeLossy (encode text) = text := by
  rw [decodeLossy, pieces_encode, List.map_map]
  exact List.map_id text

end Reading

section Chunks

variable {chunks : List (List UInt8)}

theorem encode_flatten (parts : List (List Char)) :
    encode parts.flatten = (parts.map encode).flatten := by
  induction parts with
  | nil => rfl
  | cons part parts ih =>
    rw [List.flatten_cons, List.map_cons, List.flatten_cons, ← ih]
    exact List.flatMap_append

theorem BeginsWhole.flatten (h : ∀ chunk ∈ chunks, BeginsWhole chunk) :
    BeginsWhole chunks.flatten := by
  induction chunks with
  | nil => simp [BeginsWhole]
  | cons chunk chunks ih =>
    rw [List.forall_mem_cons] at h
    cases chunk with
    | nil => exact ih h.2
    | cons byte chunk => exact h.1

theorem exists_parts (h : chunks.flatten = encode text) (hwhole : ∀ chunk ∈ chunks, BeginsWhole chunk) :
    ∃ parts : List (List Char), chunks = parts.map encode := by
  induction chunks generalizing text with
  | nil => exact ⟨[], rfl⟩
  | cons chunk chunks ih =>
    rw [List.forall_mem_cons] at hwhole
    obtain ⟨part, rest, rfl, hrest⟩ := split_encode h (BeginsWhole.flatten hwhole.2)
    obtain ⟨parts, rfl⟩ := ih hrest hwhole.2
    exact ⟨part :: parts, rfl⟩

theorem beginsWhole_of_read (h : chunks.flatten = encode text)
    (hread : chunks.flatMap decodeLossy = text) : ∀ chunk ∈ chunks, BeginsWhole chunk := by
  by_contra hcut
  obtain ⟨chunk, hchunk, hcut⟩ : ∃ chunk ∈ chunks, ¬ BeginsWhole chunk := by simpa using hcut
  have hmore : (chunks.map begun).sum < (chunks.map fun chunk => (decodeLossy chunk).length).sum :=
    List.sum_lt_sum _ _ (fun chunk _ => begun_le_length chunk) ⟨chunk, hchunk, begun_lt_length hcut⟩
  have hbegun : (chunks.map begun).sum = text.length := by
    rw [← begun_encode, ← h, begun, List.countP_flatten]
    rfl
  have hlength : (chunks.map fun chunk => (decodeLossy chunk).length).sum = text.length := by
    rw [← hread, List.length_flatMap]
  omega

/-- The chunks of a text give the text exactly if each of them is a text. -/
theorem read_chunks_iff (h : chunks.flatten = encode text) :
    chunks.flatMap decodeLossy = text ↔ ∃ parts : List (List Char), chunks = parts.map encode := by
  constructor
  · exact fun hread => exists_parts h (beginsWhole_of_read h hread)
  · rintro ⟨parts, rfl⟩
    have htext : parts.flatten = text := encode_injective ((encode_flatten parts).trans h)
    rw [List.flatMap_map, ← htext]
    simp [decodeLossy_encode, List.flatMap_def]

end Chunks

end BuildProgress.Utf8
