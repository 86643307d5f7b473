import BuildProgress.Proofs.Transcript.Lockstep

/-!
# When the writer fails

A writer may accept some writes and fail at every later one. Then the transcript is cut off between
two of its records: all before is written as it would be otherwise, the first write that fails is the
last one that is tried, and what the transcript remembers of the steps goes on as if nothing had
happened.
-/

namespace BuildProgress.Transcript

set_option autoImplicit false

section Writing

variable {t : Transcript} {room : Nat}

theorem write_of_failed (h : t.failed = true) (record : String) : t.write record = t := by
  simp [write, h]

theorem write_of_unlimited (h : t.failed = false) (hroom : t.room = none) (record : String) :
    t.write record =
      { t with written := t.written ++ [record], attempts := t.attempts + 1 } := by
  simp [write, h, hroom]

theorem write_of_full (h : t.failed = false) (hroom : t.room = some 0) (record : String) :
    t.write record = { t with failed := true, attempts := t.attempts + 1 } := by
  simp [write, h, hroom]

theorem write_of_room (h : t.failed = false) (hroom : t.room = some (room + 1)) (record : String) :
    t.write record = { t with
      room := some room, written := t.written ++ [record], attempts := t.attempts + 1 } := by
  simp [write, h, hroom]

end Writing

/-- Everything that was tried was written, and so it will be. -/
structure Whole (t : Transcript) : Prop where
  room : t.room = none
  failed : t.failed = false
  attempts : t.attempts = t.written.length

/-- What a transcript would be like if its writer accepted no more than so many writes. -/
def cutAt (limit : Nat) (t : Transcript) : Transcript :=
  { t with
    room := some (limit - t.written.length)
    written := t.written.take limit
    attempts := min t.written.length (limit + 1)
    failed := decide (limit < t.written.length) }

section Cutting

variable {limit : Nat} {t u : Transcript}

theorem Whole.write (h : t.Whole) (record : String) : (t.write record).Whole := by
  rw [write_of_unlimited h.failed h.room]
  exact ⟨h.room, h.failed, by simp [h.attempts]⟩

theorem failed_cutAt_of_le (h : t.written.length ≤ limit) : (t.cutAt limit).failed = false := by
  rw [cutAt, decide_eq_false_iff_not]
  omega

/-- A record is written in both, or its write fails in one of them, or it is not tried there. -/
theorem write_cutAt (h : t.Whole) (limit : Nat) (record : String) :
    (t.cutAt limit).write record = (t.write record).cutAt limit := by
  rw [write_of_unlimited h.failed h.room]
  rcases Nat.lt_trichotomy t.written.length limit with hlt | heq | hgt
  · have hopen := failed_cutAt_of_le hlt.le
    obtain ⟨room, hroom⟩ : ∃ room, limit - t.written.length = room + 1 :=
      Nat.exists_eq_add_one.mpr (by omega)
    rw [write_of_room hopen (congrArg some hroom)]
    simp only [cutAt, Transcript.mk.injEq, List.length_append, List.length_singleton, true_and,
      and_true]
    have hall : (t.written ++ [record]).take limit = t.written ++ [record] :=
      List.take_of_length_le (by simp; omega)
    refine ⟨congrArg some (by omega), ?_, by omega, decide_eq_decide.mpr (by omega)⟩
    rw [hall, List.take_of_length_le (by omega)]
  · have hopen := failed_cutAt_of_le heq.le
    have hfull : (t.cutAt limit).room = some 0 := congrArg some (by omega)
    rw [write_of_full hopen hfull]
    simp only [cutAt, Transcript.mk.injEq, List.length_append, List.length_singleton, true_and,
      and_true]
    refine ⟨congrArg some (by omega), ?_, by omega, (decide_eq_true (by omega)).symm⟩
    rw [List.take_append_of_le_length (by omega)]
  · have hfailed : (t.cutAt limit).failed = true := by
      rw [cutAt, decide_eq_true_iff]
      exact hgt
    rw [write_of_failed hfailed]
    simp only [cutAt, Transcript.mk.injEq, List.length_append, List.length_singleton, true_and,
      and_true]
    refine ⟨congrArg some (by omega), ?_, by omega, decide_eq_decide.mpr (by omega)⟩
    rw [List.take_append_of_le_length (by omega)]

/-- The second transcript is the first one, cut off. -/
def Cut (limit : Nat) (t u : Transcript) : Prop :=
  t.Whole ∧ u = t.cutAt limit

theorem cut_lockstep (limit : Nat) : Lockstep (fun _ => True) (Cut limit) where
  announced := by
    rintro t _ ⟨_, rfl⟩
    rfl
  finished := by
    rintro t _ ⟨_, rfl⟩
    rfl
  elapsed := by
    rintro t _ ⟨_, rfl⟩
    rfl
  reading := fun _ => trivial
  announce := by
    rintro t _ announced ⟨h, rfl⟩
    exact ⟨⟨h.room, h.failed, h.attempts⟩, rfl⟩
  finish := by
    rintro t _ finished ⟨h, rfl⟩
    exact ⟨⟨h.room, h.failed, h.attempts⟩, rfl⟩
  noteReading := by
    rintro t _ ⟨h, rfl⟩
    exact ⟨⟨h.room, h.failed, h.attempts⟩, rfl⟩
  stepLine := by
    rintro t _ step line _ ⟨h, rfl⟩
    exact ⟨h.write _, write_cutAt h limit _⟩

theorem Cut.exhibit (h : Cut limit t u) (e : Exhibit) : Cut limit (e.exhibit t) (e.exhibit u) := by
  cases e with
  | message m =>
    obtain ⟨hwhole, rfl⟩ := h
    unfold Exhibit.exhibit showMessage
    dsimp only [cutAt]
    split
    · exact ⟨hwhole.write _, write_cutAt hwhole limit _⟩
    · exact ⟨hwhole, rfl⟩
  | batch stepOf b =>
    have hfits : Fits (fun _ => True) b :=
      ⟨fun _ _ => trivial, fun _ _ => trivial, fun _ _ => trivial, fun _ _ _ _ => trivial⟩
    exact (cut_lockstep limit).showBatch hfits h

theorem Cut.exhibitAll (h : Cut limit t u) (exhibits : List Exhibit) :
    Cut limit (exhibitAll exhibits t) (exhibitAll exhibits u) :=
  List.foldl_rel h fun e _ _ _ ht => ht.exhibit e

end Cutting

/-- With a writer that accepts so many writes and fails at every later one, just these are written of
what would be written otherwise. The first write that fails is the last one that is tried, and the same
steps count as named and as ended. -/
theorem written_until_failure (color : Bool) (limit : Nat) (readings : List String)
    (exhibits : List Exhibit) :
    let whole := exhibitAll exhibits { color, readings }
    let cut := exhibitAll exhibits { color, readings, room := some limit }
    cut.written = whole.written.take limit ∧ cut.text = String.join (whole.written.take limit) ∧
    whole.failed = false ∧ whole.attempts = whole.written.length ∧
    cut.attempts = min whole.attempts (limit + 1) ∧ (cut.failed = true ↔ limit < whole.attempts) ∧
    cut.announced = whole.announced ∧ cut.finished = whole.finished := by
  intro whole cut
  have hstart : Cut limit { color, readings } { color, readings, room := some limit } :=
    ⟨⟨rfl, rfl, rfl⟩, by simp [cutAt]⟩
  obtain ⟨hwhole, hcut⟩ : Cut limit whole cut := hstart.exhibitAll exhibits
  rw [hcut, hwhole.attempts]
  exact ⟨rfl, rfl, hwhole.failed, rfl, rfl, decide_eq_true_iff, rfl, rfl⟩

end BuildProgress.Transcript
