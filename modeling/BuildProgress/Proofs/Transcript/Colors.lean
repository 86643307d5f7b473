import BuildProgress.Proofs.Text.Digits
import BuildProgress.Proofs.Text.Lines
import BuildProgress.Proofs.Transcript.Lockstep

/-!
# Colours are for the eye

A coloured transcript says what one without colours says. If no text that is shown has an escape
character of its own, then what is left of the coloured transcript without its escape sequences is the
other one: record by record, with the same writes tried and the same steps named and ended.
-/

namespace BuildProgress

set_option autoImplicit false

open BuildProgress.Text

namespace Style

/-- What follows an escape sequence that a text begins with: the escape character and a bracket, and
all up to the next `m`. -/
def afterSequence? : List Char → Option (List Char)
  | '\x1b' :: '[' :: rest => (rest.dropWhile (· ≠ 'm')).tail?
  | _ => none

theorem afterSequence?_length {text rest : List Char} (h : afterSequence? text = some rest) :
    rest.length < text.length := by
  unfold afterSequence? at h
  split at h
  · rename_i inner
    have hdrop : (inner.dropWhile (· ≠ 'm')).length ≤ inner.length := List.length_dropWhile_le _ _
    cases hrest : inner.dropWhile (· ≠ 'm') with
    | nil =>
      rw [hrest] at h
      cases h
    | cons c after =>
      rw [hrest] at h hdrop
      cases h
      simp only [List.length_cons] at hdrop ⊢
      omega
  · cases h

/-- A text without its escape sequences. -/
def strip : List Char → List Char
  | [] => []
  | c :: rest =>
    match _h : afterSequence? (c :: rest) with
    | some after => strip after
    | none => c :: strip rest
termination_by text => text.length
decreasing_by
  · exact afterSequence?_length _h
  · exact Nat.lt_succ_self _

theorem strip_nil : strip [] = [] := by
  rw [strip]

theorem strip_sequence {text after : List Char} (h : afterSequence? text = some after) :
    strip text = strip after := by
  cases text with
  | nil => cases h
  | cons c rest =>
    rw [strip]
    split
    · rename_i h'
      rw [h] at h'
      cases h'
      rfl
    · rename_i h'
      rw [h] at h'
      cases h'

theorem strip_cons {c : Char} (hc : c ≠ '\x1b') (rest : List Char) :
    strip (c :: rest) = c :: strip rest := by
  have hnone : afterSequence? (c :: rest) = none := by
    unfold afterSequence?
    split
    · rename_i heq
      exact absurd (List.cons.inj heq).1 hc
    · rfl
  rw [strip]
  split
  · rename_i h
    rw [hnone] at h
    cases h
  · rfl

/-- What is left of the styled text without its escape sequences is the plain one, whatever comes after
it. -/
def Leaves (styled plain : List Char) : Prop :=
  ∀ rest, strip (styled ++ rest) = plain ++ strip rest

namespace Leaves

variable {styled plain styled' plain' : List Char}

theorem nil : Leaves [] [] :=
  fun _ => rfl

theorem append (h : Leaves styled plain) (h' : Leaves styled' plain') :
    Leaves (styled ++ styled') (plain ++ plain') := by
  intro rest
  rw [List.append_assoc, h, h', List.append_assoc]

theorem of_clear {text : List Char} (h : '\x1b' ∉ text) : Leaves text text := by
  intro rest
  induction text with
  | nil => rfl
  | cons c text ih =>
    rw [List.mem_cons, not_or] at h
    rw [List.cons_append, strip_cons (Ne.symm h.1), ih h.2, List.cons_append]

theorem start (s : Style) : Leaves s.start [] := by
  intro rest
  have hafter : afterSequence? (s.start ++ rest) = some rest := by
    cases s <;> rfl
  exact strip_sequence hafter

theorem reset : Leaves Style.reset [] :=
  fun _ => strip_sequence rfl

theorem strip_eq (h : Leaves styled plain) : strip styled = plain := by
  have hend := h []
  rwa [List.append_nil, strip_nil, List.append_nil] at hend

end Leaves

theorem renew_of_clear {text : List Char} (h : '\x1b' ∉ text) (again : List Char) :
    renew again text = text := by
  induction text with
  | nil => rfl
  | cons c text ih =>
    rw [List.mem_cons, not_or] at h
    unfold renew
    split
    · rename_i heq
      exact absurd (List.cons.inj heq).1.symm h.1
    · rename_i heq
      obtain ⟨rfl, rfl⟩ := List.cons.inj heq
      rw [ih h.2]
    · rename_i heq
      cases heq

theorem Leaves.apply (s : Style) {text : List Char} (h : '\x1b' ∉ text) :
    Leaves (s.apply text) text := by
  unfold Style.apply
  rw [renew_of_clear h]
  have hleaves := ((start s).append (of_clear h)).append reset
  rwa [List.nil_append, List.append_nil] at hleaves

end Style

/-- A text without its escape sequences. -/
def unstyled (text : String) : String :=
  String.ofList (Style.strip text.toList)

/-- A coloured text and the one without colours that is left of it. -/
def Dyes (styled plain : String) : Prop :=
  Style.Leaves styled.toList plain.toList

namespace Dyes

variable {styled plain styled' plain' text : String}

theorem append (h : Dyes styled plain) (h' : Dyes styled' plain') :
    Dyes (styled ++ styled') (plain ++ plain') := by
  unfold Dyes
  rw [String.toList_append, String.toList_append]
  exact Style.Leaves.append h h'

theorem of_clear (h : '\x1b' ∉ text.toList) : Dyes text text :=
  Style.Leaves.of_clear h

theorem paint (s : Style) (h : '\x1b' ∉ text.toList) :
    Dyes (paint true s text) (paint false s text) := by
  unfold Dyes BuildProgress.paint
  rw [if_pos rfl, if_neg Bool.false_ne_true, String.toList_ofList]
  exact .apply s h

theorem unstyled_eq (h : Dyes styled plain) : unstyled styled = plain := by
  rw [unstyled, Style.Leaves.strip_eq h, String.ofList_toList]

theorem join {styled plain : List String} (h : List.Forall₂ Dyes styled plain) :
    Dyes (String.join styled) (String.join plain) := by
  induction h with
  | nil => exact .nil
  | cons hfirst _ ih =>
    rw [String.join_cons, String.join_cons]
    exact hfirst.append ih

end Dyes

theorem escape_notMem_decimal (n : Nat) : '\x1b' ∉ decimal n := by
  intro hin
  have hdigit := isDigit_of_mem_decimal hin
  revert hdigit
  decide

theorem escape_notMem_signedDecimal (n : Int) : '\x1b' ∉ signedDecimal n := by
  unfold signedDecimal
  split
  · simp [escape_notMem_decimal]
  · exact escape_notMem_decimal _

namespace Transcript

theorem escape_notMem_countText (progress : Option ByteCount) :
    '\x1b' ∉ (countText progress).toList := by
  unfold countText
  split
  · split
    · simp [escape_notMem_signedDecimal]
    · simp
  · simp

/-- The texts that are shown of a message or a batch. -/
def Exhibit.texts : Exhibit → List (List Char)
  | message m =>
    [m.stream.toList, m.status.toList, m.id.toList] ++ m.failure?.toList.map String.toList
  | batch _ b =>
    b.vertices.flatMap (fun v => [v.name.toList, v.error.toList]) ++
      b.statuses.map (·.id.toList) ++ b.logs.map (Utf8.decodeLossy ·.data)

theorem escape_notMem_progressLine {m : Message} (hid : '\x1b' ∉ m.id.toList)
    (hstatus : '\x1b' ∉ m.status.toList) : '\x1b' ∉ (progressLine m).toList := by
  unfold progressLine
  split <;> simp [hid, hstatus, escape_notMem_countText]

/-- A message gives a record in both transcripts, or in none. -/
theorem messageRecord?_dyes {m : Message}
    (h : ∀ text ∈ (Exhibit.message m).texts, '\x1b' ∉ text) :
    (messageRecord? true m = none ∧ messageRecord? false m = none) ∨
      ∃ styled plain, messageRecord? true m = some styled ∧
        messageRecord? false m = some plain ∧ Dyes styled plain := by
  simp only [Exhibit.texts, List.mem_append, List.mem_cons, List.not_mem_nil, or_false,
    List.mem_map, Option.mem_toList] at h
  unfold messageRecord?
  cases hfailure : m.failure? with
  | some failure =>
    have hclear : '\x1b' ∉ ("ERROR: " ++ failure ++ "\n").toList := by
      simpa using h _ (.inr ⟨failure, hfailure, rfl⟩)
    exact .inr ⟨_, _, rfl, rfl, .paint .failure hclear⟩
  | none =>
    dsimp only
    by_cases hstream : m.stream ≠ ""
    · rw [if_pos hstream, if_pos hstream]
      exact .inr ⟨_, _, rfl, rfl, .of_clear (h _ (.inl (.inl rfl)))⟩
    · rw [if_neg hstream, if_neg hstream]
      by_cases hstatus : m.status = ""
      · rw [if_pos hstatus, if_pos hstatus]
        exact .inl ⟨rfl, rfl⟩
      · rw [if_neg hstatus, if_neg hstatus]
        have hclear := escape_notMem_progressLine (h _ (.inl (.inr (.inr rfl))))
          (h _ (.inl (.inr (.inl rfl))))
        exact .inr ⟨_, _, rfl, rfl, .paint .dimmed hclear⟩

/-- A text without an escape character. -/
def Clear (text : List Char) : Prop :=
  '\x1b' ∉ text

theorem Line.dyes {line : Line} (h : line.Fits Clear) :
    Dyes (line.text true) (line.text false) := by
  have hblank : Dyes " " " " := .of_clear (by simp)
  cases line with
  | name text => exact .paint .bold h
  | cached => exact .paint .cyan (by simp)
  | failure message =>
    have hclear : '\x1b' ∉ message.toList := h
    exact .paint .red (by simpa using hclear)
  | done elapsed =>
    have hword : Dyes (paint true .green "DONE") (paint false .green "DONE") :=
      .paint .green (by simp)
    exact (hword.append hblank).append (.of_clear h)
  | counter id =>
    have hclear : '\x1b' ∉ id.toList := h
    exact (Dyes.of_clear hclear).append (.of_clear (by simp))
  | output elapsed text =>
    obtain ⟨helapsed, hclear⟩ : '\x1b' ∉ elapsed.toList ∧ '\x1b' ∉ text := h
    exact ((Dyes.paint .dimmed helapsed).append hblank).append (.of_clear (by simpa using hclear))

theorem stepRecord_dyes (step : Nat) {styled plain : String} (h : Dyes styled plain) :
    Dyes (stepRecord step styled) (stepRecord step plain) := by
  have hstep : '\x1b' ∉ (toString step).toList := by
    have hdigits : toString step = String.ofList (decimal step) := rfl
    rw [hdigits, String.toList_ofList]
    exact escape_notMem_decimal step
  have hbefore : Dyes ("#" ++ toString step ++ " ") ("#" ++ toString step ++ " ") :=
    .of_clear (by simpa using hstep)
  exact (hbefore.append h).append (.of_clear (by simp))

/-- The same transcript without colours and with them. -/
structure Colored (t u : Transcript) : Prop where
  plain : t.color = false
  colored : u.color = true
  clear : ∀ reading ∈ t.readings, '\x1b' ∉ reading.toList
  readings : u.readings = t.readings
  room : u.room = t.room
  attempts : u.attempts = t.attempts
  failed : u.failed = t.failed
  announced : u.announced = t.announced
  finished : u.finished = t.finished
  written : List.Forall₂ Dyes u.written t.written

namespace Colored

variable {t u : Transcript}

theorem start (room : Option Nat) {readings : List String}
    (hreadings : ∀ reading ∈ readings, '\x1b' ∉ reading.toList) :
    Colored { color := false, room, readings } { color := true, room, readings } where
  plain := rfl
  colored := rfl
  clear := hreadings
  readings := rfl
  room := rfl
  attempts := rfl
  failed := rfl
  announced := rfl
  finished := rfl
  written := .nil

theorem write (h : Colored t u) {styled plain : String} (hdyes : Dyes styled plain) :
    Colored (t.write plain) (u.write styled) := by
  have hwritten : List.Forall₂ Dyes (u.written ++ [styled]) (t.written ++ [plain]) :=
    List.rel_append h.written (.cons hdyes .nil)
  have hattempts : u.attempts + 1 = t.attempts + 1 := by
    rw [h.attempts]
  unfold Transcript.write
  rw [h.failed, h.room]
  split
  · exact h
  · split
    · exact { h with attempts := hattempts, failed := rfl, room := rfl, written := hwritten }
    · exact { h with attempts := hattempts, failed := rfl, room := rfl }
    · exact { h with attempts := hattempts, failed := rfl, room := rfl, written := hwritten }

theorem elapsed_eq (h : Colored t u) : u.elapsed = t.elapsed := by
  rw [elapsed, h.readings, elapsed]

theorem clear_elapsed (h : Colored t u) : Clear t.elapsed.toList := by
  have hclear := h.clear
  unfold elapsed Clear
  cases hreadings : t.readings with
  | nil => decide
  | cons reading later =>
    rw [hreadings] at hclear
    exact hclear reading List.mem_cons_self

theorem lockstep : Lockstep Clear Colored where
  announced := Colored.announced
  finished := Colored.finished
  elapsed := elapsed_eq
  reading := clear_elapsed
  announce := fun _ h => { h with announced := rfl }
  finish := fun _ h => { h with finished := rfl }
  noteReading := fun h => { h with
    clear := fun reading hin => h.clear reading (List.mem_of_mem_tail hin)
    readings := congrArg List.tail h.readings }
  stepLine := by
    intro t u step line hline h
    rw [h.plain, h.colored]
    exact h.write (stepRecord_dyes step (Line.dyes hline))

theorem showMessage (h : Colored t u) {m : Message}
    (hclear : ∀ text ∈ (Exhibit.message m).texts, '\x1b' ∉ text) :
    Colored (t.showMessage m) (u.showMessage m) := by
  unfold Transcript.showMessage
  rw [h.plain, h.colored]
  rcases messageRecord?_dyes hclear with ⟨hcolored, hplain⟩ | ⟨styled, plain, hcolored, hplain, hdyes⟩
  · rw [hcolored, hplain]
    exact h
  · rw [hcolored, hplain]
    exact h.write hdyes

theorem fits_of_texts {stepOf : String → Option Nat} {b : Batch}
    (h : ∀ text ∈ (Exhibit.batch stepOf b).texts, '\x1b' ∉ text) : Fits Clear b := by
  simp only [Exhibit.texts, List.mem_append, List.mem_flatMap, List.mem_map, List.mem_cons,
    List.not_mem_nil, or_false] at h
  constructor
  · exact fun v hv => h _ (.inl (.inl ⟨v, hv, .inl rfl⟩))
  · exact fun v hv => h _ (.inl (.inl ⟨v, hv, .inr rfl⟩))
  · exact fun s hs => h _ (.inl (.inr ⟨s, hs, rfl⟩))
  · intro l hl line hline hin
    exact h _ (.inr ⟨l, hl, rfl⟩) (mem_of_mem_lines hline hin)

theorem exhibit (h : Colored t u) {e : Exhibit} (hclear : ∀ text ∈ e.texts, '\x1b' ∉ text) :
    Colored (e.exhibit t) (e.exhibit u) := by
  cases e with
  | message m => exact h.showMessage hclear
  | batch stepOf b => exact lockstep.showBatch (fits_of_texts hclear) h

theorem exhibitAll (h : Colored t u) {exhibits : List Exhibit}
    (hclear : ∀ e ∈ exhibits, ∀ text ∈ e.texts, '\x1b' ∉ text) :
    Colored (exhibitAll exhibits t) (exhibitAll exhibits u) :=
  List.foldl_rel h fun e he _ _ ht => ht.exhibit (hclear e he)

end Colored

/-- Without its escape sequences a coloured transcript is the one without colours, if what is shown and
what the clock shows has no escape character of its own: record by record, with as many writes, and
with the same steps named and ended. It does not matter how many writes the writer accepts. -/
theorem unstyled_colored (room : Option Nat) (readings : List String) (exhibits : List Exhibit)
    (hreadings : ∀ reading ∈ readings, '\x1b' ∉ reading.toList)
    (hclear : ∀ e ∈ exhibits, ∀ text ∈ e.texts, '\x1b' ∉ text) :
    let plain := exhibitAll exhibits { color := false, room, readings }
    let colored := exhibitAll exhibits { color := true, room, readings }
    unstyled colored.text = plain.text ∧ colored.written.map unstyled = plain.written ∧
    colored.attempts = plain.attempts ∧ colored.failed = plain.failed ∧
    colored.announced = plain.announced ∧ colored.finished = plain.finished := by
  intro plain colored
  have hcolored : Colored plain colored := (Colored.start room hreadings).exhibitAll hclear
  have hrecords : List.Forall₂ (· = ·) (colored.written.map unstyled) plain.written :=
    List.forall₂_map_left_iff.mpr (hcolored.written.imp fun _ _ hdyes => hdyes.unstyled_eq)
  rw [List.forall₂_eq_eq_eq] at hrecords
  exact ⟨(Dyes.join hcolored.written).unstyled_eq, hrecords, hcolored.attempts, hcolored.failed,
    hcolored.announced, hcolored.finished⟩

/-- An error, and a step that ends while it is named and puts out something afterwards. -/
def errorAndStep : List Exhibit :=
  [.message { errorText := "boom" },
    .batch (fun _ => some 1)
      { vertices := [{ digest := "a", name := "[1/1] FROM m", completed := some ⟨1, 0⟩ }]
        logs := [{ vertex := "a", data := [0x68, 0x69] }] }]

theorem unstyled_colored_error_and_step :
    let colored :=
      (exhibitAll errorAndStep { color := true, readings := ["1.500", "1.750"] }).text
    (∀ e ∈ errorAndStep, ∀ text ∈ e.texts, '\x1b' ∉ text) ∧
      colored = "\x1b[1;31mERROR: boom\n\x1b[0m#1 \x1b[1m[1/1] FROM m\x1b[0m\n" ++
        "#1 \x1b[32mDONE\x1b[0m 1.500\n#1 \x1b[2m1.750\x1b[0m hi\n" ∧
      unstyled colored = "ERROR: boom\n#1 [1/1] FROM m\n#1 DONE 1.500\n#1 1.750 hi\n" := by
  intro colored
  have hclear : ∀ e ∈ errorAndStep, ∀ text ∈ e.texts, '\x1b' ∉ text := by decide +kernel
  refine ⟨hclear, by decide +kernel, ?_⟩
  rw [(unstyled_colored none ["1.500", "1.750"] errorAndStep (by decide +kernel) hclear).1]
  decide +kernel

end Transcript

end BuildProgress
