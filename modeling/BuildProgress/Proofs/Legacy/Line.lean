import BuildProgress.Proofs.Legacy.Telling
import BuildProgress.Proofs.Text.Digits

/-!
# The forms of the legacy builder's lines

`Spells` is the form of a step line, said as a text made of pieces. A text is read as a step line if
it has this form, which it has in one way only. Any other text leaves the parser in its step.
-/

namespace BuildProgress.Legacy

set_option autoImplicit false

open BuildProgress.Text

variable {text digits count name rest run : List Char} {line : StepLine} {step : Nat}

/-- One ASCII digit or more. -/
def IsNumber (run : List Char) : Prop :=
  run ≠ [] ∧ ∀ c ∈ run, '0' ≤ c ∧ c ≤ '9'

/-- The text is `Step <digits>/<count> : <name>`. -/
structure Spells (text digits count name : List Char) : Prop where
  text : text = "Step ".toList ++ (digits ++ ("/".toList ++ (count ++ (" : ".toList ++ name))))
  digits : IsNumber digits
  count : IsNumber count
  name : '\n' ∉ name

/-- The text is the mark, twelve hexadecimal digits and a line feed. -/
def Marked (mark : String) (text : List Char) : Prop :=
  ∃ run : List Char, text = mark.toList ++ (run ++ ['\n']) ∧ run.length = 12 ∧
    ∀ c ∈ run, ('0' ≤ c ∧ c ≤ '9') ∨ ('a' ≤ c ∧ c ≤ 'f')

section Pieces

theorem isDigit_iff (c : Char) : isDigit c = true ↔ '0' ≤ c ∧ c ≤ '9' := by
  simp [isDigit]

theorem isHexDigit_iff (c : Char) :
    isHexDigit c = true ↔ ('0' ≤ c ∧ c ≤ '9') ∨ ('a' ≤ c ∧ c ≤ 'f') := by
  simp [isHexDigit, isDigit_iff]

theorem isNumber_iff : IsNumber run ↔ run ≠ [] ∧ ∀ c ∈ run, isDigit c = true := by
  simp only [IsNumber, isDigit_iff]

theorem after?_eq_some_iff {mark : String} : after? mark text = some rest ↔
    text = mark.toList ++ rest := by
  rw [after?, List.isPrefixOf?_eq_some_iff_append_eq, eq_comm]

theorem after?_append (mark : String) (rest : List Char) :
    after? mark (mark.toList ++ rest) = some rest :=
  after?_eq_some_iff.mpr rfl

theorem digits?_eq_some_iff : digits? text = some (run, rest) ↔
    text = run ++ rest ∧ IsNumber run ∧ StopsAt isDigit rest := by
  simp only [digits?, Option.ite_none_left_eq_some, Option.some.injEq, Prod.mk.injEq,
    List.isEmpty_iff, isNumber_iff]
  rw [split_eq_iff]
  constructor
  · rintro ⟨hsome, htext, hrun, hrest⟩
    rw [htext, takeWhile_run hrun hrest] at hsome
    exact ⟨htext, ⟨hsome, hrun⟩, hrest⟩
  · rintro ⟨htext, ⟨hsome, hrun⟩, hrest⟩
    refine ⟨?_, htext, hrun, hrest⟩
    rwa [htext, takeWhile_run hrun hrest]

theorem isMarked_iff {mark : String} : isMarked mark text = true ↔ Marked mark text := by
  unfold isMarked
  cases hafter : after? mark text with
  | none =>
    refine iff_of_false nofun ?_
    rintro ⟨run, htext, _⟩
    rw [after?_eq_some_iff.mpr htext] at hafter
    cases hafter
  | some rest =>
    have htext := after?_eq_some_iff.mp hafter
    simp only [Bool.and_eq_true, beq_iff_eq]
    constructor
    · rintro ⟨hlength, hend⟩
      obtain ⟨hsplit, hrun, _⟩ := split_eq_iff.mp ⟨rfl, hend⟩
      refine ⟨rest.takeWhile isHexDigit, by rw [htext, ← hsplit], hlength, fun c hc => ?_⟩
      exact (isHexDigit_iff c).mp (hrun c hc)
    · rintro ⟨run, htext', hlength, hrun⟩
      obtain rfl : rest = run ++ ['\n'] := List.append_cancel_left (htext.symm.trans htext')
      have hhex : ∀ c ∈ run, isHexDigit c = true := fun c hc => (isHexDigit_iff c).mpr (hrun c hc)
      have hstops : StopsAt isHexDigit ['\n'] := stopsAt_cons.mpr rfl
      rw [takeWhile_run hhex hstops, dropWhile_run hhex hstops]
      exact ⟨hlength, rfl⟩

end Pieces

/-- A step line is read if the text has its form, and in no other case. -/
theorem read?_eq_some_iff :
    StepLine.read? text = some line ↔ ∃ count, Spells text line.digits count line.name := by
  constructor
  · intro h
    obtain ⟨_, hstep, h⟩ := Option.bind_eq_some_iff.mp h
    obtain ⟨⟨digits, _⟩, hdigits, h⟩ := Option.bind_eq_some_iff.mp h
    obtain ⟨_, hafter, h⟩ := Option.bind_eq_some_iff.mp h
    obtain ⟨⟨count, _⟩, hcount, h⟩ := Option.bind_eq_some_iff.mp h
    obtain ⟨name, hname, h⟩ := Option.bind_eq_some_iff.mp h
    obtain ⟨hline, heq⟩ := Option.ite_none_left_eq_some.mp h
    obtain rfl := Option.some.inj heq
    obtain rfl := after?_eq_some_iff.mp hstep
    obtain ⟨rfl, isNumber, _⟩ := digits?_eq_some_iff.mp hdigits
    obtain rfl := after?_eq_some_iff.mp hafter
    obtain ⟨rfl, isCount, _⟩ := digits?_eq_some_iff.mp hcount
    obtain rfl := after?_eq_some_iff.mp hname
    exact ⟨count, rfl, isNumber, isCount, hline⟩
  · rintro ⟨count, rfl, isNumber, isCount, hline⟩
    have hdigits (rest : List Char) :
        digits? (line.digits ++ ("/".toList ++ rest)) = some (line.digits, "/".toList ++ rest) :=
      digits?_eq_some_iff.mpr ⟨rfl, isNumber, stopsAt_cons.mpr rfl⟩
    have hcount (rest : List Char) :
        digits? (count ++ (" : ".toList ++ rest)) = some (count, " : ".toList ++ rest) :=
      digits?_eq_some_iff.mpr ⟨rfl, isCount, stopsAt_cons.mpr rfl⟩
    rw [StepLine.read?]
    simp only [Option.bind_eq_bind, after?_append, hdigits, hcount, Option.bind_some]
    exact if_neg hline

theorem Spells.read (h : Spells text digits count name) :
    StepLine.read? text = some { digits, name } :=
  read?_eq_some_iff.mpr ⟨count, h⟩

theorem exists_read_iff : (∃ line, StepLine.read? text = some line) ↔
    ∃ digits count name, Spells text digits count name := by
  constructor
  · rintro ⟨line, hread⟩
    obtain ⟨count, hspells⟩ := read?_eq_some_iff.mp hread
    exact ⟨_, count, _, hspells⟩
  · rintro ⟨_, _, _, hspells⟩
    exact ⟨_, hspells.read⟩

theorem Spells.unique {digits' count' name' : List Char} (h : Spells text digits count name)
    (h' : Spells text digits' count' name') : digits = digits' ∧ count = count' ∧ name = name' := by
  have hline := Option.some.inj (h.read.symm.trans h'.read)
  obtain ⟨rfl, rfl⟩ := StepLine.mk.inj hline
  have hrest := List.append_cancel_left (h.text.symm.trans h'.text)
  have hcount := List.append_cancel_left (List.append_cancel_left hrest)
  exact ⟨rfl, List.append_cancel_right hcount, rfl⟩

theorem IsNumber.not_mem_lineFeed (h : IsNumber run) : '\n' ∉ run :=
  fun hin => absurd (h.2 _ hin) (by decide)

theorem Spells.not_mem_lineFeed (h : Spells text digits count name) : '\n' ∉ text := by
  have hmarks : '\n' ∉ "Step ".toList ∧ '\n' ∉ "/".toList ∧ '\n' ∉ " : ".toList := by decide
  rw [h.text]
  simp only [List.mem_append, not_or]
  exact ⟨hmarks.1, h.digits.not_mem_lineFeed, hmarks.2.1, h.count.not_mem_lineFeed, hmarks.2.2, h.name⟩

section Numbers

theorem readDigits?_eq (h : IsNumber run) : readDigits? run =
    if digitsValue run ≤ maxUnsigned then some (digitsValue run) else none := by
  obtain ⟨hsome, hdigits⟩ := isNumber_iff.mp h
  exact readDigits?_run hsome hdigits

/-- A number with some zeros in front. -/
def padded (zeros n : Nat) : List Char :=
  List.replicate zeros '0' ++ decimal n

theorem isNumber_padded (zeros n : Nat) : IsNumber (padded zeros n) := by
  refine isNumber_iff.mpr ⟨?_, fun c hc => ?_⟩
  · exact List.append_ne_nil_of_right_ne_nil _ (decimal_ne_nil n)
  · rcases List.mem_append.mp hc with hc | hc
    · rw [List.eq_of_mem_replicate hc]
      rfl
    · exact isDigit_of_mem_decimal hc

theorem digitsValue_padded (zeros n : Nat) : digitsValue (padded zeros n) = n := by
  rw [padded, digitsValue_zeros, digitsValue_decimal]

end Numbers

namespace Parser

variable {p : Parser} {m : Message}

/-- The message ends the current step and starts this one. Whatever else it tells is told after that
and neither starts nor ends a step. -/
def Announces (p : Parser) (m : Message) (step : Nat) (name : String) : Prop :=
  ∃ more p', Tells Prod.mk (onMessage · m) p (p.closing ++ .stepStarting step name :: more)
    (verdict m, p') ∧ p'.step = step ∧ ∀ event ∈ more, Steady event

/-- The message leaves the parser in its step. -/
def Stays (p : Parser) (m : Message) : Prop :=
  ∃ events p', Tells Prod.mk (onMessage · m) p events (verdict m, p') ∧ p'.step = p.step ∧
    p'.transfers = p.transfers ∧ ∀ event ∈ events, Steady event

theorem reports_steady (p : Parser) (m : Message) :
    ∀ event ∈ p.progressEvents m ++ failureEvents m, Steady event := by
  refine List.forall_mem_append.mpr ⟨?_, failureEvents_steady m⟩
  unfold progressEvents progressEvent
  split
  · split <;> exact List.forall_mem_singleton.mpr ⟨nofun, nofun⟩
  · exact List.forall_mem_nil _

/-- A step line is read as one, in every state. -/
theorem Reads.of_line {text : String} {events : List Event} {p' : Parser} (h : Reads p text events p')
    (hread : StepLine.read? text.toList = some line) : ∃ step,
      readDigits? line.digits = some step ∧ p' = p.enter step line.name ∧
      events = p.closing ++ [.stepStarting step (String.ofList line.name)] := by
  cases h with
  | line read fits =>
    obtain rfl := Option.some.inj (read.symm.trans hread)
    exact ⟨_, fits, rfl, rfl⟩
  | leftOut unread _ => cases unread.symm.trans hread
  | output unread _ _ => cases unread.symm.trans hread
  | empty hempty =>
    rw [hempty] at hread
    cases hread

theorem announces (h : Spells m.stream.toList digits count name)
    (hfits : digitsValue digits ≤ maxUnsigned) :
    Announces p m (digitsValue digits) (String.ofList name) := by
  have hvalue : readDigits? digits = some (digitsValue digits) := by
    rw [readDigits?_eq h.digits, if_pos hfits]
  rcases onMessage_tells p m with ⟨line, hread, hlarge, _⟩ | ⟨text, p₁, imageId, hreads, htells⟩
  · obtain rfl := Option.some.inj (hread.symm.trans h.read)
    cases hvalue.symm.trans hlarge
  · obtain ⟨step, hstep, rfl, rfl⟩ := hreads.of_line h.read
    obtain rfl := Option.some.inj (hstep.symm.trans hvalue)
    rw [List.append_assoc] at htells
    exact ⟨_, { p.enter (digitsValue digits) name with imageId }, htells, rfl, reports_steady _ m⟩

theorem refused (h : Spells m.stream.toList digits count name)
    (hlarge : maxUnsigned < digitsValue digits) (handler : Handler) (d : Delivery) :
    onMessage handler m (p, d) = (.error (.stepNumberTooLarge (String.ofList digits)), (p, d)) := by
  have hnone : readDigits? digits = none := by
    rw [readDigits?_eq h.digits, if_neg (Nat.not_le.mpr hlarge)]
  rcases onMessage_tells p m with ⟨line, hread, _, htells⟩ | ⟨text, p₁, imageId, hreads, _⟩
  · obtain rfl := Option.some.inj (hread.symm.trans h.read)
    exact htells.run_of_silent handler d
  · obtain ⟨step, hstep, _⟩ := hreads.of_line h.read
    cases hnone.symm.trans hstep

theorem stays (h : ¬ ∃ digits count name, Spells m.stream.toList digits count name) : Stays p m := by
  rw [← exists_read_iff] at h
  rcases onMessage_tells p m with ⟨line, hread, _⟩ | ⟨text, p₁, imageId, hreads, htells⟩
  · exact absurd ⟨line, hread⟩ h
  · cases hreads with
    | line read _ => exact absurd ⟨_, read⟩ h
    | leftOut _ _ =>
      exact ⟨_, { p.afterLeftOut m.stream.toList with imageId }, htells, afterLeftOut_step _ _,
        afterLeftOut_transfers _ _, reports_steady _ m⟩
    | output _ _ _ =>
      refine ⟨_, { p with shown := true, imageId }, htells, rfl, rfl, ?_⟩
      exact List.forall_mem_cons.mpr ⟨⟨nofun, nofun⟩, reports_steady _ m⟩
    | empty _ => exact ⟨_, { p with imageId }, htells, rfl, rfl, reports_steady p m⟩

/-- The text of a message is read as a step line if it has the form of one, and then in one way only.
The step that is announced has the number and the name that stand there, with any zeros in front of
the number; if the number does not fit, nothing happens at all. Any other text, such as one that
holds a line feed, leaves the parser in its step. -/
theorem step_line_read (p : Parser) (m : Message) :
    let text := m.stream.toList
    ((∃ line, StepLine.read? text = some line) ↔
      ∃ digits count name, Spells text digits count name) ∧
    (∀ digits count name, Spells text digits count name →
      (∀ digits' count' name', Spells text digits' count' name' →
        digits = digits' ∧ count = count' ∧ name = name') ∧
      (digitsValue digits ≤ maxUnsigned →
        Announces p m (digitsValue digits) (String.ofList name)) ∧
      (maxUnsigned < digitsValue digits → ∀ handler d, onMessage handler m (p, d) =
        (.error (.stepNumberTooLarge (String.ofList digits)), (p, d)))) ∧
    (∀ zeros n zeros' count name, n ≤ maxUnsigned → '\n' ∉ name →
      text = "Step ".toList ++ (padded zeros n ++ ("/".toList ++ (padded zeros' count ++
        (" : ".toList ++ name)))) → Announces p m n (String.ofList name)) ∧
    ((¬ ∃ digits count name, Spells text digits count name) → Stays p m) ∧
    ('\n' ∈ text → Stays p m) := by
  intro text
  refine ⟨exists_read_iff, fun digits count name h => ⟨fun _ _ _ => h.unique, announces h, refused h⟩,
    fun zeros n zeros' count name hfits hname htext => ?_, stays, fun hfeed => stays ?_⟩
  · have h : Spells text (padded zeros n) (padded zeros' count) name :=
      ⟨htext, isNumber_padded zeros n, isNumber_padded zeros' count, hname⟩
    have hannounces := announces (p := p) h (by rwa [digitsValue_padded])
    rwa [digitsValue_padded] at hannounces
  · rintro ⟨_, _, _, h⟩
    exact h.not_mem_lineFeed hfeed

/-- A name may hold what looks like the rest of a step line, and digits of other scripts do not
count. -/
example : StepLine.read? "Step 007/1 : RUN echo 2/3 : x".toList =
    some { digits := "007".toList, name := "RUN echo 2/3 : x".toList } ∧
      StepLine.read? "Step \u0663/\u0664 : hello".toList = none := by
  decide

end Parser

end BuildProgress.Legacy
