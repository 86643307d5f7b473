import BuildProgress.Proofs.Text.Ascii
import BuildProgress.Proofs.Text.Lines
import BuildProgress.Response

/-!
# The lines of a body

What a body holds depends on what its lines tell only: a line tells a message or a fault, and a line of
white space tells nothing. A carriage return at the end of a line does not matter.
-/

namespace BuildProgress

set_option autoImplicit false

open BuildProgress.Text

/-- A line of white space. -/
def BlankLine (line : List Char) : Prop :=
  ∀ c ∈ line, isBlank c = true ∧ c ≠ '\n'

theorem blankLine_nil : BlankLine [] := by
  simp [BlankLine]

theorem BlankLine.notMem {line : List Char} (h : BlankLine line) : '\n' ∉ line :=
  fun hmem => (h '\n' hmem).2 rfl

namespace Body

section Telling

/-- What a line tells; nothing if it is blank. -/
def told? (line : List UInt8) : Option (Except BuildError Message) :=
  match readLine line with
  | .error fault => some (.error fault)
  | .ok found => found.map .ok

/-- What is told up to the first fault. -/
def collect (atEnd : ReadingEnd) : List (Except BuildError Message) → Reading
  | [] => { ending := atEnd }
  | .error fault :: _ => { ending := .failed fault }
  | .ok message :: rest =>
    let later := collect atEnd rest
    { later with messages := message :: later.messages }

theorem readLines_eq_collect (atEnd : ReadingEnd) (lines : List (List UInt8)) :
    readLines atEnd lines = collect atEnd (lines.filterMap told?) := by
  induction lines with
  | nil => rfl
  | cons line rest ih =>
    rw [readLines, ih]
    cases hline : readLine line with
    | error fault => simp [told?, hline, collect]
    | ok found => cases found <;> simp [told?, hline, collect]

variable {atEnd : ReadingEnd}

theorem collect_clean {told : List (Except BuildError Message)}
    (h : (collect atEnd told).ending = .clean) : atEnd = .clean := by
  induction told with
  | nil => exact h
  | cons first rest ih =>
    cases first with
    | error fault => cases h
    | ok message => exact ih h

/-- What is told after messages without a fault. -/
theorem collect_append {first : List (Except BuildError Message)}
    (h : (collect .clean first).ending = .clean) (second : List (Except BuildError Message)) :
    collect atEnd (first ++ second) =
      { messages := (collect .clean first).messages ++ (collect atEnd second).messages,
        ending := (collect atEnd second).ending } := by
  induction first with
  | nil => rfl
  | cons told rest ih =>
    cases told with
    | error fault => cases h
    | ok message =>
      rw [List.cons_append, collect, ih h]
      rfl

end Telling

section Blank

theorem feed_notMem {line : List Char} (h : '\n' ∉ line) : feed ∉ Utf8.encode line :=
  Utf8.notMem_encode h rfl (by decide)

theorem readLine_blank {line : List Char} (h : BlankLine line) :
    readLine (Utf8.encode line) = .ok none := by
  rw [readLine, Utf8.decode?_encode]
  simp [trim_of_blank fun c hc => (h c hc).1]

theorem told?_blank {line : List Char} (h : BlankLine line) : told? (Utf8.encode line) = none := by
  rw [told?, readLine_blank h]
  rfl

theorem told?_nil : told? [] = none :=
  told?_blank blankLine_nil

def carriageReturn : UInt8 := 0x0D

theorem readLine_carriageReturn (line : List UInt8) :
    readLine (line ++ [carriageReturn]) = readLine line := by
  rw [readLine, Utf8.decode?_append_ascii line (by decide), readLine]
  cases Utf8.decode? line with
  | none => rfl
  | some chars =>
    have htrim : trim (chars ++ [Char.ofNat carriageReturn.toNat]) = trim chars :=
      trim_append_blank chars rfl
    rw [Option.map_some]
    simp only [htrim]

theorem told?_carriageReturn (line : List UInt8) : told? (line ++ [carriageReturn]) = told? line := by
  rw [told?, readLine_carriageReturn, told?]

end Blank

section Cutting

variable {ending : BodyEnd}

/-- What the lines of a body tell. -/
def told (body : Body) : List (Except BuildError Message) :=
  body.lines.filterMap told?

theorem read_eq_collect (body : Body) : body.read = collect body.endAfterLines body.told :=
  readLines_eq_collect _ _

/-- An unended line tells the same as an ended one where nothing follows. -/
theorem told_complete (bytes : List UInt8) : told ⟨bytes, .complete⟩ =
    (stretches feed bytes).1.filterMap told? ++ (told? (stretches feed bytes).2).toList := by
  rw [told, lines]
  dsimp only
  rw [List.filterMap_append]
  congr 1
  cases hrest : (stretches feed bytes).2 with
  | nil => simp [told?_nil]
  | cons byte rest => cases htold : told? (byte :: rest) <;> simp [htold]

/-- A body that is cut at a line feed tells what its parts tell. -/
theorem told_append_feed (before after : List UInt8) (ending : BodyEnd) :
    told ⟨before ++ feed :: after, ending⟩ = told ⟨before, .complete⟩ ++ told ⟨after, ending⟩ := by
  have hlines : (Body.mk (before ++ feed :: after) ending).lines = (stretches feed before).1 ++
      (stretches feed before).2 :: (Body.mk after ending).lines := by
    rw [lines, lines, stretches_append_stop]
    cases ending <;> simp
  rw [told_complete, told, hlines, List.filterMap_append, List.append_assoc]
  congr 1
  rw [told, List.filterMap_cons]
  cases told? (stretches feed before).2 <;> rfl

theorem told_blank {line : List Char} (h : BlankLine line) (ending : BodyEnd) :
    told ⟨Utf8.encode line, ending⟩ = [] := by
  have hstretches := stretches_of_notMem (feed_notMem h.notMem)
  have hlines : ∀ other ∈ (Body.mk (Utf8.encode line) ending).lines, other = Utf8.encode line := by
    intro other hother
    rw [lines] at hother
    simp only [hstretches] at hother
    cases ending with
    | complete =>
      simp only [List.nil_append] at hother
      split_ifs at hother
      · cases hother
      · exact List.mem_singleton.1 hother
    | broken | pending => cases hother
  refine List.filterMap_eq_nil_iff.2 fun other hother => ?_
  rw [hlines other hother, told?_blank h]

theorem told_carriageReturn (bytes : List UInt8) :
    told ⟨bytes ++ [carriageReturn], .complete⟩ = told ⟨bytes, .complete⟩ := by
  have hreturn : feed ∉ [carriageReturn] := by decide
  rw [told_complete, told_complete, stretches_append_of_notMem bytes hreturn, told?_carriageReturn]

end Cutting

end Body

end BuildProgress
