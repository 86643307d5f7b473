import BuildProgress.Proofs.Json.Printable
import BuildProgress.Proofs.Message
import BuildProgress.Proofs.Response.Lines
import BuildProgress.Proofs.Response.Reader

/-!
# Messages that are written are read

Messages are written one to a line, each as a compact object that says it, with blank lines anywhere
between them. A reader of such a body gives the messages in their order, counts them and comes to a clean
end.
-/

namespace BuildProgress

set_option autoImplicit false

open BuildProgress.Text

/-- The body with a line feed after each line. -/
def Body.ofLines (lines : List (List Char)) : Body :=
  { bytes := lines.flatMap fun line => Utf8.encode line ++ [feed] }

/-- Lines that say messages: a blank one, or a compact object that says the next message. -/
inductive Transcribes : List Message → List (List Char) → Prop where
  | nil : Transcribes [] []
  | blank {messages : List Message} {line : List Char} {lines : List (List Char)}
      (hline : BlankLine line) (hmore : Transcribes messages lines) :
      Transcribes messages (line :: lines)
  | message {m : Message} {messages : List Message} {members : List (String × Json)}
      {line : List Char} {lines : List (List Char)} (hsend : m.Sendable) (hsaid : m.SaidBy members)
      (hline : Json.Compact (Json.ofMembers members) line) (hmore : Transcribes messages lines) :
      Transcribes (m :: messages) (line :: lines)

namespace Body

theorem lines_ofLines {lines : List (List Char)} (h : ∀ line ∈ lines, '\n' ∉ line) :
    (ofLines lines).lines = lines.map Utf8.encode := by
  have hstretches : stretches feed (ofLines lines).bytes = (lines.map Utf8.encode, []) := by
    induction lines with
    | nil => rfl
    | cons line lines ih =>
      have hline := feed_notMem (h line List.mem_cons_self)
      have hmore := ih fun other hother => h other (List.mem_cons_of_mem _ hother)
      rw [ofLines] at hmore ⊢
      rw [List.flatMap_cons, List.append_assoc, List.singleton_append, stretches_line hline, hmore]
      rfl
  rw [Body.lines, hstretches]
  simp [ofLines]

theorem readLine_message {m : Message} {members : List (String × Json)} {line : List Char}
    (hsend : m.Sendable) (hsaid : m.SaidBy members)
    (hline : Json.Compact (Json.ofMembers members) line) :
    readLine (Utf8.encode line) = .ok (some m) := by
  have hread := hline.read?
  have htrim : trim line = line := by
    obtain ⟨middle, rfl⟩ := hline.braces
    have hends : StopsAt isBlank ('{' :: middle ++ ['}']).reverse := by
      rw [List.reverse_concat]
      exact stopsAt_cons.2 (by decide)
    exact trim_bare (stopsAt_cons.2 (by decide)) hends
  have hsome : line ≠ [] := by
    obtain ⟨middle, rfl⟩ := hline.braces
    exact List.cons_ne_nil _ _
  rw [readLine, Utf8.decode?_encode]
  simp [htrim, hread, hsaid.read hsend, hsome]

end Body

namespace Transcribes

variable {messages : List Message} {lines : List (List Char)}

theorem lineFeed_notMem (h : Transcribes messages lines) : ∀ line ∈ lines, '\n' ∉ line := by
  induction h with
  | nil => simp
  | blank hline _ ih =>
    rw [List.forall_mem_cons]
    exact ⟨hline.notMem, ih⟩
  | message _ _ hline _ ih =>
    rw [List.forall_mem_cons]
    exact ⟨hline.printable.notMem (by decide), ih⟩

theorem readLines (h : Transcribes messages lines) (atEnd : ReadingEnd) :
    Body.readLines atEnd (lines.map Utf8.encode) = { messages, ending := atEnd } := by
  induction h with
  | nil => rfl
  | blank hline _ ih => rw [List.map_cons, Body.readLines, Body.readLine_blank hline, ih]
  | message hsend hsaid hline _ ih =>
    rw [List.map_cons, Body.readLines, Body.readLine_message hsend hsaid hline, ih]

theorem read (h : Transcribes messages lines) :
    (Body.ofLines lines).read = { messages, ending := .clean } := by
  rw [Body.read, Body.lines_ofLines h.lineFeed_notMem, h.readLines]
  rfl

/-- Every message that may be sent is said by the line of its record. -/
theorem written {m : Message} (hsend : m.Sendable) (h : Transcribes messages lines) :
    Transcribes (m :: messages) (Json.write m.toJson :: lines) :=
  .message hsend (m.saidBy_members fun hnull => (hsend.payload _ hnull).1 rfl)
    hsend.plain_toJson.compact h

end Transcribes

/-- A reader gives the messages that were written, counts them and comes to a clean end. -/
theorem drain_transcribed {messages : List Message} {lines : List (List Char)}
    (h : Transcribes messages lines) :
    (Reader.ofBody (Body.ofLines lines)).drain.1 = { messages, ending := .clean } ∧
      (Reader.ofBody (Body.ofLines lines)).drain.2.decoded = messages.length := by
  obtain ⟨hreading, hcount⟩ := Reader.drain_ofBody (Body.ofLines lines)
  rw [hreading, hcount, h.read]
  exact ⟨rfl, rfl⟩

section Example

/-- A message whose record is written in full. -/
def uploaded : Message :=
  { stream := "Step 1/2 : \"RUN\"\n", progress := some { current := -5, total := 9 },
    payload := some (.ofMembers [("ID", .ofString "sha256:\x07é")]) }

/-- A message whose record is written without the fields that hold their defaults, and with a member
that is of no field. -/
def refused : Message :=
  { id := "layer", error := some { code := 7 }, errorText := "boom" }

def refusedMembers : List (String × Json) :=
  [("error", .ofString "boom"), ("hint", .array [.null, .bool true]), ("id", .ofString "layer"),
    ("errorDetail", .ofMembers [("code", .ofInt 7)])]

theorem drain_transcribed_two :
    let lines := [Json.write uploaded.toJson, [' ', '\t'], Json.write (.ofMembers refusedMembers)]
    (Reader.ofBody (Body.ofLines lines)).drain.1 =
        { messages := [uploaded, refused], ending := .clean } ∧
      (Reader.ofBody (Body.ofLines lines)).drain.2.decoded = 2 := by
  have huploaded : uploaded.Sendable := {
    progress := by
      rintro _ ⟨⟩
      exact ⟨rfl, rfl⟩
    error := by rintro _ ⟨⟩
    payload := by
      rintro _ ⟨⟩
      refine ⟨by simp [Json.ofMembers], ?_, ?_⟩
      · simp [Json.ofMembers, Json.ofString, Json.Plain, Json.PlainMembers]
      · simp [Json.ofMembers, Json.ofString, Json.depth, Json.depthOfMembers, Message.payloadLevels] }
  have hrefused : refused.Sendable := {
    progress := by rintro _ ⟨⟩
    error := by
      rintro _ ⟨⟩
      rfl
    payload := by rintro _ ⟨⟩ }
  have hsaid : refused.SaidBy refusedMembers := {
    stream := .inr ⟨rfl, rfl⟩
    status := .inr ⟨rfl, rfl⟩
    progress := .inr ⟨rfl, rfl⟩
    id := .inl ⟨_, rfl, rfl⟩
    error := .inl ⟨.ofMembers [("code", .ofInt 7)],
      ⟨by simp [Json.ofMembers], _, rfl, .inl ⟨_, rfl, rfl⟩, .inr ⟨rfl, rfl⟩⟩, rfl⟩
    errorText := .inl ⟨_, rfl, rfl⟩
    payload := .inr ⟨rfl, rfl⟩ }
  refine drain_transcribed (.written huploaded (.blank ?_ (.message hrefused hsaid ?_ .nil)))
  · simp [BlankLine, isBlank]
  · exact Json.Plain.compact (by
      simp [refusedMembers, Json.ofMembers, Json.ofString, Json.ofInt, Json.Plain,
        Json.PlainMembers, Json.PlainItems, Json.Number.Plain])

end Example

end BuildProgress
