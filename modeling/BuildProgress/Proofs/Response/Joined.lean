import BuildProgress.Proofs.Response.Lines
import BuildProgress.Proofs.Response.Reader

/-!
# Bodies one after the other

A body that is read to a clean end may be followed by any other: the messages of both are read, and the
end is that of the second. Carriage returns before line feeds and lines of white space change nothing.
-/

namespace BuildProgress

set_option autoImplicit false

open BuildProgress.Text

namespace Body

/-- The first body, a line feed and the second body. -/
def joined (first second : Body) : Body :=
  ⟨first.bytes ++ feed :: second.bytes, second.ending⟩

/-- The next byte is the first of a line. -/
def StartsLine (before : List UInt8) : Prop :=
  before = [] ∨ ∃ earlier, before = earlier ++ [feed]

/-- The bytes of a body with carriage returns put before line feeds and with lines of white space
added. If nothing follows the last line, it may be ended so that lines can be added after it. -/
inductive Respaced (ending : BodyEnd) : List UInt8 → List UInt8 → Prop where
  | refl (bytes : List UInt8) : Respaced ending bytes bytes
  | trans {first second third : List UInt8} (h : Respaced ending first second)
      (hmore : Respaced ending second third) : Respaced ending first third
  | carriageReturn (before after : List UInt8) :
      Respaced ending (before ++ feed :: after) (before ++ carriageReturn :: feed :: after)
  | blankLine {before : List UInt8} {line : List Char} (hbefore : StartsLine before)
      (hline : BlankLine line) (after : List UInt8) :
      Respaced ending (before ++ after) (before ++ (Utf8.encode line ++ feed :: after))
  | lastBlank {before : List UInt8} {line : List Char} (hbefore : StartsLine before)
      (hline : BlankLine line) : Respaced ending before (before ++ Utf8.encode line)
  | lastFeed (hending : ending = .complete) (before : List UInt8) :
      Respaced ending before (before ++ [feed])

section Joining

variable {first : Body}

theorem complete_of_clean (h : first.read.ending = .clean) : first.ending = .complete := by
  rw [read_eq_collect] at h
  have hend := collect_clean h
  cases hending : first.ending with
  | complete => rfl
  | broken | pending =>
    rw [endAfterLines, hending] at hend
    cases hend

theorem read_joined (h : first.read.ending = .clean) (second : Body) :
    (first.joined second).read =
      { messages := first.read.messages ++ second.read.messages, ending := second.read.ending } := by
  have hcomplete := complete_of_clean h
  have htold : (first.joined second).told = first.told ++ second.told := by
    rw [joined, told_append_feed, ← hcomplete]
  have hend : (first.joined second).endAfterLines = second.endAfterLines := rfl
  have hfirst : first.endAfterLines = .clean := by rw [endAfterLines, hcomplete]
  rw [read_eq_collect, hfirst] at h
  rw [read_eq_collect, htold, hend, collect_append h, read_eq_collect first, hfirst,
    ← read_eq_collect]

end Joining

section Spacing

variable {ending : BodyEnd}

/-- What stands before a line is told before it. -/
theorem StartsLine.told_append {before : List UInt8} (h : StartsLine before) :
    ∃ earlier, ∀ after, told ⟨before ++ after, ending⟩ = earlier ++ told ⟨after, ending⟩ := by
  rcases h with rfl | ⟨bytes, rfl⟩
  · exact ⟨[], fun _ => rfl⟩
  · refine ⟨told ⟨bytes, .complete⟩, fun after => ?_⟩
    rw [List.append_assoc, List.singleton_append, told_append_feed]

theorem told_empty (ending : BodyEnd) : told ⟨[], ending⟩ = [] :=
  told_blank blankLine_nil ending

theorem Respaced.told_eq {bytes respaced : List UInt8} (h : Respaced ending bytes respaced) :
    told ⟨respaced, ending⟩ = told ⟨bytes, ending⟩ := by
  induction h with
  | refl => rfl
  | trans _ _ ih ihmore => exact ihmore.trans ih
  | carriageReturn before after =>
    have hcut : before ++ Body.carriageReturn :: feed :: after =
        (before ++ [Body.carriageReturn]) ++ feed :: after := by simp
    rw [hcut, told_append_feed, told_carriageReturn, told_append_feed]
  | blankLine hbefore hline after =>
    obtain ⟨earlier, htold⟩ := hbefore.told_append
    rw [htold, htold, told_append_feed, told_blank hline, List.nil_append]
  | @lastBlank before line hbefore hline =>
    obtain ⟨earlier, htold⟩ := hbefore.told_append
    have hnothing := htold []
    rw [List.append_nil, told_empty] at hnothing
    rw [htold, hnothing, told_blank hline]
  | lastFeed hending before =>
    rw [told_append_feed, told_empty, List.append_nil, hending]

theorem Respaced.read_eq {bytes respaced : List UInt8} (h : Respaced ending bytes respaced) :
    Body.read ⟨respaced, ending⟩ = Body.read ⟨bytes, ending⟩ := by
  rw [read_eq_collect, h.told_eq, read_eq_collect]
  rfl

end Spacing

end Body

namespace Reader

/-- A body after one with a clean end is read on after it, and the end is its own. Carriage returns
before line feeds and lines of white space change nothing. Over an open channel with room what is read
is forwarded, with the end of reading as its outcome; over a closed one nothing is read. -/
theorem joined_respaced_forwarded :
    (∀ first second : Body, (ofBody first).drain.1.ending = .clean →
      (ofBody (first.joined second)).drain.1.messages =
          (ofBody first).drain.1.messages ++ (ofBody second).drain.1.messages ∧
        (ofBody (first.joined second)).drain.2.decoded =
          (ofBody first).drain.2.decoded + (ofBody second).drain.2.decoded ∧
        (ofBody (first.joined second)).drain.1.ending = (ofBody second).drain.1.ending) ∧
    (∀ (ending : BodyEnd) (bytes respaced : List UInt8), Body.Respaced ending bytes respaced →
      (ofBody ⟨respaced, ending⟩).drain.1 = (ofBody ⟨bytes, ending⟩).drain.1 ∧
        (ofBody ⟨respaced, ending⟩).drain.2.decoded = (ofBody ⟨bytes, ending⟩).drain.2.decoded) ∧
    (∀ (body : Body) (c : Channel), c.closed = false →
      c.queue.length + (ofBody body).drain.1.messages.length ≤ c.capacity →
      (ofBody body).forwardTo c = ((ofBody body).drain.1.ending.outcome, (ofBody body).drain.2,
        { c with queue := c.queue ++ (ofBody body).drain.1.messages })) ∧
    (∀ (body : Body) (c : Channel), c.closed = true →
      (ofBody body).forwardTo c = (some (.ok ()), ofBody body, c)) := by
  refine ⟨fun first second h => ?_, fun ending bytes respaced h => ?_, fun body c => forwardTo_room _,
    fun body c => forwardTo_closed _⟩
  · obtain ⟨hfirst, hfirstCount⟩ := drain_ofBody first
    obtain ⟨hsecond, hsecondCount⟩ := drain_ofBody second
    obtain ⟨hjoined, hjoinedCount⟩ := drain_ofBody (first.joined second)
    rw [hfirst] at h
    rw [hjoined, hjoinedCount, hfirst, hfirstCount, hsecond, hsecondCount, Body.read_joined h second]
    exact ⟨rfl, List.length_append, rfl⟩
  · obtain ⟨hbytes, hbytesCount⟩ := drain_ofBody ⟨bytes, ending⟩
    obtain ⟨hrespaced, hrespacedCount⟩ := drain_ofBody ⟨respaced, ending⟩
    rw [hrespaced, hrespacedCount, hbytes, hbytesCount, h.read_eq]
    exact ⟨rfl, rfl⟩

section Example

/-- Two messages, of which the second is not ended by a line feed. -/
def twoMessages : Body :=
  ⟨[0x7B, 0x7D, 0x0A, 0x7B, 0x7D], .complete⟩

/-- A message and a line that is no text. -/
def thenNoText : Body :=
  ⟨[0x7B, 0x7D, 0x0A, 0xFF], .complete⟩

theorem joined_respaced_forwarded_example :
    (ofBody (twoMessages.joined thenNoText)).drain.2.decoded = 3 ∧
      (ofBody (twoMessages.joined thenNoText)).drain.1.ending =
        .failed (.backendProtocol .notUtf8) ∧
      (ofBody ⟨[0x7B, 0x7D, 0x0D, 0x0A, 0x7B, 0x7D], .complete⟩).drain.2.decoded = 2 ∧
      ((ofBody twoMessages).forwardTo { capacity := 2 }).2.2.queue.length = 2 ∧
      ((ofBody thenNoText).forwardTo { capacity := 2, closed := true }).2.2.queue.length = 0 := by
  obtain ⟨hjoined, hrespaced, hopen, hclosed⟩ := joined_respaced_forwarded
  have hread : (ofBody twoMessages).drain.1 = { messages := [{}, {}], ending := .clean } :=
    (drain_ofBody twoMessages).1.trans rfl
  have hcount : (ofBody twoMessages).drain.2.decoded = 2 := (drain_ofBody twoMessages).2.trans rfl
  have hlater : (ofBody thenNoText).drain.1 =
      { messages := [{}], ending := .failed (.backendProtocol .notUtf8) } :=
    (drain_ofBody thenNoText).1.trans rfl
  have hlaterCount : (ofBody thenNoText).drain.2.decoded = 1 :=
    (drain_ofBody thenNoText).2.trans rfl
  obtain ⟨-, hsum, hending⟩ := hjoined twoMessages thenNoText (by rw [hread])
  have hreturn := hrespaced .complete _ _ (.carriageReturn [0x7B, 0x7D] [0x7B, 0x7D])
  refine ⟨?_, ?_, hreturn.2.trans hcount, ?_, ?_⟩
  · rw [hsum, hcount, hlaterCount]
  · rw [hending, hlater]
  · rw [hopen twoMessages { capacity := 2 } rfl (by rw [hread]; decide), hread]
    rfl
  · rw [hclosed thenNoText _ rfl]
    rfl

end Example

end Reader

end BuildProgress
