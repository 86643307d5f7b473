import BuildProgress.Response.Reader

/-!
# A reader reads its body

Reading message by message gives what the body holds, and the reader has counted the messages. What is
forwarded over a channel that is open and has room is what was read; over a closed channel it is nothing,
and nothing is read.
-/

namespace BuildProgress.Reader

set_option autoImplicit false

section Draining

variable {r later : Reader} {message : Message} {ending : ReadingEnd}

theorem drain_of_error (h : r.next = (.error ending, later)) :
    r.drain = ({ ending := ending }, later) := by
  rw [drain]
  split
  · rename_i heq
    cases h.symm.trans heq
    rfl
  · rename_i heq
    cases h.symm.trans heq

theorem drain_of_message (h : r.next = (.ok message, later)) :
    r.drain = ({ later.drain.1 with messages := message :: later.drain.1.messages },
      later.drain.2) := by
  rw [drain]
  split
  · rename_i heq
    cases h.symm.trans heq
  · rename_i heq
    cases h.symm.trans heq
    rfl

theorem drain_congr {s : Reader} (h : r.next = s.next) : r.drain = s.drain := by
  cases hs : s.next with
  | mk found later =>
    cases found with
    | error ending => rw [drain_of_error (h.trans hs), drain_of_error hs]
    | ok message => rw [drain_of_message (h.trans hs), drain_of_message hs]

variable (atEnd : ReadingEnd) (decoded : Nat) (lines : List (List UInt8))

theorem drain_lines : (Reader.mk lines atEnd decoded).drain.1 = Body.readLines atEnd lines ∧
    (Reader.mk lines atEnd decoded).drain.2.decoded =
      decoded + (Body.readLines atEnd lines).messages.length := by
  induction lines generalizing decoded with
  | nil =>
    have hnext : (Reader.mk [] atEnd decoded).next = (.error atEnd, ⟨[], atEnd, decoded⟩) := rfl
    rw [drain_of_error hnext]
    exact ⟨rfl, rfl⟩
  | cons line rest ih =>
    cases hline : Body.readLine line with
    | error fault =>
      have hnext : (Reader.mk (line :: rest) atEnd decoded).next =
          (.error (.failed fault), ⟨rest, atEnd, decoded⟩) := by
        simp [next, nextFrom, hline]
      rw [drain_of_error hnext, Body.readLines, hline]
      exact ⟨rfl, rfl⟩
    | ok found =>
      cases found with
      | none =>
        -- A blank line is read together with what follows it.
        have hdrain : (Reader.mk (line :: rest) atEnd decoded).drain =
            (Reader.mk rest atEnd decoded).drain := drain_congr (by simp [next, nextFrom, hline])
        rw [hdrain, Body.readLines, hline]
        exact ih decoded
      | some message =>
        have hnext : (Reader.mk (line :: rest) atEnd decoded).next =
            (.ok message, ⟨rest, atEnd, decoded + 1⟩) := by
          simp [next, nextFrom, hline]
        obtain ⟨hreading, hcount⟩ := ih (decoded + 1)
        rw [drain_of_message hnext, hreading, hcount, Body.readLines, hline]
        refine ⟨rfl, ?_⟩
        simp only [List.length_cons]
        omega

end Draining

theorem drain_ofBody (body : Body) : (ofBody body).drain.1 = body.read ∧
    (ofBody body).drain.2.decoded = body.read.messages.length := by
  obtain ⟨hreading, hcount⟩ := drain_lines body.endAfterLines 0 body.lines
  rw [Nat.zero_add] at hcount
  exact ⟨hreading, hcount⟩

section Forwarding

theorem forwardTo_closed (r : Reader) {c : Channel} (hclosed : c.closed = true) :
    r.forwardTo c = (some (.ok ()), r, c) := by
  rw [forwardTo, if_pos hclosed]

theorem forwardTo_of_error {r later : Reader} {c : Channel} {ending : ReadingEnd}
    (hopen : c.closed = false) (h : r.next = (.error ending, later)) :
    r.forwardTo c = (ending.outcome, later, c) := by
  rw [forwardTo, if_neg (by simp [hopen])]
  split
  · rename_i heq
    cases h.symm.trans heq
    rfl
  · rename_i heq
    cases h.symm.trans heq

theorem forwardTo_of_sent {r later : Reader} {c after : Channel} {message : Message}
    (hopen : c.closed = false) (h : r.next = (.ok message, later))
    (hsend : c.send message = .sent after) : r.forwardTo c = later.forwardTo after := by
  rw [forwardTo, if_neg (by simp [hopen])]
  split
  · rename_i heq
    cases h.symm.trans heq
  · rename_i heq
    cases h.symm.trans heq
    rw [hsend]

theorem forwardTo_room (r : Reader) {c : Channel} (hopen : c.closed = false)
    (hroom : c.queue.length + r.drain.1.messages.length ≤ c.capacity) :
    r.forwardTo c = (r.drain.1.ending.outcome, r.drain.2,
      { c with queue := c.queue ++ r.drain.1.messages }) := by
  induction r using drain.induct generalizing c with
  | case1 r ending later hnext =>
    rw [forwardTo_of_error hopen hnext, drain_of_error hnext, List.append_nil]
  | case2 r message later hnext _ _ _ ih =>
    rw [drain_of_message hnext, List.length_cons] at hroom
    have hsend : c.send message = .sent { c with queue := c.queue ++ [message] } := by
      rw [Channel.send, if_neg (by simp [hopen]), if_pos (by omega)]
    rw [forwardTo_of_sent hopen hnext hsend, drain_of_message hnext]
    have hlater := ih (c := { c with queue := c.queue ++ [message] }) hopen (by
      simp only [List.length_append, List.length_singleton]
      omega)
    rw [hlater, List.append_assoc]
    rfl

/-- Forwarding as a whole is forwarding over a channel. -/
theorem forward_eq (body : Body) (c : Channel)
    (hroom : c.queue.length + body.read.messages.length ≤ c.capacity) :
    ((ofBody body).forwardTo c).1 = (forward body c.closed).outcome ∧
      ((ofBody body).forwardTo c).2.2 =
        { c with queue := c.queue ++ (forward body c.closed).sent } := by
  rcases Bool.eq_false_or_eq_true c.closed with hclosed | hclosed
  · rw [forwardTo_closed _ hclosed, forward, if_pos hclosed, List.append_nil]
    exact ⟨rfl, rfl⟩
  · rw [← (drain_ofBody body).1] at hroom
    rw [forwardTo_room _ hclosed hroom, (drain_ofBody body).1, hclosed]
    exact ⟨rfl, rfl⟩

end Forwarding

end BuildProgress.Reader
