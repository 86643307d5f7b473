import BuildProgress.Response

/-!
# Reading a response message by message

A reader gives the messages of a body one at a time and counts them. Forwarding takes them from the
reader and sends them over a channel; it looks whether the channel is closed before it reads on.
-/

namespace BuildProgress

set_option autoImplicit false

/-- The lines that are still to be read, what comes after them, and how many messages were read. -/
structure Reader where
  lines : List (List UInt8)
  atEnd : ReadingEnd
  decoded : Nat := 0
deriving DecidableEq, Repr

/-- A bounded queue of messages. -/
structure Channel where
  capacity : Nat
  queue : List Message := []
  closed : Bool := false
deriving Repr

/-- What becomes of a message that is sent. -/
inductive Channel.Sending where
  | sent (channel : Channel)
  | refused
  | full

def Channel.send (c : Channel) (message : Message) : Channel.Sending :=
  if c.closed then .refused
  else if c.queue.length < c.capacity then .sent { c with queue := c.queue ++ [message] }
  else .full

namespace Reader

def ofBody (body : Body) : Reader :=
  { lines := body.lines, atEnd := body.endAfterLines }

/-- Reads lines up to the first one that is not blank. -/
def nextFrom (atEnd : ReadingEnd) (decoded : Nat) :
    List (List UInt8) → Except ReadingEnd Message × Reader
  | [] => (.error atEnd, { lines := [], atEnd, decoded })
  | line :: rest =>
    match Body.readLine line with
    | .error fault => (.error (.failed fault), { lines := rest, atEnd, decoded })
    | .ok none => nextFrom atEnd decoded rest
    | .ok (some message) => (.ok message, { lines := rest, atEnd, decoded := decoded + 1 })

/-- The next message, or how reading ends. -/
def next (r : Reader) : Except ReadingEnd Message × Reader :=
  nextFrom r.atEnd r.decoded r.lines

theorem nextFrom_shorter (atEnd : ReadingEnd) (decoded : Nat) {lines : List (List UInt8)}
    {message : Message} {later : Reader} (h : nextFrom atEnd decoded lines = (.ok message, later)) :
    later.lines.length < lines.length := by
  induction lines with
  | nil => cases h
  | cons line rest ih =>
    rw [nextFrom] at h
    split at h
    · cases h
    · exact Nat.lt_succ_of_lt (ih h)
    · cases h
      exact Nat.lt_succ_self _

/-- Reads to the end. -/
def drain (r : Reader) : Reading × Reader :=
  match _ : r.next with
  | (.error ending, later) => ({ ending }, later)
  | (.ok message, later) =>
    let (reading, last) := later.drain
    ({ reading with messages := message :: reading.messages }, last)
termination_by r.lines.length
decreasing_by exact nextFrom_shorter _ _ ‹_›

/-- Forwards messages over a channel until reading ends or the channel is closed, which is no error.
There is no outcome where reading or sending has to wait. -/
def forwardTo (r : Reader) (c : Channel) : Option (Except BuildError Unit) × Reader × Channel :=
  if c.closed then (some (.ok ()), r, c)
  else match _ : r.next with
    | (.error ending, later) => (ending.outcome, later, c)
    | (.ok message, later) =>
      match c.send message with
      | .sent after => later.forwardTo after
      | .refused => (some (.ok ()), later, c)
      | .full => (none, later, c)
termination_by r.lines.length
decreasing_by exact nextFrom_shorter _ _ ‹_›

end Reader

end BuildProgress
