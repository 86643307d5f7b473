import BuildProgress.Proofs.Ends
import BuildProgress.Proofs.Text.Chunks
import BuildProgress.Proofs.Tracer.Trace

/-!
# Output of a vertex

What a vertex writes comes in chunks of bytes. As long as all calls succeed, each chunk is told as an
output of the step of the vertex, in their order, and nothing else is. A chunk is read by itself, so that
a text that was cut in chunks is told as it is exactly if no character was cut.
-/

namespace BuildProgress.Tracer

set_option autoImplicit false

variable {handler : Handler} {digest : String} {t t' : Tracer} {d : Delivery}
  {s u w : Tracer × Delivery} {event : Event} {step : Nat} {logs : List VertexLog}

def outputText? (step : Nat) : Event → Option (List Char)
  | .stepOutput n text => if n = step then some text.toList else none
  | _ => none

/-- The texts that were told as output of a step. -/
def outputs (step : Nat) (events : List Event) : List (List Char) :=
  events.filterMap (outputText? step)

/-- What a vertex wrote, in chunks. -/
def chunksOf (digest : String) (logs : List VertexLog) : List (List UInt8) :=
  (logs.filter (·.vertex = digest)).map (·.data)

/-- From a state on, every batch is translated without an error. -/
def AcceptedFrom (handler : Handler) : Tracer × Delivery → List Batch → Prop
  | _, [] => True
  | s, batch :: later =>
    (trace handler batch s).1 = .ok () ∧ AcceptedFrom handler (trace handler batch s).2 later

theorem outputs_append (step : Nat) (events more : List Event) :
    outputs step (events ++ more) = outputs step events ++ outputs step more :=
  List.filterMap_append

theorem chunksOf_append (digest : String) (logs more : List VertexLog) :
    chunksOf digest (logs ++ more) = chunksOf digest logs ++ chunksOf digest more := by
  simp [chunksOf]

theorem outputText?_of_kind (h : event.kind ≠ .stepOutput) (step : Nat) :
    outputText? step event = none := by
  cases event with
  | stepOutput _ _ => exact absurd rfl h
  | _ => rfl

theorem statusEvent?_kind {c : VertexStatus} (h : statusEvent? step c = some event) :
    event.isFailure = false ∧ event.kind ≠ .stepOutput := by
  unfold statusEvent? at h
  split at h
  · obtain rfl := Option.some.inj h
    exact ⟨rfl, nofun⟩
  · obtain ⟨_, heq⟩ := Option.ite_none_left_eq_some.1 h
    obtain rfl := Option.some.inj heq
    exact ⟨rfl, nofun⟩

/-- Delivery is open, and since an earlier state these chunks were told, each under the step that its
vertex has from now on. -/
structure Prints (logs : List VertexLog) (s u : Tracer × Delivery) : Prop where
  receiving : u.2.phase = .receiving
  grows : s.1.numbered <+: u.1.numbered
  told : ∃ events, u.2.history = s.2.history ++ events ∧
    ∀ (t : Tracer) (digest : String) (step : Nat), u.1.numbered <+: t.numbered →
      t.step? digest = some step →
      outputs step events = (chunksOf digest logs).map Utf8.decodeLossy

namespace Prints

theorem refl (hopen : s.2.phase = .receiving) : Prints [] s s :=
  ⟨hopen, List.prefix_rfl, [], by simp, fun _ _ _ _ _ => rfl⟩

theorem append {more : List VertexLog} (h : Prints logs s u) (h' : Prints more u w) :
    Prints (logs ++ more) s w := by
  obtain ⟨events, hevents, htold⟩ := h.told
  obtain ⟨events', hevents', htold'⟩ := h'.told
  refine ⟨h'.receiving, h.grows.trans h'.grows, events ++ events', ?_, ?_⟩
  · rw [hevents', hevents, List.append_assoc]
  · intro t digest step hgrows hstep
    rw [outputs_append, chunksOf_append, List.map_append,
      htold t digest step (h'.grows.trans hgrows) hstep, htold' t digest step hgrows hstep]

/-- An event that is no output. -/
theorem silent (hopen : d.phase = .receiving) (hok : (carryOut handler t' event d).1 = .ok ())
    (hfailure : event.isFailure = false) (hkind : event.kind ≠ .stepOutput)
    (hgrows : t.numbered <+: t'.numbered) :
    Prints [] (t, d) (carryOut handler t' event d).2 := by
  have hdelivers := Delivery.delivers_of_ok hopen hok
  refine ⟨Delivery.emit_phase_of_ok hdelivers hok hfailure, hgrows, [event],
    Delivery.emit_history hdelivers, ?_⟩
  intro _ _ step _ _
  simp [outputs, outputText?_of_kind hkind, chunksOf]

theorem traceLog (l : VertexLog) (s : Tracer × Delivery) (hopen : s.2.phase = .receiving)
    (hok : (traceLog handler l s).1 = .ok ()) : Prints [l] s (traceLog handler l s).2 := by
  obtain ⟨t, d⟩ := s
  rcases traceLog_cases handler l t d with hrun | ⟨step, hstep, hrun⟩
  · rw [hrun] at hok
    cases hok
  · rw [hrun] at hok ⊢
    have hdelivers := Delivery.delivers_of_ok hopen hok
    refine ⟨Delivery.emit_phase_of_ok hdelivers hok rfl, List.prefix_rfl, [logEvent step l],
      Delivery.emit_history hdelivers, ?_⟩
    intro later digest n hgrows hn
    have hstep' : later.step? l.vertex = some step := step?_mono hgrows hstep
    have hiff : step = n ↔ l.vertex = digest := by
      constructor
      · rintro rfl
        exact step?_inj hstep' hn
      · rintro rfl
        exact Option.some.inj (hstep'.symm.trans hn)
    by_cases hvertex : l.vertex = digest
    · simp [outputs, outputText?, logEvent, chunksOf, hiff.2 hvertex, hvertex]
    · simp [outputs, outputText?, logEvent, chunksOf, mt hiff.1 hvertex, hvertex]

theorem traceStatus (c : VertexStatus) (s : Tracer × Delivery) (hopen : s.2.phase = .receiving)
    (hok : (traceStatus handler c s).1 = .ok ()) : Prints [] s (traceStatus handler c s).2 := by
  obtain ⟨t, d⟩ := s
  rcases traceStatus_cases handler c t d with hrun | ⟨_, _, hrun⟩ | ⟨step, event, _, hevent, hrun⟩
  · rw [hrun] at hok
    cases hok
  · rw [hrun]
    exact refl hopen
  · rw [hrun] at hok ⊢
    obtain ⟨hfailure, hkind⟩ := statusEvent?_kind hevent
    exact silent hopen hok hfailure hkind List.prefix_rfl

theorem announce (v : Vertex) (s : Tracer × Delivery) (hopen : s.2.phase = .receiving)
    (hok : (announce handler v s).1 = .ok ()) : Prints [] s (announce handler v s).2 := by
  obtain ⟨t, d⟩ := s
  rcases announce_cases handler v t d with ⟨_, _, hrun⟩ | ⟨_, _, hrun⟩ | ⟨_, _, _, _, hrun⟩ |
    ⟨_, _, _, hrun⟩
  · rw [hrun] at hok ⊢
    exact silent hopen hok rfl nofun (List.prefix_append _ _)
  · rw [hrun]
    exact refl hopen
  · rw [hrun] at hok ⊢
    exact silent hopen hok rfl nofun List.prefix_rfl
  · rw [hrun]
    exact refl hopen

theorem conclude (v : Vertex) (s : Tracer × Delivery) (hopen : s.2.phase = .receiving)
    (hok : (conclude handler v s).1 = .ok ()) : Prints [] s (conclude handler v s).2 := by
  obtain ⟨t, d⟩ := s
  rcases conclude_cases handler v t d with ⟨_, hrun⟩ | ⟨_, _, hrun⟩ | ⟨_, _, _, _, hrun⟩ |
    ⟨_, _, _, _, _, hrun⟩
  · rw [hrun] at hok
    obtain ⟨_, _, _, hfail, _⟩ := Action.exists_of_bind_ok hok
    cases hfail
  · rw [hrun]
    exact refl hopen
  · rw [hrun] at hok
    cases hok
  · rw [hrun] at hok ⊢
    exact silent hopen hok rfl nofun List.prefix_rfl

/-- What each item tells, a pass over all items tells in turn. -/
theorem pass {α : Type} {act : α → Reporting Tracer Unit} {logs : α → List VertexLog}
    (hact : ∀ x s, s.2.phase = .receiving → (act x s).1 = .ok () → Prints (logs x) s (act x s).2)
    (xs : List α) (s : Tracer × Delivery) (hopen : s.2.phase = .receiving)
    (hok : (Action.forEach act xs s).1 = .ok ()) :
    Prints (xs.flatMap logs) s (Action.forEach act xs s).2 := by
  induction xs generalizing s with
  | nil => exact refl hopen
  | cons x xs ih =>
    have hcons : Action.forEach act (x :: xs) = act x >>= fun _ => Action.forEach act xs := rfl
    rw [hcons] at hok ⊢
    obtain ⟨_, u, hx, hrest, hstate⟩ := Action.exists_of_bind_ok hok
    have hfirst := hact x s hopen (by rw [hx])
    rw [hx] at hfirst
    rw [hstate, List.flatMap_cons]
    exact hfirst.append (ih u hfirst.receiving hrest)

theorem silentPass {α : Type} {act : α → Reporting Tracer Unit}
    (hact : ∀ x s, s.2.phase = .receiving → (act x s).1 = .ok () → Prints [] s (act x s).2)
    (xs : List α) (s : Tracer × Delivery) (hopen : s.2.phase = .receiving)
    (hok : (Action.forEach act xs s).1 = .ok ()) : Prints [] s (Action.forEach act xs s).2 := by
  have hpass : Prints (xs.flatMap fun _ => []) s _ := pass hact xs s hopen hok
  rwa [List.flatMap_eq_nil_iff.2 fun _ _ => rfl] at hpass

theorem trace (batch : Batch) (s : Tracer × Delivery) (hopen : s.2.phase = .receiving)
    (hok : (trace handler batch s).1 = .ok ()) : Prints batch.logs s (trace handler batch s).2 := by
  rw [trace_run] at hok ⊢
  cases horder : orderVertices batch.vertices with
  | error e =>
    rw [horder] at hok
    cases hok
  | ok vertices =>
    rw [horder] at hok
    obtain ⟨_, s₁, h₁, hok₁, hs₁⟩ := Action.exists_of_bind_ok hok
    obtain ⟨_, s₂, h₂, hok₂, hs₂⟩ := Action.exists_of_bind_ok hok₁
    obtain ⟨_, s₃, h₃, hok₃, hs₃⟩ := Action.exists_of_bind_ok hok₂
    have hannounced := silentPass announce vertices s hopen (by rw [h₁])
    rw [h₁] at hannounced
    have hcounted := silentPass traceStatus batch.statuses s₁ hannounced.receiving (by rw [h₂])
    rw [h₂] at hcounted
    have hprinted := pass traceLog batch.logs s₂ hcounted.receiving (by rw [h₃])
    rw [h₃] at hprinted
    have hconcluded := silentPass conclude vertices s₃ hprinted.receiving hok₃
    have hall := ((hannounced.append hcounted).append hprinted).append hconcluded
    simpa [hs₁, hs₂, hs₃] using hall

end Prints

section Runs

variable {earlier batches : List Batch}

theorem AcceptedFrom.prints (haccepted : AcceptedFrom handler s batches)
    (hopen : s.2.phase = .receiving) : Prints (batches.flatMap (·.logs)) s
      (batches.foldl (fun s batch => (trace handler batch s).2) s) := by
  induction batches generalizing s with
  | nil => exact .refl hopen
  | cons batch later ih =>
    obtain ⟨hok, hlater⟩ := haccepted
    have hfirst := Prints.trace batch s hopen hok
    rw [List.flatMap_cons, List.foldl_cons]
    exact hfirst.append (ih hlater hfirst.receiving)

/-- While batches are accepted, each chunk that a vertex wrote is told as an output of the step of that
vertex, read by itself and in the order of the chunks. So a text that was cut in chunks is told as it is
exactly if each chunk is a text, that is, if no character was cut. -/
theorem output_of_chunks (handler : Handler) (earlier batches : List Batch) (digest : String)
    (step : Nat) (hopen : (after handler earlier).2.phase = .receiving)
    (haccepted : AcceptedFrom handler (after handler earlier) batches)
    (hstep : (after handler (earlier ++ batches)).1.step? digest = some step) :
    ∃ events,
      (after handler (earlier ++ batches)).2.history = (after handler earlier).2.history ++ events ∧
      outputs step events =
        (chunksOf digest (batches.flatMap (·.logs))).map Utf8.decodeLossy ∧
      ∀ text, (chunksOf digest (batches.flatMap (·.logs))).flatten = Utf8.encode text →
        ((outputs step events).flatten = text ↔ ∃ parts : List (List Char),
          chunksOf digest (batches.flatMap (·.logs)) = parts.map Utf8.encode) := by
  rw [after_append] at hstep ⊢
  obtain ⟨events, hevents, htold⟩ := (haccepted.prints hopen).told
  have houtputs := htold _ digest step List.prefix_rfl hstep
  refine ⟨events, hevents, houtputs, ?_⟩
  intro text htext
  rw [houtputs, ← List.flatMap_def]
  exact Utf8.read_chunks_iff htext

/-- A text that is cut between two characters, in two batches. -/
theorem output_of_chunks_whole_characters :
    let vertex : Vertex := { digest := "d", name := "n", started := some ⟨1, 0⟩ }
    let earlier : List Batch := [{ vertices := [vertex] }]
    let batches : List Batch := [{ logs := [{ vertex := "d", data := [0x61] }] },
      { logs := [{ vertex := "d", data := [0xC3, 0xA9] }] }]
    (after .quiet earlier).2.phase = .receiving ∧ AcceptedFrom .quiet (after .quiet earlier) batches ∧
      (after .quiet (earlier ++ batches)).1.step? "d" = some 1 ∧
      ∃ events, (after .quiet (earlier ++ batches)).2.history =
          (after .quiet earlier).2.history ++ events ∧
        (outputs 1 events).flatten = "aé".toList := by
  intro vertex earlier batches
  have hopen : (after .quiet earlier).2.phase = .receiving := by decide +kernel
  have haccepted : AcceptedFrom .quiet (after .quiet earlier) batches :=
    ⟨by decide +kernel, by decide +kernel, trivial⟩
  have hstep : (after .quiet (earlier ++ batches)).1.step? "d" = some 1 := by decide +kernel
  obtain ⟨events, hevents, _, hwhole⟩ :=
    output_of_chunks .quiet earlier batches "d" 1 hopen haccepted hstep
  refine ⟨hopen, haccepted, hstep, events, hevents, (hwhole "aé".toList (by decide)).2 ?_⟩
  exact ⟨["a".toList, "é".toList], by decide⟩

/-- A character that is cut is lost. -/
theorem output_loses_cut_character :
    let vertex : Vertex := { digest := "d", name := "n", started := some ⟨1, 0⟩ }
    let first : VertexLog := { vertex := "d", stream := 1, data := [0xC3] }
    let second : VertexLog := { vertex := "d", stream := 1, data := [0xA9] }
    let batches : List Batch := [{ vertices := [vertex], logs := [first, second] }]
    AcceptedFrom .quiet ({}, {}) batches ∧ (after .quiet batches).1.step? "d" = some 1 ∧
      (chunksOf "d" [first, second]).flatten = Utf8.encode "é".toList ∧
      outputs 1 (after .quiet batches).2.history = ["\uFFFD".toList, "\uFFFD".toList] ∧
      (outputs 1 (after .quiet batches).2.history).flatten ≠ "é".toList := by
  intro vertex first second batches
  exact ⟨⟨by decide +kernel, trivial⟩, by decide +kernel, by decide, by decide +kernel,
    by decide +kernel⟩

end Runs

end BuildProgress.Tracer
