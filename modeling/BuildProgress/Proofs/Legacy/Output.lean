import BuildProgress.Proofs.Legacy.Line
import BuildProgress.Proofs.Legacy.OneStep
import BuildProgress.Proofs.Legacy.Verdict

/-!
# The output that the legacy builder's steps show

`Shown` says which texts are told as output, in terms of the texts alone: the builder's own lines are
left out, some of them always and some only until their step has shown something. The two marks that
the parser keeps say of the texts since the last step line all that matters.
-/

namespace BuildProgress.Legacy

set_option autoImplicit false

open BuildProgress.Text

def IsStepLine (text : String) : Prop :=
  ∃ digits count name, Spells text.toList digits count name

/-- There is a text of this kind after the last step line. The kind may depend on the texts before
it. -/
inductive Since (P : List String → String → Prop) : List String → Prop where
  | last {texts : List String} {text : String} (same : ¬ IsStepLine text) (holds : P texts text) :
      Since P (texts ++ [text])
  | earlier {texts : List String} {text : String} (same : ¬ IsStepLine text) (since : Since P texts) :
      Since P (texts ++ [text])

def IsLayer (text : String) : Prop :=
  Marked " ---> " text.toList

/-- A text that is output only if its step has shown some output before. -/
def Quiet (text : String) : Prop :=
  text = "\n" ∨ Marked " ---> Running in " text.toList

/-- After these texts, nothing but quietness can keep a text from being output. -/
structure Plain (texts : List String) (text : String) : Prop where
  some : text ≠ ""
  unread : ¬ IsStepLine text
  removal : ¬ Marked "Removing intermediate container " text.toList
  layer : ¬ IsLayer text
  built : Marked "Successfully built " text.toList → ¬ Since (fun _ => IsLayer) texts

/-- After these texts, a text is output. -/
inductive Shown : List String → String → Prop where
  | loud {texts : List String} {text : String} (plain : Plain texts text) (loud : ¬ Quiet text) :
      Shown texts text
  | again {texts : List String} {text : String} (plain : Plain texts text)
      (since : Since Shown texts) : Shown texts text

open scoped Classical in
/-- The output among some texts that come after others. -/
noncomputable def shownFrom (earlier : List String) : List String → List String
  | [] => []
  | text :: later =>
    (if Shown earlier text then [text] else []) ++ shownFrom (earlier ++ [text]) later

/-- The input does not fail: its text is no step line whose number is too large, and it reports no
error. -/
def Input.Unfailing : Input → Prop
  | .message m => ¬ Oversized m.stream ∧ m.failure? = none
  | .upload _ => True

def outputText? : Event → Option String
  | .stepOutput _ text => some text
  | _ => none

def outputs (told : List Event) : List String :=
  told.filterMap outputText?

variable {P : List String → String → Prop} {texts texts' : List String} {text line : String}

theorem not_since_nil : ¬ Since P [] := by
  generalize htexts : ([] : List String) = texts
  rintro (_ | _) <;> simp at htexts

theorem since_concat : Since P (texts ++ [text]) ↔
    ¬ IsStepLine text ∧ (P texts text ∨ Since P texts) := by
  constructor
  · generalize htexts : texts ++ [text] = all
    intro h
    cases h with
    | last same holds =>
      obtain ⟨rfl, hlast⟩ := List.append_inj' htexts rfl
      obtain rfl := List.singleton_inj.mp hlast
      exact ⟨same, Or.inl holds⟩
    | earlier same since =>
      obtain ⟨rfl, hlast⟩ := List.append_inj' htexts rfl
      obtain rfl := List.singleton_inj.mp hlast
      exact ⟨same, Or.inr since⟩
  · rintro ⟨same, holds | since⟩
    · exact .last same holds
    · exact .earlier same since

theorem not_since_line (hline : IsStepLine line) : ¬ Since P (texts ++ [line]) :=
  fun h => (since_concat.mp h).1 hline

theorem shown_iff : Shown texts text ↔ Plain texts text ∧ (Quiet text → Since Shown texts) := by
  constructor
  · rintro (⟨plain, loud⟩ | ⟨plain, since⟩)
    · exact ⟨plain, fun hquiet => absurd hquiet loud⟩
    · exact ⟨plain, fun _ => since⟩
  · rintro ⟨plain, hsince⟩
    by_cases hquiet : Quiet text
    · exact .again plain (hsince hquiet)
    · exact .loud plain hquiet

theorem Shown.plain (h : Shown texts text) : Plain texts text :=
  (shown_iff.mp h).1

section Forms

theorem Marked.mem_lineFeed {mark : String} {text : List Char} (h : Marked mark text) : '\n' ∈ text := by
  obtain ⟨run, rfl, _⟩ := h
  simp

theorem Marked.length {mark : String} {text : List Char} (h : Marked mark text) :
    text.length = mark.toList.length + 13 := by
  obtain ⟨run, rfl, hlength, _⟩ := h
  simp [hlength]

theorem Marked.prefix_or_prefix {mark mark' : String} {text : List Char} (h : Marked mark text)
    (h' : Marked mark' text) : mark.toList <+: mark'.toList ∨ mark'.toList <+: mark.toList := by
  obtain ⟨run, htext, _⟩ := h
  obtain ⟨run', htext', _⟩ := h'
  exact List.prefix_or_prefix_of_prefix ⟨_, htext.symm⟩ ⟨_, htext'.symm⟩

theorem Marked.not_layer {text : List Char} (h : Marked " ---> Running in " text) :
    ¬ Marked " ---> " text := by
  rintro ⟨run', htext', hlength, hrun'⟩
  obtain ⟨run, htext, _⟩ := h
  have hmark : " ---> Running in ".toList = " ---> ".toList ++ "Running in ".toList := by decide
  rw [htext, hmark, List.append_assoc] at htext'
  have hrest := List.append_cancel_left htext'
  -- The digits of a layer would begin with the letter `R`.
  obtain ⟨c, more, rfl⟩ := List.exists_cons_of_length_pos (l := run') (by omega)
  obtain ⟨rfl, _⟩ := List.cons.inj hrest
  exact absurd (hrun' _ List.mem_cons_self) (by decide)

/-- A quiet text has none of the other forms. -/
theorem Quiet.plain (h : Quiet text) (texts : List String) : Plain texts text := by
  have hfeed : '\n' ∈ text.toList := by
    rcases h with rfl | hrunning
    · decide
    · exact hrunning.mem_lineFeed
  have hother {mark : String} (hmark : ¬ mark.toList <+: " ---> Running in ".toList)
      (hmark' : ¬ " ---> Running in ".toList <+: mark.toList) : ¬ Marked mark text.toList := by
    intro hmarked
    rcases h with rfl | hrunning
    · have hlength := hmarked.length
      simp at hlength
    · exact (hmarked.prefix_or_prefix hrunning).elim hmark hmark'
  refine ⟨?_, ?_, hother (by decide) (by decide), ?_, fun hbuilt => ?_⟩
  · rintro rfl
    simp at hfeed
  · rintro ⟨_, _, _, hspells⟩
    exact hspells.not_mem_lineFeed hfeed
  · intro hlayer
    rcases h with rfl | hrunning
    · have hlength := Marked.length hlayer
      simp at hlength
    · exact hrunning.not_layer hlayer
  · exact absurd hbuilt (hother (by decide) (by decide))

end Forms

section Lists

theorem shownFrom_append (earlier texts later : List String) :
    shownFrom earlier (texts ++ later) =
      shownFrom earlier texts ++ shownFrom (earlier ++ texts) later := by
  induction texts generalizing earlier with
  | nil => simp [shownFrom]
  | cons text texts ih =>
    rw [List.cons_append, shownFrom, shownFrom, ih, List.append_assoc, List.append_assoc,
      List.singleton_append]

open scoped Classical in
theorem shownFrom_concat (texts : List String) (text : String) :
    shownFrom [] (texts ++ [text]) =
      shownFrom [] texts ++ if Shown texts text then [text] else [] := by
  rw [shownFrom_append, shownFrom, shownFrom, List.nil_append, List.append_nil]

theorem since_shown_of_ne {more : List String} (hmore : ∀ t ∈ more, ¬ IsStepLine t)
    (hne : shownFrom [] (texts ++ more) ≠ shownFrom [] texts) : Since Shown (texts ++ more) := by
  induction more using List.reverseRecOn with
  | nil => exact absurd (by rw [List.append_nil]) hne
  | append_singleton more text ih =>
    rw [← List.append_assoc] at hne ⊢
    refine since_concat.mpr ⟨hmore text (by simp), or_iff_not_imp_left.mpr fun hnot => ?_⟩
    rw [shownFrom_concat, if_neg hnot, List.append_nil] at hne
    exact ih (fun t ht => hmore t (List.mem_append_left _ ht)) hne

/-- Two lists of texts that make no difference to what comes after them. -/
structure Alike (texts texts' : List String) : Prop where
  shown : Since Shown texts ↔ Since Shown texts'
  layer : Since (fun _ => IsLayer) texts ↔ Since (fun _ => IsLayer) texts'

namespace Alike

theorem shown_iff (h : Alike texts texts') (text : String) :
    Shown texts text ↔ Shown texts' text := by
  have hplain : Plain texts text ↔ Plain texts' text := by
    constructor
    · exact fun ⟨h₁, h₂, h₃, h₄, h₅⟩ => ⟨h₁, h₂, h₃, h₄, fun hbuilt => h.layer.not.mp (h₅ hbuilt)⟩
    · exact fun ⟨h₁, h₂, h₃, h₄, h₅⟩ => ⟨h₁, h₂, h₃, h₄, fun hbuilt => h.layer.not.mpr (h₅ hbuilt)⟩
  rw [Legacy.shown_iff, Legacy.shown_iff, hplain, h.shown]

theorem concat (h : Alike texts texts') (text : String) :
    Alike (texts ++ [text]) (texts' ++ [text]) := by
  constructor
  · rw [since_concat, since_concat, h.shown_iff, h.shown]
  · rw [since_concat, since_concat, h.layer]

theorem of_line (hline : IsStepLine line) (texts texts' : List String) :
    Alike (texts ++ [line]) (texts' ++ [line]) := by
  constructor
  · exact iff_of_false (not_since_line hline) (not_since_line hline)
  · exact iff_of_false (not_since_line hline) (not_since_line hline)

open scoped Classical in
theorem shownFrom_eq (h : Alike texts texts') (later : List String) :
    shownFrom texts later = shownFrom texts' later := by
  induction later generalizing texts texts' with
  | nil => rfl
  | cons text later ih =>
    rw [shownFrom, shownFrom, ih (h.concat text), if_congr (h.shown_iff text) rfl rfl]

end Alike

/-- What comes before a step line makes no difference to what comes after it. -/
theorem shownFrom_line (hline : IsStepLine line) (texts later : List String) :
    shownFrom [] (texts ++ line :: later) = shownFrom [] texts ++ shownFrom [] (line :: later) := by
  have hnone (texts : List String) : ¬ Shown texts line := fun h => h.plain.unread hline
  rw [shownFrom_append, List.nil_append, shownFrom, shownFrom, if_neg (hnone _), if_neg (hnone _),
    (Alike.of_line hline texts []).shownFrom_eq]

end Lists

namespace Parser

variable {handler : Handler} {p p' : Parser} {events : List Event} {s : Parser × Delivery}

/-- The two marks of the parser after these texts. -/
structure Watches (texts : List String) (p : Parser) : Prop where
  shown : p.shown = true ↔ Since Shown texts
  layered : p.layered = true ↔ Since (fun _ => IsLayer) texts

theorem leavesOut_iff (p : Parser) (text : String) : p.leavesOut text.toList = true ↔
    (¬ p.shown = true ∧ Quiet text) ∨ Marked "Removing intermediate container " text.toList ∨
      IsLayer text ∨ (p.layered = true ∧ Marked "Successfully built " text.toList) := by
  have hfeed : text.toList = ['\n'] ↔ text = "\n" := by
    rw [← String.toList_inj]
    rfl
  simp only [leavesOut, isRunningLine, isRemovalLine, isLayerLine, isBuiltLine, Bool.or_eq_true,
    Bool.and_eq_true, Bool.not_eq_true', Bool.not_eq_true, beq_iff_eq, isMarked_iff, hfeed, Quiet,
    IsLayer, or_assoc]

theorem afterLeftOut_shown (p : Parser) (text : List Char) :
    (p.afterLeftOut text).shown = p.shown := by
  unfold afterLeftOut
  split <;> rfl

theorem afterLeftOut_layered (p : Parser) (text : List Char) :
    (p.afterLeftOut text).layered = true ↔ Marked " ---> " text ∨ p.layered = true := by
  unfold afterLeftOut
  rw [isLayerLine, ← isMarked_iff]
  split <;> simp_all

namespace Watches

theorem initial : Watches [] {} where
  shown := iff_of_false (by decide) not_since_nil
  layered := iff_of_false (by decide) not_since_nil

theorem enter (hline : IsStepLine text) (p : Parser) (step : Nat) (name : List Char) :
    Watches (texts ++ [text]) (p.enter step name) where
  shown := iff_of_false Bool.false_ne_true (not_since_line hline)
  layered := iff_of_false Bool.false_ne_true (not_since_line hline)

theorem not_shown (h : Watches texts p) (out : p.leavesOut text.toList = true) :
    ¬ Shown texts text := by
  rw [Legacy.shown_iff, ← h.shown]
  rintro ⟨plain, hquiet⟩
  rcases (leavesOut_iff p text).mp out with ⟨hnot, quiet⟩ | removal | layer | ⟨hlayered, built⟩
  · exact hnot (hquiet quiet)
  · exact plain.removal removal
  · exact plain.layer layer
  · exact plain.built built (h.layered.mp hlayered)

theorem is_shown (h : Watches texts p) (hsome : text ≠ "") (hunread : ¬ IsStepLine text)
    (kept : p.leavesOut text.toList = false) : Shown texts text := by
  have hkept := (leavesOut_iff p text).not.mp (by simp [kept])
  simp only [not_or, not_and] at hkept
  obtain ⟨hquiet, removal, layer, hbuilt⟩ := hkept
  rw [Legacy.shown_iff, ← h.shown]
  refine ⟨⟨hsome, hunread, removal, layer, fun built hlayer => ?_⟩, fun quiet => ?_⟩
  · exact hbuilt (h.layered.mpr hlayer) built
  · by_contra hnot
    exact hquiet hnot quiet

/-- What a text that is no step line does to the marks. -/
theorem concat (h : Watches texts p) (hunread : ¬ IsStepLine text)
    (hshown : p'.shown = true ↔ Shown texts text ∨ p.shown = true)
    (hlayered : p'.layered = true ↔ IsLayer text ∨ p.layered = true) : Watches (texts ++ [text]) p' where
  shown := by rw [hshown, h.shown, since_concat, and_iff_right hunread]
  layered := by rw [hlayered, h.layered, since_concat, and_iff_right hunread]

/-- A text keeps the marks true, and the output that it tells is what is shown. -/
theorem reads (h : Watches texts p) (hreads : Reads p text events p') :
    Watches (texts ++ [text]) p' ∧
      shownFrom [] (texts ++ [text]) = shownFrom [] texts ++ outputs events := by
  have hother (hnone : StepLine.read? text.toList = none) : ¬ IsStepLine text := by
    intro hline
    obtain ⟨_, hread⟩ := exists_read_iff.mpr hline
    cases hnone.symm.trans hread
  rw [shownFrom_concat]
  cases hreads with
  | @line line step read fits =>
    have hline : IsStepLine text := exists_read_iff.mp ⟨line, read⟩
    have hnot : ¬ Shown texts text := fun hshown => hshown.plain.unread hline
    refine ⟨enter hline p step line.name, ?_⟩
    rw [if_neg hnot, closing]
    split <;> rfl
  | leftOut unread out =>
    have hnot := h.not_shown out
    refine ⟨h.concat (hother unread) ?_ (afterLeftOut_layered p text.toList), by rw [if_neg hnot]; rfl⟩
    rw [afterLeftOut_shown, or_iff_right hnot]
  | output unread kept some =>
    have hshown := h.is_shown some (hother unread) kept
    refine ⟨h.concat (hother unread) (iff_of_true rfl (Or.inl hshown)) ?_, by rw [if_pos hshown]; rfl⟩
    rw [or_iff_right hshown.plain.layer]
  | empty hempty =>
    have hnot : ¬ Shown texts text := fun hshown => hshown.plain.some hempty
    have hlayer : ¬ IsLayer text := by
      rw [hempty]
      exact fun hlayer => absurd (Marked.mem_lineFeed hlayer) (by decide)
    refine ⟨h.concat (hother ?_) (or_iff_right hnot).symm (or_iff_right hlayer).symm,
      by rw [if_neg hnot]; rfl⟩
    rw [hempty]
    rfl

end Watches

theorem outputs_append (told events : List Event) :
    outputs (told ++ events) = outputs told ++ outputs events :=
  List.filterMap_append

theorem outputs_reports (p : Parser) (m : Message) :
    outputs (p.progressEvents m ++ failureEvents m) = [] := by
  rw [outputs_append, List.append_eq_nil_iff]
  constructor
  · unfold progressEvents progressEvent
    split
    · split <;> rfl
    · rfl
  · unfold failureEvents
    cases m.failure? <;> rfl

/-- After these texts, the output that was told is what is shown of them. -/
structure Shows (handler : Handler) (texts : List String) (s : Parser × Delivery) : Prop where
  sound : Sound handler s
  ready : Ready s
  watches : Watches texts s.1
  told : outputs s.2.history = shownFrom [] texts

namespace Shows

theorem initial (handler : Handler) (cancelled : Bool) : Shows handler [] ({}, { cancelled }) where
  sound := .initial handler cancelled
  ready := ⟨rfl, fun h => absurd rfl h⟩
  watches := .initial
  told := rfl

theorem ready_take (h : Shows handler texts s) (hgoes : handler.GoesOn) {input : Input}
    (hinput : input.Unfailing) : Ready (take handler input s).2 := by
  cases input with
  | message m =>
    obtain ⟨hfits, hsound⟩ := hinput
    have hjudge : judge (refusal? m.stream) m.failure? = .ok () :=
      judge_eq_ok_iff.mpr ⟨(refusal?_eq_none_iff m.stream).mpr hfits, hsound⟩
    have hends : Action.Ends (onMessage handler m) s (fun _ => Ready) (fun _ _ => False) := by
      apply (h.ready.onMessage hgoes m).mono
      · exact fun _ _ hgood => hgood.1
      · rintro e _ ⟨_, herror⟩
        cases hjudge.symm.trans herror
    obtain ⟨_, u, hrun, hready⟩ := hends.exists_run
    rw [take, hrun]
    exact hready
  | upload bytes =>
    obtain ⟨_, u, hrun, hready, _⟩ := (h.ready.onUpload hgoes bytes).exists_run
    rw [take, hrun]
    exact hready

theorem take (h : Shows handler texts s) (hgoes : handler.GoesOn) {input : Input}
    (hinput : input.Unfailing) :
    Shows handler (texts ++ [input.text]) (Parser.take handler input s).2 := by
  have hready := h.ready_take hgoes hinput
  cases input with
  | message m =>
    rcases onMessage_tells s.1 m with ⟨line, hread, hlarge, _⟩ | ⟨events, p₁, imageId, hreads, htells⟩
    · exact absurd ⟨line, hread, hlarge⟩ hinput.1
    · obtain ⟨hsaid, hrecalls⟩ := (h.sound.recalls h.ready.opened).text hreads
      obtain ⟨hwatches, hshown⟩ := h.watches.reads hreads
      -- What the message adds fits the story so far, so that the guard takes all of it.
      obtain ⟨hhistory, hstate⟩ := htells.delivered_all h.sound.kept h.ready.opened
        (Account.message hsaid (hrecalls.report m)).fitting hready.opened
      refine ⟨h.sound.take _, hready, ?_, ?_⟩
      · rw [Parser.take, hstate]
        exact ⟨hwatches.shown, hwatches.layered⟩
      · rw [Parser.take, hhistory, outputs_append, outputs_append, outputs_reports, List.append_nil,
          h.told]
        exact hshown.symm
  | upload bytes =>
    have hfits : Delivery.Fitting s.2.history [.contextUploadProgress s.1.step bytes] := by
      rw [(h.sound.recalls h.ready.opened).step]
      exact (Account.upload bytes).fitting
    have hempty : Reads s.1 "" [] s.1 := .empty rfl
    obtain ⟨hwatches, hshown⟩ := h.watches.reads hempty
    obtain ⟨hhistory, hstate⟩ := (onUpload_tells s.1 bytes).delivered_all h.sound.kept
      h.ready.opened hfits hready.opened
    refine ⟨h.sound.take _, hready, ?_, ?_⟩
    · rw [Parser.take, hstate]
      exact hwatches
    · rw [Parser.take, hhistory, outputs_append, h.told]
      exact hshown.symm

theorem after (hgoes : handler.GoesOn) (cancelled : Bool) {inputs : List Input}
    (hinputs : ∀ input ∈ inputs, input.Unfailing) :
    Shows handler (inputs.map Input.text) (Parser.after handler cancelled inputs) := by
  induction inputs using List.reverseRecOn with
  | nil => exact initial handler cancelled
  | append_singleton inputs input ih =>
    obtain ⟨hearlier, hlast⟩ := List.forall_mem_append.mp hinputs
    rw [List.map_append, Parser.after, List.foldl_append]
    exact (ih hearlier).take hgoes (hlast input List.mem_cons_self)

end Shows

instance (text : String) : Decidable (Oversized text) :=
  decidable_of_iff (¬ refusal? text = none) (by rw [refusal?_eq_none_iff, not_not])

instance : (input : Input) → Decidable input.Unfailing
  | .message m => inferInstanceAs (Decidable (¬ Oversized m.stream ∧ m.failure? = none))
  | .upload _ => inferInstanceAs (Decidable True)

/-- While the handler does not stop and no input fails, the output that is told is what is shown of the
texts. Once a step has shown output, no later text of it is left out for being quiet; and what comes
before a step line makes no difference to what is told from there on. -/
theorem output_shown (hgoes : handler.GoesOn) (cancelled : Bool) (inputs : List Input)
    (hinputs : ∀ input ∈ inputs, input.Unfailing) :
    let shown (inputs : List Input) := outputs (after handler cancelled inputs).2.history
    shown inputs = shownFrom [] (inputs.map Input.text) ∧
    (∀ earlier between input later, inputs = earlier ++ between ++ input :: later →
      (∀ i ∈ between, ¬ IsStepLine i.text) → shown (earlier ++ between) ≠ shown earlier →
      Quiet input.text →
      shown (earlier ++ between ++ [input]) = shown (earlier ++ between) ++ [input.text]) ∧
    ∀ earlier line later, inputs = earlier ++ line :: later → IsStepLine line.text →
      shown inputs = shown earlier ++ shown (line :: later) := by
  intro shown
  have hshown (some : List Input) (hsome : some ⊆ inputs) :
      shown some = shownFrom [] (some.map Input.text) :=
    (Shows.after hgoes cancelled fun input hin => hinputs input (hsome hin)).told
  refine ⟨hshown inputs (List.Subset.refl _), ?_, ?_⟩
  · rintro earlier between input later rfl hbetween hne hquiet
    have hall : shown (earlier ++ between) = _ := hshown _ (List.subset_append_left _ _)
    have hfirst : shown earlier = _ := hshown _ (by simp)
    have hnext : shown (earlier ++ between ++ [input]) = _ := hshown _ (by simp)
    rw [hall, hfirst, List.map_append] at hne
    have hsince := since_shown_of_ne (by simpa using hbetween) hne
    rw [hnext, hall, List.map_append, List.map_append, List.map_singleton, shownFrom_concat,
      if_pos (.again (hquiet.plain _) hsince)]
  · rintro earlier line later rfl hline
    rw [hshown _ (List.Subset.refl _), hshown _ (List.subset_append_left _ _),
      hshown _ (List.subset_append_right _ _), List.map_append, List.map_cons, shownFrom_line hline]

theorem output_shown_two_steps :
    let texts := ["Step 1/2 : RUN make", "\n", " ---> Running in 0123456789ab\n", "done\n", "\n",
      " ---> 0123456789ab\n", "Step 2/2 : RUN check", "\n", "checked"]
    let inputs := texts.map fun text => Input.message { stream := text }
    (∀ input ∈ inputs, input.Unfailing) ∧
      outputs (after .quiet false inputs).2.history = ["done\n", "\n", "checked"] ∧
      shownFrom [] texts = ["done\n", "\n", "checked"] := by
  intro texts inputs
  have hinputs : ∀ input ∈ inputs, input.Unfailing := by decide
  have htold : outputs (after .quiet false inputs).2.history = ["done\n", "\n", "checked"] := by
    decide
  have hgoes : Handler.quiet.GoesOn := fun _ _ => rfl
  obtain ⟨hshown, _⟩ := output_shown hgoes false inputs hinputs
  exact ⟨hinputs, htold, hshown.symm.trans htold⟩

end Parser

end BuildProgress.Legacy
