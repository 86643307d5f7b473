import BuildProgress.Proofs.Transcript

/-!
# The pieces of a transcript

A transcript is text. What it says of a step is said in lines of six kinds, and the account of a
build keeps them apart before they become text, each with the reading of the clock that it shows. From
it one can read off whether a step was named, and how often its end was shown, also where a name looks
like one of the other lines.
-/

namespace BuildProgress.Transcript

set_option autoImplicit false

/-- What a line says of its step. -/
inductive Line where
  | name (text : String)
  | cached
  | failure (message : String)
  | done (elapsed : String)
  | counter (id : String)
  | output (elapsed : String) (text : List Char)
deriving DecidableEq, Repr

namespace Line

def text (color : Bool) : Line → String
  | name text => paint color .bold text
  | cached => paint color .cyan "CACHED"
  | failure message => paint color .red ("ERROR: " ++ message)
  | done elapsed => paint color .green "DONE" ++ " " ++ elapsed
  | counter id => id ++ " done"
  | output elapsed text => paint color .dimmed elapsed ++ " " ++ String.ofList text

def isName : Line → Bool
  | name _ => true
  | _ => false

/-- The line shows the end of its step. -/
def isFinish : Line → Bool
  | cached => true
  | done _ => true
  | _ => false

end Line

/-- One record: a line about a step, or what is shown of a message. -/
inductive Piece where
  | line (step : Nat) (said : Line)
  | message (record : String)
deriving DecidableEq, Repr

def Piece.text (color : Bool) : Piece → String
  | line step said => stepRecord step (said.text color)
  | message record => record

def Piece.lineOf? (step : Nat) : Piece → Option Line
  | line n said => if n = step then some said else none
  | message _ => none

/-- The lines about one step. -/
def linesOf (step : Nat) (pieces : List Piece) : List Line :=
  pieces.filterMap (Piece.lineOf? step)

def namePieces (step : Nat) (name : String) (t : Transcript) : List Piece :=
  if step ∈ t.announced then [] else [.line step (.name name)]

def endPieces (step : Nat) (v : Vertex) (t : Transcript) : List Piece :=
  if v.cached ∧ step ∉ t.finished then [.line step .cached]
  else if v.error ≠ "" then [.line step (.failure v.error)]
  else if v.isCompleted ∧ step ∉ t.finished then [.line step (.done t.elapsed)]
  else []

def vertexPieces (stepOf : String → Option Nat) (v : Vertex) (t : Transcript) : List Piece :=
  match stepOf v.digest with
  | some step => namePieces step v.name t ++ endPieces step v t
  | none => []

def statusPieces (stepOf : String → Option Nat) (s : VertexStatus) : List Piece :=
  match stepOf s.vertex with
  | some step => if s.completed.isSome ∧ s.id ≠ "" then [.line step (.counter s.id)] else []
  | none => []

def logPieces (stepOf : String → Option Nat) (l : VertexLog) (t : Transcript) : List Piece :=
  match stepOf l.vertex with
  | some step =>
    (Text.lines (Utf8.decodeLossy l.data)).map fun line => .line step (.output t.elapsed line)
  | none => []

/-- What is written of things that `f` shows one after the other, given what is written of each. -/
def piecesAlong {α : Type} (f : Transcript → α → Transcript) (g : α → Transcript → List Piece) :
    List α → Transcript → List Piece
  | [], _ => []
  | x :: xs, t => g x t ++ piecesAlong f g xs (f t x)

def batchPieces (stepOf : String → Option Nat) (b : Batch) (t : Transcript) : List Piece :=
  let vertices := shownVertices b.vertices
  let counted := b.statuses.foldl (showStatus stepOf) (vertices.foldl (showVertex stepOf) t)
  piecesAlong (showVertex stepOf) (vertexPieces stepOf) vertices t ++
    (b.statuses.flatMap (statusPieces stepOf) ++
      piecesAlong (showLog stepOf) (logPieces stepOf) b.logs counted)

/-- What a transcript is shown at once. -/
inductive Exhibit where
  | message (m : Message)
  /-- A batch with the step numbers that it is shown with. -/
  | batch (stepOf : String → Option Nat) (b : Batch)

namespace Exhibit

def exhibit : Exhibit → Transcript → Transcript
  | message m, t => t.showMessage m
  | batch stepOf b, t => t.showBatch stepOf b

def pieces : Exhibit → Transcript → List Piece
  | message m, t => ((messageRecord? t.color m).map Piece.message).toList
  | batch stepOf b, t => batchPieces stepOf b t

end Exhibit

def exhibitAll (exhibits : List Exhibit) (t : Transcript) : Transcript :=
  exhibits.foldl (fun t e => e.exhibit t) t

/-- What a transcript writes when it is shown one thing after the other. -/
def piecesOf : List Exhibit → Transcript → List Piece :=
  piecesAlong (fun t e => e.exhibit t) Exhibit.pieces

variable {t t' t'' : Transcript} {pieces more : List Piece} {stepOf : String → Option Nat}

section Along

variable {α : Type} (f : Transcript → α → Transcript) (g : α → Transcript → List Piece)

theorem piecesAlong_concat (xs : List α) (x : α) (t : Transcript) :
    piecesAlong f g (xs ++ [x]) t = piecesAlong f g xs t ++ g x (xs.foldl f t) := by
  induction xs generalizing t with
  | nil => exact List.append_nil _
  | cons first xs ih =>
    rw [List.cons_append, piecesAlong, ih, piecesAlong, List.append_assoc]
    rfl

/-- What is written of each thing alone may depend on nothing but that thing. -/
theorem piecesAlong_const (g : α → List Piece) (xs : List α) (t : Transcript) :
    piecesAlong f (fun x _ => g x) xs t = xs.flatMap g := by
  induction xs generalizing t with
  | nil => rfl
  | cons x xs ih => rw [piecesAlong, ih, List.flatMap_cons]

variable {f g}

theorem exists_of_mem_piecesAlong {piece : Piece} {xs : List α} (h : piece ∈ piecesAlong f g xs t) :
    ∃ x ∈ xs, ∃ u, piece ∈ g x u := by
  induction xs generalizing t with
  | nil => cases h
  | cons x xs ih =>
    rcases List.mem_append.mp h with hx | hxs
    · exact ⟨x, List.mem_cons_self, t, hx⟩
    · obtain ⟨y, hy, hpiece⟩ := ih hxs
      exact ⟨y, List.mem_cons_of_mem x hy, hpiece⟩

end Along

theorem linesOf_append (step : Nat) (pieces more : List Piece) :
    linesOf step (pieces ++ more) = linesOf step pieces ++ linesOf step more :=
  List.filterMap_append

theorem exhibitAll_concat (exhibits : List Exhibit) (e : Exhibit) (t : Transcript) :
    exhibitAll (exhibits ++ [e]) t = e.exhibit (exhibitAll exhibits t) :=
  List.foldl_concat _ _ _ _

theorem piecesOf_concat (exhibits : List Exhibit) (e : Exhibit) (t : Transcript) :
    piecesOf (exhibits ++ [e]) t = piecesOf exhibits t ++ e.pieces (exhibitAll exhibits t) :=
  piecesAlong_concat _ _ exhibits e t

theorem mem_linesOf {step : Nat} {line : Line} :
    line ∈ linesOf step pieces ↔ .line step line ∈ pieces := by
  rw [linesOf, List.mem_filterMap]
  constructor
  · rintro ⟨piece, hin, hline⟩
    cases piece with
    | line n said =>
      simp only [Piece.lineOf?, Option.ite_none_right_eq_some, Option.some.injEq] at hline
      obtain ⟨rfl, rfl⟩ := hline
      exact hin
    | message record => cases hline
  · intro hin
    exact ⟨_, hin, by simp [Piece.lineOf?]⟩

section Growth

structure Unfailing (t : Transcript) : Prop where
  room : t.room = none
  failed : t.failed = false

/-- The transcript after these pieces were written. -/
structure Grows (t : Transcript) (pieces : List Piece) (t' : Transcript) : Prop where
  unfailing : t'.Unfailing
  color : t'.color = t.color
  written : t'.written = t.written ++ pieces.map (Piece.text t.color)

namespace Grows

theorem refl (h : t.Unfailing) : Grows t [] t :=
  ⟨h, rfl, (List.append_nil _).symm⟩

theorem trans (h : Grows t pieces t') (h' : Grows t' more t'') : Grows t (pieces ++ more) t'' where
  unfailing := h'.unfailing
  color := h'.color.trans h.color
  written := by
    rw [h'.written, h.written, h.color, List.map_append, List.append_assoc]

theorem write (h : t.Unfailing) (piece : Piece) :
    Grows t [piece] (t.write (piece.text t.color)) := by
  unfold Transcript.write
  simp only [h.failed, h.room, Bool.false_eq_true, if_false]
  exact ⟨⟨rfl, rfl⟩, rfl, rfl⟩

theorem stepLine (h : t.Unfailing) (step : Nat) (line : Line) :
    Grows t [.line step line] (t.stepLine step (line.text t.color)) :=
  write h (.line step line)

theorem noted {readings : List String} {announced finished : List Nat}
    (h : Grows { t with readings, announced, finished } pieces t') : Grows t pieces t' :=
  ⟨h.unfailing, h.color, h.written⟩

theorem foldl {α : Type} {f : Transcript → α → Transcript} {g : α → Transcript → List Piece}
    (hf : ∀ t x, t.Unfailing → Grows t (g x t) (f t x)) (h : t.Unfailing) (xs : List α) :
    Grows t (piecesAlong f g xs t) (xs.foldl f t) := by
  induction xs generalizing t with
  | nil => exact refl h
  | cons x xs ih =>
    have hx := hf t x h
    exact hx.trans (ih hx.unfailing)

theorem showMessage (h : t.Unfailing) (m : Message) :
    Grows t ((messageRecord? t.color m).map Piece.message).toList (t.showMessage m) := by
  unfold Transcript.showMessage
  cases messageRecord? t.color m with
  | some record => exact write h (.message record)
  | none => exact refl h

theorem showName (h : t.Unfailing) (step : Nat) (name : String) :
    Grows t (namePieces step name t) (t.showName step name) := by
  unfold namePieces Transcript.showName
  split
  · exact refl h
  · have hnoted : Unfailing { t with announced := t.announced ++ [step] } := ⟨h.room, h.failed⟩
    exact noted (stepLine hnoted step (.name name))

theorem showEnd (h : t.Unfailing) (step : Nat) (v : Vertex) :
    Grows t (endPieces step v t) (t.showEnd step v) := by
  have hnoted : Unfailing (t.noteEnd step) := ⟨h.room, h.failed⟩
  have hread : Unfailing (t.noteEnd step).noteReading := ⟨h.room, h.failed⟩
  have hopen : Unfailing (t.noteOpen step) := ⟨h.room, h.failed⟩
  unfold endPieces Transcript.showEnd
  split
  · exact noted (stepLine hnoted step .cached)
  · split
    · exact stepLine h step (.failure v.error)
    · by_cases hdone : v.isCompleted = true
      · by_cases hin : step ∈ t.finished
        · rw [if_neg (fun hboth => hboth.2 hin), if_pos hdone, if_pos hin]
          exact refl h
        · rw [if_pos ⟨hdone, hin⟩, if_pos hdone, if_neg hin]
          exact noted (stepLine hread step (.done t.elapsed))
      · rw [if_neg (fun hboth => hdone hboth.1), if_neg hdone]
        exact noted (refl hopen)

end Grows

/-- The two have named the same steps and take the same steps for ended. -/
structure SameSteps (t t' : Transcript) : Prop where
  announced : t'.announced = t.announced
  finished : t'.finished = t.finished

namespace SameSteps

theorem refl (t : Transcript) : SameSteps t t :=
  ⟨rfl, rfl⟩

theorem trans (h : SameSteps t t') (h' : SameSteps t' t'') : SameSteps t t'' :=
  ⟨h'.announced.trans h.announced, h'.finished.trans h.finished⟩

theorem write (t : Transcript) (record : String) : SameSteps t (t.write record) := by
  unfold Transcript.write
  split
  · exact refl t
  · split <;> exact ⟨rfl, rfl⟩

theorem foldl {α : Type} {f : Transcript → α → Transcript} (hf : ∀ t x, SameSteps t (f t x))
    (t : Transcript) (xs : List α) : SameSteps t (xs.foldl f t) := by
  induction xs generalizing t with
  | nil => exact refl t
  | cons x xs ih => exact (hf t x).trans (ih (f t x))

theorem showMessage (t : Transcript) (m : Message) : SameSteps t (t.showMessage m) := by
  unfold Transcript.showMessage
  split
  · exact write t _
  · exact refl t

theorem showStatus (stepOf : String → Option Nat) (t : Transcript) (s : VertexStatus) :
    SameSteps t (showStatus stepOf t s) := by
  unfold Transcript.showStatus
  split
  · split
    · exact write t _
    · exact refl t
  · exact refl t

theorem showLog (stepOf : String → Option Nat) (t : Transcript) (l : VertexLog) :
    SameSteps t (showLog stepOf t l) := by
  unfold Transcript.showLog
  split
  · have hread : SameSteps t t.noteReading := ⟨rfl, rfl⟩
    exact hread.trans (foldl (fun u _ => write u _) _ _)
  · exact refl t

/-- Only its vertices name or end steps. -/
theorem showBatch (stepOf : String → Option Nat) (b : Batch) (t : Transcript) :
    SameSteps ((shownVertices b.vertices).foldl (showVertex stepOf) t) (t.showBatch stepOf b) :=
  (foldl (showStatus stepOf) _ b.statuses).trans (foldl (showLog stepOf) _ b.logs)

end SameSteps

@[simp] theorem stepLine_announced (step : Nat) (text : String) (t : Transcript) :
    (t.stepLine step text).announced = t.announced :=
  (SameSteps.write t _).announced

@[simp] theorem stepLine_finished (step : Nat) (text : String) (t : Transcript) :
    (t.stepLine step text).finished = t.finished :=
  (SameSteps.write t _).finished

@[simp] theorem stepLine_elapsed (step : Nat) (text : String) (t : Transcript) :
    (t.stepLine step text).elapsed = t.elapsed := by
  unfold stepLine write
  split
  · rfl
  · split <;> rfl

@[simp] theorem showName_elapsed (step : Nat) (name : String) (t : Transcript) :
    (t.showName step name).elapsed = t.elapsed := by
  unfold showName
  split
  · rfl
  · exact stepLine_elapsed _ _ _

@[simp] theorem showName_finished (step : Nat) (name : String) (t : Transcript) :
    (t.showName step name).finished = t.finished := by
  unfold showName
  split
  · rfl
  · exact stepLine_finished _ _ _

theorem mem_showName_announced {step n : Nat} {name : String} :
    n ∈ (t.showName step name).announced ↔ n ∈ t.announced ∨ n = step := by
  unfold showName
  split
  · constructor
    · exact Or.inl
    · intro hin
      cases hin with
      | inl hin => exact hin
      | inr heq =>
        subst heq
        assumption
  · rw [stepLine_announced, List.mem_append, List.mem_singleton]

@[simp] theorem showEnd_announced (step : Nat) (v : Vertex) (t : Transcript) :
    (t.showEnd step v).announced = t.announced := by
  unfold showEnd
  split
  · exact stepLine_announced _ _ _
  · split
    · exact stepLine_announced _ _ _
    · split
      · split
        · rfl
        · exact stepLine_announced _ _ _
      · rfl

theorem endPieces_showName (step other : Nat) (v : Vertex) (name : String) (t : Transcript) :
    endPieces step v (t.showName other name) = endPieces step v t := by
  unfold endPieces
  rw [showName_finished, showName_elapsed]

namespace Grows

theorem showVertex (h : t.Unfailing) (stepOf : String → Option Nat) (v : Vertex) :
    Grows t (vertexPieces stepOf v t) (showVertex stepOf t v) := by
  unfold vertexPieces Transcript.showVertex
  cases stepOf v.digest with
  | none => exact refl h
  | some step =>
    have hname := showName h step v.name
    have hend := showEnd hname.unfailing step v
    rw [endPieces_showName] at hend
    exact hname.trans hend

theorem showStatus (h : t.Unfailing) (stepOf : String → Option Nat) (s : VertexStatus) :
    Grows t (statusPieces stepOf s) (showStatus stepOf t s) := by
  unfold statusPieces Transcript.showStatus
  cases stepOf s.vertex with
  | none => exact refl h
  | some step =>
    dsimp only
    split
    · exact stepLine h step (.counter s.id)
    · exact refl h

theorem showLog (h : t.Unfailing) (stepOf : String → Option Nat) (l : VertexLog) :
    Grows t (logPieces stepOf l t) (showLog stepOf t l) := by
  unfold logPieces Transcript.showLog
  cases stepOf l.vertex with
  | none => exact refl h
  | some step =>
    have hread : Unfailing t.noteReading := ⟨h.room, h.failed⟩
    have hline : ∀ (u : Transcript) (line : List Char), u.Unfailing →
        Grows u [.line step (.output t.elapsed line)]
          (u.stepLine step (paint u.color .dimmed t.elapsed ++ " " ++ String.ofList line)) :=
      fun u line hu => stepLine hu step (.output t.elapsed line)
    have hlines := foldl hline hread (Text.lines (Utf8.decodeLossy l.data))
    rw [piecesAlong_const, ← List.map_eq_flatMap] at hlines
    exact noted hlines

theorem showBatch (h : t.Unfailing) (stepOf : String → Option Nat) (b : Batch) :
    Grows t (batchPieces stepOf b t) (t.showBatch stepOf b) := by
  have hvertices := foldl (fun _ v hu => showVertex hu stepOf v) h (shownVertices b.vertices)
  have hstatuses := foldl (fun _ s hu => showStatus hu stepOf s) hvertices.unfailing b.statuses
  have hlogs := foldl (fun _ l hu => showLog hu stepOf l) hstatuses.unfailing b.logs
  rw [piecesAlong_const] at hstatuses
  exact hvertices.trans (hstatuses.trans hlogs)

theorem exhibit (h : t.Unfailing) (e : Exhibit) : Grows t (e.pieces t) (e.exhibit t) := by
  cases e with
  | message m => exact showMessage h m
  | batch stepOf b => exact showBatch h stepOf b

/-- A transcript is the text of its pieces. -/
theorem exhibitAll (h : t.Unfailing) (exhibits : List Exhibit) :
    Grows t (piecesOf exhibits t) (exhibitAll exhibits t) :=
  foldl (fun _ e hu => exhibit hu e) h exhibits

end Grows

end Growth

end BuildProgress.Transcript
