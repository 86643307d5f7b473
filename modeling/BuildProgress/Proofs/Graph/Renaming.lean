import BuildProgress.Graph.Tracer
import BuildProgress.Proofs.Graph.Order

/-!
# Renamed digests

A digest is a name and nothing more. The order of a batch compares digests with each other and looks
at nothing else of them, so that records whose digests are renamed one to one come in the same order.
-/

namespace BuildProgress

set_option autoImplicit false

def Vertex.rename (f : String → String) (v : Vertex) : Vertex :=
  { v with digest := f v.digest, inputs := v.inputs.map f }

def VertexStatus.rename (f : String → String) (s : VertexStatus) : VertexStatus :=
  { s with vertex := f s.vertex }

def VertexLog.rename (f : String → String) (l : VertexLog) : VertexLog :=
  { l with vertex := f l.vertex }

def Batch.rename (f : String → String) (b : Batch) : Batch where
  vertices := b.vertices.map (Vertex.rename f)
  statuses := b.statuses.map (VertexStatus.rename f)
  logs := b.logs.map (VertexLog.rename f)

def Entry.rename (f : String → String) (e : Entry) : Entry :=
  { e with vertex := e.vertex.rename f }

def ContractFault.rename (f : String → String) : ContractFault → ContractFault
  | cyclicInputs digests => cyclicInputs (digests.map f)
  | unknownVertex digest => unknownVertex (f digest)
  | fault => fault

/-- The same error, with the digests that it names renamed. -/
def BuildError.rename (f : String → String) : BuildError → BuildError
  | contractViolation fault => contractViolation (fault.rename f)
  | e => e

variable {f : String → String}

section Display

theorem insertBy_map {α : Type} {key : α → Nat} {g : α → α} (hkey : ∀ x, key (g x) = key x) (x : α)
    (xs : List α) : insertBy key (g x) (xs.map g) = (insertBy key x xs).map g := by
  induction xs with
  | nil => rfl
  | cons y ys ih =>
    simp only [List.map_cons, insertBy, hkey]
    split
    · rfl
    · rw [ih, List.map_cons]

theorem sortBy_map {α : Type} {key : α → Nat} {g : α → α} (hkey : ∀ x, key (g x) = key x)
    (xs : List α) : sortBy key (xs.map g) = (sortBy key xs).map g := by
  induction xs with
  | nil => rfl
  | cons x xs ih =>
    have hcons : ∀ (x : α) (xs : List α), sortBy key (x :: xs) = insertBy key x (sortBy key xs) :=
      fun _ _ => rfl
    rw [List.map_cons, hcons, hcons, ih, insertBy_map hkey]

theorem takeFirst?_map {α : Type} {p : α → Bool} {g : α → α} (hp : ∀ x, p (g x) = p x)
    (xs : List α) : takeFirst? p (xs.map g) =
      (takeFirst? p xs).map fun taken => (g taken.1, taken.2.map g) := by
  induction xs with
  | nil => rfl
  | cons x xs ih =>
    simp only [List.map_cons, takeFirst?, hp]
    split
    · rfl
    · rw [ih]
      cases takeFirst? p xs <;> rfl

theorem dealStages_rename (places queue : List Entry) :
    dealStages (queue.map (Entry.rename f)) (places.map (Entry.rename f)) =
      (dealStages queue places).map (Entry.rename f) := by
  induction places generalizing queue with
  | nil => rfl
  | cons e places ih =>
    have hstage : (e.rename f).stage? = e.stage? := rfl
    simp only [List.map_cons, dealStages, hstage]
    cases e.stage? with
    | none => simp only [List.map_cons, ih]
    | some stage =>
      dsimp only
      have hkept : ∀ q : Entry, ((q.rename f).stage? == some stage) = (q.stage? == some stage) :=
        fun _ => rfl
      have htake : takeFirst? (fun q => q.stage? == some stage) (queue.map (Entry.rename f)) =
          (takeFirst? (fun q => q.stage? == some stage) queue).map
            fun taken => (taken.1.rename f, taken.2.map (Entry.rename f)) :=
        takeFirst?_map hkept queue
      rw [htake]
      cases takeFirst? (fun q => q.stage? == some stage) queue with
      | none => simp only [Option.map_none, List.map_cons, ih]
      | some taken => simp only [Option.map_some, List.map_cons, ih]

/-- Where a record is shown depends on names only. -/
theorem displayList_rename (vertices : List Vertex) :
    displayList (vertices.map (Vertex.rename f)) =
      (displayList vertices).map (Entry.rename f) := by
  have hentries : entries (vertices.map (Vertex.rename f)) =
      (entries vertices).map (Entry.rename f) := by
    rw [entries, entries, List.zipIdx_map, List.map_map, List.map_map]
    rfl
  have hrank : ∀ e : Entry, (e.rename f).rank = e.rank := fun _ => rfl
  have hstep : ∀ e : Entry, (e.rename f).stepKey = e.stepKey := fun _ => rfl
  rw [displayList, displayList, hentries, sortBy_map hrank, sortStages, sortStages, sortBy_map hstep,
    dealStages_rename]

end Display

namespace Worklist

variable (hf : Function.Injective f)
include hf

theorem waits_rename (vertices : List Vertex) (v : Vertex) :
    waits (vertices.map (Vertex.rename f)) (v.rename f) = waits vertices v := by
  have hcount : ∀ input, (vertices.map (Vertex.rename f)).countP (·.digest == f input) =
      vertices.countP (·.digest == input) := by
    intro input
    rw [List.countP_map]
    congr 1
    funext w
    simp [Vertex.rename, hf.eq_iff]
  rw [waits, waits, Vertex.rename, List.map_map]
  congr 1
  exact List.map_congr_left fun input _ => hcount input

theorem dependents_rename (vertices : List Vertex) (digest : String) :
    dependents (vertices.map (Vertex.rename f)) (f digest) = dependents vertices digest := by
  have hcount : ∀ v : Vertex, (v.rename f).inputCount (f digest) = v.inputCount digest :=
    fun v => List.count_map_of_injective v.inputs f hf digest
  rw [dependents, dependents, List.zipIdx_map, List.flatMap_map]
  simp only [Prod.map_fst, Prod.map_snd, hcount, id]

theorem initial_rename (vertices : List Vertex) :
    initial (vertices.map (Vertex.rename f)) = initial vertices := by
  have hwaits : (vertices.map (Vertex.rename f)).map (waits (vertices.map (Vertex.rename f))) =
      vertices.map (waits vertices) := by
    rw [List.map_map]
    exact List.map_congr_left fun v _ => waits_rename hf vertices v
  rw [initial, initial, hwaits]

theorem takeNext?_rename {vertices : List Vertex} {w : Worklist} (h : Sound vertices w) :
    w.takeNext? (vertices.map (Vertex.rename f)) = w.takeNext? vertices := by
  unfold takeNext?
  cases hready : w.ready with
  | nil => rfl
  | cons position later =>
    have hlt := (h.ready_head hready).1
    have hdigest : ((vertices.map (Vertex.rename f)).getD position {}).digest =
        f (vertices.getD position {}).digest := by
      simp [hlt, Vertex.rename]
    simp only [hdigest, dependents_rename hf]

theorem exhaust_rename {vertices : List Vertex} {w : Worklist} (h : Sound vertices w) (fuel : Nat) :
    exhaust (vertices.map (Vertex.rename f)) fuel w = exhaust vertices fuel w := by
  induction fuel generalizing w with
  | zero => rfl
  | succ fuel ih =>
    rw [exhaust, exhaust, takeNext?_rename hf h]
    cases hnext : w.takeNext? vertices with
    | none => rfl
    | some next => exact ih (h.takeNext hnext)

theorem final_rename (vertices : List Vertex) :
    final (vertices.map (Vertex.rename f)) = final vertices := by
  rw [final, final, initial_rename hf, List.length_map]
  exact exhaust_rename hf (.initial vertices) vertices.length

end Worklist

section Order

variable (hf : Function.Injective f)
include hf

/-- The work is the same, so that the same positions are taken and the same are left. -/
theorem settle_rename (display : List Entry) : settle (display.map (Entry.rename f)) =
    ((settle display).map (List.map (Entry.rename f))).mapError (BuildError.rename f) := by
  have hsound := sound_final display
  have hvertices : (display.map (Entry.rename f)).map (·.vertex) =
      (display.map (·.vertex)).map (Vertex.rename f) := by
    rw [List.map_map, List.map_map]
    rfl
  have hentry : ∀ p < display.length,
      (display.map (Entry.rename f)).getD p default = (display.getD p default).rename f := by
    intro p hp
    simp [hp]
  unfold settle
  simp only [hvertices, Worklist.final_rename hf, List.length_map]
  split
  · simp only [Except.map, Except.mapError, List.map_map]
    congr 1
    apply List.map_congr_left
    intro p hp
    have hlt := hsound.taken_lt p hp
    rw [List.length_map] at hlt
    exact hentry p hlt
  · simp only [Except.map, Except.mapError, BuildError.rename, ContractFault.rename, List.map_map]
    congr 3
    apply List.map_congr_left
    intro p hp
    have hlt := (hsound.mem_waiting (Worklist.Sound.final_ready _) p).mp hp
    rw [List.length_map] at hlt
    exact congrArg (·.vertex.digest) (hentry p hlt.1)

theorem orderEntries_rename (vertices : List Vertex) :
    orderEntries (vertices.map (Vertex.rename f)) =
      ((orderEntries vertices).map (List.map (Entry.rename f))).mapError (BuildError.rename f) := by
  rw [orderEntries, orderEntries, displayList_rename]
  exact settle_rename hf (displayList vertices)

/-- The records come in the order of the same indices. -/
theorem orderEntries_rename_index (vertices : List Vertex) :
    (orderEntries (vertices.map (Vertex.rename f))).map (List.map Entry.index) =
      ((orderEntries vertices).map (List.map Entry.index)).mapError (BuildError.rename f) := by
  rw [orderEntries_rename hf]
  cases orderEntries vertices with
  | error e => rfl
  | ok ordered => simp [Except.map, Except.mapError, Entry.rename]

theorem orderVertices_rename (vertices : List Vertex) :
    orderVertices (vertices.map (Vertex.rename f)) =
      ((orderVertices vertices).map (List.map (Vertex.rename f))).mapError (BuildError.rename f) := by
  rw [orderVertices, orderVertices, orderEntries_rename hf]
  cases orderEntries vertices with
  | error e => rfl
  | ok ordered => simp [Except.map, Except.mapError, Entry.rename]

end Order

end BuildProgress
