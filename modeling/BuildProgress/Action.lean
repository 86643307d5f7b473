/-!
# Actions that can fail and keep their state

A build that fails half way through a message has already numbered steps, delivered events and
written text. An `Action` therefore answers with the state it reached beside its result, also when
the result is an error; sequencing stops at the first error and keeps the state of that moment.
-/

namespace BuildProgress

set_option autoImplicit false

/-- A computation on a state `σ` that fails with an `ε` or gives an `α`, and in both cases says what
the state has become. -/
def Action (ε σ α : Type) : Type :=
  σ → Except ε α × σ

namespace Action

variable {ε σ τ α β : Type}

def run (act : Action ε σ α) (s : σ) : Except ε α × σ :=
  act s

/-- Runs `next` on the result of `act`, unless `act` fails. -/
def andThen (act : Action ε σ α) (next : α → Action ε σ β) : Action ε σ β := fun s =>
  match act s with
  | (.ok a, t) => next a t
  | (.error e, t) => (.error e, t)

instance : Monad (Action ε σ) where
  pure a := fun s => (.ok a, s)
  bind := andThen

def fail (e : ε) : Action ε σ α := fun s => (.error e, s)

def view (f : σ → α) : Action ε σ α := fun s => (.ok (f s), s)

def update (f : σ → σ) : Action ε σ Unit := fun s => (.ok (), f s)

/-- Takes a result that was computed without the state. -/
def ofExcept (r : Except ε α) : Action ε σ α := fun s => (r, s)

/-- Runs an action on a part of a larger state and puts that part back. -/
def within (part : τ → σ) (replace : τ → σ → τ) (act : Action ε σ α) : Action ε τ α := fun t =>
  let (r, s) := act (part t)
  (r, replace t s)

/-- Runs an action for each item in turn, up to the first one that fails. -/
def forEach (f : α → Action ε σ Unit) : List α → Action ε σ Unit
  | [] => pure ()
  | x :: xs => do
    f x
    forEach f xs

theorem bind_run (act : Action ε σ α) (next : α → Action ε σ β) (s : σ) :
    (act >>= next) s = match act s with
      | (.ok a, t) => next a t
      | (.error e, t) => (.error e, t) := rfl

theorem bind_run_ok {act : Action ε σ α} {next : α → Action ε σ β} {s t : σ} {a : α}
    (h : act s = (.ok a, t)) : (act >>= next) s = next a t := by
  simp [bind_run, h]

theorem bind_run_error {act : Action ε σ α} {next : α → Action ε σ β} {s t : σ} {e : ε}
    (h : act s = (.error e, t)) : (act >>= next) s = (.error e, t) := by
  simp [bind_run, h]

theorem forEach_nil (f : α → Action ε σ Unit) (s : σ) : forEach f [] s = (.ok (), s) := rfl

theorem forEach_cons (f : α → Action ε σ Unit) (x : α) (xs : List α) (s : σ) :
    forEach f (x :: xs) s = match f x s with
      | (.ok _, t) => forEach f xs t
      | (.error e, t) => (.error e, t) := by
  rcases h : f x s with ⟨_ | _, t⟩ <;> simp [forEach, bind_run, h]

theorem forEach_append (f : α → Action ε σ Unit) (xs ys : List α) (s : σ) :
    forEach f (xs ++ ys) s = match forEach f xs s with
      | (.ok _, t) => forEach f ys t
      | (.error e, t) => (.error e, t) := by
  induction xs generalizing s with
  | nil => rfl
  | cons x xs ih =>
    rw [List.cons_append, forEach_cons, forEach_cons]
    rcases f x s with ⟨_ | _, t⟩
    · rfl
    · exact ih t

theorem forEach_concat {f : α → Action ε σ Unit} {xs : List α} {s t : σ}
    (h : forEach f xs s = (.ok (), t)) (x : α) : forEach f (xs ++ [x]) s = f x t := by
  rw [forEach_append, h]
  dsimp only
  rw [forEach_cons]
  rcases f x t with ⟨_ | _, u⟩ <;> rfl

theorem bind_keeps {P : σ → Prop} {act : Action ε σ α} {next : α → Action ε σ β}
    (hnext : ∀ a s, P s → P (next a s).2) {s : σ} (hact : P (act s).2) :
    P ((act >>= next) s).2 := by
  rw [bind_run]
  generalize act s = r at hact
  rcases r with ⟨_ | a, t⟩
  · exact hact
  · exact hnext a t hact

theorem exists_of_bind_ok {act : Action ε σ α} {next : α → Action ε σ β} {s : σ} {b : β}
    (h : ((act >>= next) s).1 = .ok b) : ∃ a t, act s = (.ok a, t) ∧ (next a t).1 = .ok b ∧
      ((act >>= next) s).2 = (next a t).2 := by
  rw [bind_run] at h ⊢
  rcases hact : act s with ⟨_ | a, t⟩
  · rw [hact] at h
    cases h
  · rw [hact] at h
    exact ⟨a, t, rfl, h, rfl⟩

/-- What every single action keeps, a whole run keeps, whether it fails or not. -/
theorem forEach_keeps {P : σ → Prop} {f : α → Action ε σ Unit} {xs : List α}
    (hf : ∀ x ∈ xs, ∀ s, P s → P (f x s).2) : ∀ s, P s → P (forEach f xs s).2 := by
  induction xs with
  | nil => exact fun s hs => hs
  | cons x xs ih =>
    intro s hs
    have hx := hf x List.mem_cons_self s hs
    rw [forEach_cons]
    generalize f x s = r at hx
    rcases r with ⟨_ | _, t⟩
    · exact hx
    · exact ih (fun y hy => hf y (List.mem_cons_of_mem x hy)) t hx

/-- What every single action that succeeds keeps and computes, a run that succeeds keeps and
computes for all items in turn. -/
theorem forEach_ok {P : σ → Prop} {f : α → Action ε σ Unit} {result : σ → β} {g : β → α → β}
    (hf : ∀ x s, P s → (f x s).1 = .ok () → P (f x s).2 ∧ result (f x s).2 = g (result s) x)
    (xs : List α) : ∀ s, P s → (forEach f xs s).1 = .ok () →
      P (forEach f xs s).2 ∧ result (forEach f xs s).2 = xs.foldl g (result s) := by
  induction xs with
  | nil => exact fun s hs _ => ⟨hs, rfl⟩
  | cons x xs ih =>
    intro s hs hok
    have hcons : forEach f (x :: xs) = f x >>= fun _ => forEach f xs := rfl
    rw [hcons] at hok ⊢
    obtain ⟨_, t, hx, hrest, hstate⟩ := exists_of_bind_ok hok
    obtain ⟨ht, hresult⟩ := hf x s hs (by rw [hx])
    rw [hx] at ht hresult
    rw [hstate, List.foldl_cons, ← hresult]
    exact ih t ht hrest

end Action

end BuildProgress
