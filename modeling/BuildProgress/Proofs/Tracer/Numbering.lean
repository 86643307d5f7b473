import BuildProgress.Proofs.Tracer.Trace

/-!
# Step numbers count up

The digests of a build are numbered 1, 2, 3 and so on, once and for all, and while delivery is open
every number is told as soon as it is given. So the numbers appear in their order, whatever fails.

Inside a batch, numbers follow the order in which records are processed, and that order puts a
record after what it depends on.
-/

namespace BuildProgress.Tracer

set_option autoImplicit false

variable {handler : Handler} {t t' : Tracer} {event : Event}

/-- The steps that events start, in order, each as often as it is started. -/
def starts (events : List Event) : List Nat :=
  events.filterMap fun event => match event with
    | .stepStarting step _ => some step
    | _ => none

/-- The first occurrences are 1, 2, 3 and so on. -/
def CountsUp (ns : List Nat) : Prop :=
  ns.eraseDups = List.range' 1 ns.eraseDups.length

/-- The numbers in use are those up to the number of digests, and no two digests share one. -/
def NumbersDensely (t : Tracer) : Prop :=
  ∃ digests : List String, digests.Nodup ∧ (∀ digest, digest ∈ digests ↔ ∃ n, t.step? digest = some n) ∧
    (∀ n, (∃ digest, t.step? digest = some n) ↔ 1 ≤ n ∧ n ≤ digests.length) ∧
    ∀ digest other n, t.step? digest = some n → t.step? other = some n → digest = other

section Counting

theorem eraseDups_concat (ns : List Nat) (n : Nat) :
    (ns ++ [n]).eraseDups = if n ∈ ns then ns.eraseDups else ns.eraseDups ++ [n] := by
  rw [List.eraseDups_append]
  by_cases hin : n ∈ ns
  · simp [List.removeAll, hin]
  · simp [List.removeAll, hin, List.eraseDups_cons]

theorem countsUp_nil : CountsUp [] := rfl

theorem CountsUp.mem_iff {ns : List Nat} (h : CountsUp ns) (n : Nat) :
    n ∈ ns ↔ 1 ≤ n ∧ n ≤ ns.eraseDups.length := by
  rw [← List.mem_eraseDups, h, List.mem_range'_1, List.length_range']
  omega

theorem CountsUp.concat_mem {ns : List Nat} (h : CountsUp ns) {n : Nat} (hn : n ∈ ns) :
    CountsUp (ns ++ [n]) ∧ (ns ++ [n]).eraseDups.length = ns.eraseDups.length := by
  rw [CountsUp, eraseDups_concat, if_pos hn]
  exact ⟨h, rfl⟩

theorem CountsUp.concat_next {ns : List Nat} (h : CountsUp ns) :
    CountsUp (ns ++ [ns.eraseDups.length + 1]) ∧
      (ns ++ [ns.eraseDups.length + 1]).eraseDups.length = ns.eraseDups.length + 1 := by
  have hnew : ns.eraseDups.length + 1 ∉ ns := by
    rw [h.mem_iff]
    omega
  rw [CountsUp, eraseDups_concat, if_neg hnew, List.length_append, List.length_singleton]
  refine ⟨?_, rfl⟩
  rw [List.range'_1_concat, ← h, Nat.add_comm 1]

theorem CountsUp.of_append {earlier later : List Nat} (h : CountsUp (earlier ++ later)) :
    CountsUp earlier := by
  rw [CountsUp, List.eraseDups_append, List.length_append, ← List.range'_append_1] at h
  exact List.append_inj_left h (List.length_range').symm

theorem CountsUp.mem_of_lt {earlier later : List Nat} {m n : Nat}
    (h : CountsUp (earlier ++ n :: later)) (hpos : 1 ≤ m) (hlt : m < n) : m ∈ earlier := by
  have heq : earlier ++ n :: later = (earlier ++ [n]) ++ later := by simp
  have hfirst : CountsUp (earlier ++ [n]) := (heq ▸ h).of_append
  have hbound := (hfirst.mem_iff n).mp (List.mem_append_right _ List.mem_cons_self)
  have hin : m ∈ earlier ++ [n] := (hfirst.mem_iff m).mpr ⟨hpos, by omega⟩
  rcases List.mem_append.mp hin with hin | hin
  · exact hin
  · exact absurd (List.mem_singleton.mp hin) (Nat.ne_of_lt hlt)

theorem idxOf_lt_of_pairwise {xs : List String} {a b : String} (ha : a ∈ xs) (hb : b ∈ xs)
    (hne : a ≠ b) (h : xs.Pairwise fun x y => ¬ (x = b ∧ y = a)) : xs.idxOf a < xs.idxOf b := by
  by_contra hnot
  have hdiff : xs.idxOf b ≠ xs.idxOf a := fun heq => hne ((List.idxOf_inj hb).mp heq).symm
  have ha' := List.idxOf_lt_length_of_mem ha
  have hb' := List.idxOf_lt_length_of_mem hb
  exact List.pairwise_iff_getElem.mp h (xs.idxOf b) (xs.idxOf a) hb' ha' (by omega)
    ⟨List.getElem_idxOf hb', List.getElem_idxOf ha'⟩

theorem starts_concat_start (events : List Event) (step : Nat) (name : String) :
    starts (events ++ [.stepStarting step name]) = starts events ++ [step] := by
  simp [starts]

theorem mem_starts {events : List Event} {step : Nat} :
    step ∈ starts events ↔ ∃ name, .stepStarting step name ∈ events := by
  rw [starts, List.mem_filterMap]
  constructor
  · rintro ⟨event, hin, hstep⟩
    cases event with
    | stepStarting n name => exact ⟨name, Option.some.inj hstep ▸ hin⟩
    | _ => cases hstep
  · rintro ⟨name, hin⟩
    exact ⟨_, hin, rfl⟩

theorem starts_concat_of_ne (events : List Event) {event : Event} (h : event.kind ≠ .stepStarting) :
    starts (events ++ [event]) = starts events := by
  rw [starts, List.filterMap_append, starts]
  cases event with
  | stepStarting _ _ => exact absurd rfl h
  | _ => simp

end Counting

theorem Move.prefix_numbered (h : Move t t' event) : t.numbered <+: t'.numbered := by
  cases h with
  | start _ _ => exact List.prefix_append _ _
  | _ => exact List.prefix_rfl

theorem Reaches.prefix_numbered {s u : Tracer × Delivery} (h : Reaches handler s u) :
    s.1.numbered <+: u.1.numbered :=
  h.keeps (P := fun u => s.1.numbered <+: u.1.numbered)
    (fun _ hmove hs => hs.trans hmove.prefix_numbered) List.prefix_rfl

structure Numbering (s : Tracer × Delivery) : Prop where
  nodup : s.1.numbered.Nodup
  counts : CountsUp (starts s.2.history)
  told_le : (starts s.2.history).eraseDups.length ≤ s.1.numbered.length
  told_eq : s.2.phase = .receiving →
    (starts s.2.history).eraseDups.length = s.1.numbered.length

namespace Numbering

theorem initial : Numbering ({}, {}) where
  nodup := List.nodup_nil
  counts := countsUp_nil
  told_le := Nat.le_refl _
  told_eq := fun _ => rfl

theorem nodup_move (h : t.numbered.Nodup) (hmove : Move t t' event) : t'.numbered.Nodup := by
  cases hmove with
  | start _ fresh =>
    have hnew := step?_eq_none_iff.mp fresh
    exact List.nodup_append.mpr ⟨h, List.nodup_singleton _, fun a ha b hb hab =>
      hnew (List.mem_singleton.mp hb ▸ hab ▸ ha)⟩
  | _ => exact h

/-- While delivery is open, a move tells the next number or one that was told before. -/
theorem told_move {history : List Event} (hcounts : CountsUp (starts history))
    (htold : (starts history).eraseDups.length = t.numbered.length) (hmove : Move t t' event) :
    CountsUp (starts (history ++ [event])) ∧
      (starts (history ++ [event])).eraseDups.length = t'.numbered.length := by
  cases hmove with
  | start name fresh =>
    rw [starts_concat_start, ← htold]
    have hnext := hcounts.concat_next
    refine ⟨hnext.1, ?_⟩
    simp only [number, List.length_append, List.length_singleton, ← htold]
    exact hnext.2
  | restart name known _ =>
    rw [starts_concat_start]
    have hbounds := step?_bounds known
    rw [← htold, ← hcounts.mem_iff] at hbounds
    obtain ⟨hup, hlen⟩ := hcounts.concat_mem hbounds
    exact ⟨hup, hlen.trans htold⟩
  | progress _ _ starts _ =>
    rw [starts_concat_of_ne _ starts]
    exact ⟨hcounts, htold⟩
  | finish _ _ =>
    rw [starts_concat_of_ne _ (by simp [Event.kind])]
    exact ⟨hcounts, htold⟩
  | fail _ =>
    rw [starts_concat_of_ne _ (by simp [Event.kind])]
    exact ⟨hcounts, htold⟩

theorem move (d : Delivery) (hmove : Move t t' event) (h : Numbering (t, d)) :
    Numbering (t', (Delivery.emit handler event d).2) := by
  have hnodup := nodup_move h.nodup hmove
  by_cases hdelivers : d.Delivers event
  · have htold := told_move h.counts (h.told_eq hdelivers.1) hmove
    have hhistory : (Delivery.emit handler event d).2.history = d.history ++ [event] :=
      Delivery.emit_history hdelivers
    rw [← hhistory] at htold
    exact ⟨hnodup, htold.1, Nat.le_of_eq htold.2, fun _ => htold.2⟩
  · rw [Delivery.emit_of_not_delivers hdelivers]
    refine ⟨hnodup, h.counts, Nat.le_trans h.told_le hmove.prefix_numbered.length_le, ?_⟩
    intro hphase
    obtain ⟨step, rfl, _⟩ := Delivery.finishesUnstarted_of_not_delivers hphase hdelivers
    rw [h.told_eq hphase]
    cases hmove <;> rfl

theorem after (handler : Handler) (batches : List Batch) : Numbering (after handler batches) :=
  (reaches_after handler batches).keeps move initial

theorem numbersDensely {s : Tracer × Delivery} (h : Numbering s) : s.1.NumbersDensely := by
  have hknown (digest : String) : digest ∈ s.1.numbered ↔ ∃ n, s.1.step? digest = some n := by
    rw [← not_iff_not, ← step?_eq_none_iff, Option.eq_none_iff_forall_ne_some, not_exists]
  refine ⟨s.1.numbered, h.nodup, hknown, ?_, fun _ _ _ => step?_inj⟩
  intro n
  constructor
  · rintro ⟨digest, hstep⟩
    exact step?_bounds hstep
  · rintro ⟨hpos, hle⟩
    have hlt : n - 1 < s.1.numbered.length := by omega
    refine ⟨s.1.numbered[n - 1], step?_eq_some_iff.mpr ⟨List.getElem_mem hlt, ?_⟩⟩
    rw [h.nodup.idxOf_getElem]
    omega

end Numbering

section Batch

theorem announce_numbered (v : Vertex) (s : Tracer × Delivery) :
    (announce handler v s).2.1.numbered = s.1.numbered ∨
      (announce handler v s).2.1.numbered = s.1.numbered ++ [v.digest] := by
  obtain ⟨t, d⟩ := s
  rcases announce_cases handler v t d with
    ⟨_, _, hrun⟩ | ⟨_, _, hrun⟩ | ⟨_, _, _, _, hrun⟩ | ⟨_, _, _, hrun⟩ <;> rw [hrun]
  · exact Or.inr rfl
  · exact Or.inl rfl
  · exact Or.inl rfl
  · exact Or.inl rfl

theorem traceStatus_numbered (c : VertexStatus) (s : Tracer × Delivery) :
    (traceStatus handler c s).2.1.numbered = s.1.numbered := by
  obtain ⟨t, d⟩ := s
  rcases traceStatus_cases handler c t d with hrun | ⟨_, _, hrun⟩ | ⟨_, _, _, _, hrun⟩ <;>
    simp only [hrun, carryOut]

theorem traceLog_numbered (l : VertexLog) (s : Tracer × Delivery) :
    (traceLog handler l s).2.1.numbered = s.1.numbered := by
  obtain ⟨t, d⟩ := s
  rcases traceLog_cases handler l t d with hrun | ⟨_, _, hrun⟩ <;>
    simp only [hrun, carryOut]

theorem conclude_numbered (v : Vertex) (s : Tracer × Delivery) :
    (conclude handler v s).2.1.numbered = s.1.numbered := by
  obtain ⟨t, d⟩ := s
  rcases conclude_cases handler v t d with
    ⟨_, hrun⟩ | ⟨_, _, hrun⟩ | ⟨_, _, _, _, hrun⟩ | ⟨_, _, _, _, _, hrun⟩ <;> rw [hrun]
  · let P : Tracer × Delivery → Prop := fun u => u.1.numbered = t.numbered
    exact Action.bind_keeps (P := P) (fun _ _ h => h) rfl
  all_goals rfl

theorem announceAll_numbered (vertices : List Vertex) (s : Tracer × Delivery) :
    ∃ new, (Action.forEach (announce handler) vertices s).2.1.numbered = s.1.numbered ++ new ∧
      new.Sublist (vertices.map (·.digest)) := by
  induction vertices generalizing s with
  | nil => exact ⟨[], by simp [Action.forEach_nil], .slnil⟩
  | cons v vertices ih =>
    have hfirst : ∃ new, (announce handler v s).2.1.numbered = s.1.numbered ++ new ∧
        new.Sublist [v.digest] := by
      rcases announce_numbered v s with h | h
      · exact ⟨[], by simpa using h, by simp⟩
      · exact ⟨[v.digest], h, .refl _⟩
    obtain ⟨first, hnumbered, hsub⟩ := hfirst
    rw [Action.forEach_cons]
    generalize announce handler v s = r at hnumbered
    obtain ⟨_ | _, u⟩ := r
    · exact ⟨first, hnumbered, hsub.trans (List.singleton_sublist.mpr List.mem_cons_self)⟩
    · obtain ⟨rest, hrest, hsubrest⟩ := ih u
      refine ⟨first ++ rest, ?_, ?_⟩
      · rw [hrest, hnumbered, List.append_assoc]
      · exact hsub.append hsubrest

/-- What a batch numbers, it numbers in the order in which its records are processed. -/
theorem trace_numbered (batch : Batch) (s : Tracer × Delivery) :
    (trace handler batch s).2.1.numbered = s.1.numbered ∨
    ∃ ordered new, orderVertices batch.vertices = .ok ordered ∧
      (trace handler batch s).2.1.numbered = s.1.numbered ++ new ∧
      new.Sublist (ordered.map (·.digest)) := by
  rw [trace_run]
  cases horder : orderVertices batch.vertices with
  | error e => exact Or.inl rfl
  | ok ordered =>
    obtain ⟨new, hnew, hsub⟩ : ∃ new,
        (Action.forEach (announce handler) ordered s).2.1.numbered = s.1.numbered ++ new ∧
          new.Sublist (ordered.map (·.digest)) := announceAll_numbered ordered s
    refine Or.inr ⟨ordered, new, rfl, ?_, hsub⟩
    -- The other three passes number nothing.
    let P : Tracer × Delivery → Prop := fun u => u.1.numbered = s.1.numbered ++ new
    have hstatuses : ∀ u, P u → P (Action.forEach (traceStatus handler) batch.statuses u).2 :=
      Action.forEach_keeps fun c _ u hu => (traceStatus_numbered c u).trans hu
    have hlogs : ∀ u, P u → P (Action.forEach (traceLog handler) batch.logs u).2 :=
      Action.forEach_keeps fun l _ u hu => (traceLog_numbered l u).trans hu
    have hvertices : ∀ u, P u → P (Action.forEach (conclude handler) ordered u).2 :=
      Action.forEach_keeps fun v _ u hu => (conclude_numbered v u).trans hu
    have hnew' : P (Action.forEach (announce handler) ordered s).2 := hnew
    exact Action.bind_keeps (fun _ u hu => Action.bind_keeps (fun _ u hu =>
      Action.bind_keeps (fun _ u hu => hvertices u hu) (hlogs u hu)) (hstatuses u hu)) hnew'

theorem step?_lt_of_lists {batch : Batch} {s : Tracer × Delivery} {a b : String} {m n : Nat}
    (hanew : s.1.step? a = none) (hbnew : s.1.step? b = none)
    (ha : (trace handler batch s).2.1.step? a = some m)
    (hb : (trace handler batch s).2.1.step? b = some n)
    (hlists : ∀ v ∈ batch.vertices, v.digest = b → a ∈ v.inputs) : m < n := by
  obtain ⟨hain, rfl⟩ := step?_eq_some_iff.mp ha
  obtain ⟨hbin, rfl⟩ := step?_eq_some_iff.mp hb
  rw [step?_eq_none_iff] at hanew hbnew
  have htrace : (trace handler batch s).2.1.numbered = s.1.numbered ∨
      ∃ ordered new, orderVertices batch.vertices = .ok ordered ∧
        (trace handler batch s).2.1.numbered = s.1.numbered ++ new ∧
        new.Sublist (ordered.map (·.digest)) := trace_numbered batch s
  rcases htrace with hsame | ⟨ordered, new, horder, hnew, hsub⟩
  · exact absurd (hsame ▸ hain) hanew
  · rw [hnew] at hain hbin ⊢
    have hain' := (List.mem_append.mp hain).resolve_left hanew
    have hbin' := (List.mem_append.mp hbin).resolve_left hbnew
    obtain ⟨hpairwise, hne⟩ := orderVertices_digests horder hlists
    have hlt := idxOf_lt_of_pairwise hain' hbin' (hne (hsub.subset hbin')) (hpairwise.sublist hsub)
    rw [List.idxOf_append_of_notMem hanew, List.idxOf_append_of_notMem hbnew]
    omega

end Batch

theorem reaches_foldl (handler : Handler) (batches : List Batch) (s : Tracer × Delivery) :
    Reaches handler s (batches.foldl (fun s batch => (trace handler batch s).2) s) := by
  induction batches generalizing s with
  | nil => exact .refl
  | cons batch batches ih => exact (Stepwise.trace batch s).1.trans (ih _)

/-- In every run the digests that have a number are numbered densely from 1, a number stays with its
digest, also where a call fails, and the first starts are told in the order 1, 2, 3 and so on. What
all records of a digest list is numbered before it, if both get their number from one batch, and its
start is told before. -/
theorem numbers_count_up (handler : Handler) (batches : List Batch) :
    (after handler batches).1.NumbersDensely ∧
    (∀ more digest n, (after handler batches).1.step? digest = some n →
      (after handler (batches ++ more)).1.step? digest = some n) ∧
    CountsUp (starts (after handler batches).2.history) ∧
    ∀ batch more a b m n, (after handler batches).1.step? a = none →
      (after handler batches).1.step? b = none →
      (after handler (batches ++ [batch])).1.step? a = some m →
      (after handler (batches ++ [batch])).1.step? b = some n →
      (∀ v ∈ batch.vertices, v.digest = b → a ∈ v.inputs) →
      m < n ∧ ∀ earlier name later, (after handler (batches ++ batch :: more)).2.history =
        earlier ++ .stepStarting n name :: later → ∃ name', .stepStarting m name' ∈ earlier := by
  have h := Numbering.after handler batches
  refine ⟨h.numbersDensely, ?_, h.counts, ?_⟩
  · intro more digest n hstep
    rw [after_append]
    exact step?_mono (reaches_foldl handler more _).prefix_numbered hstep
  · intro batch more a b m n hanew hbnew ha hb hlists
    have hlt : m < n := by
      rw [after_concat] at ha hb
      exact step?_lt_of_lists hanew hbnew ha hb hlists
    refine ⟨hlt, ?_⟩
    intro earlier name later hhistory
    have hcounts := (Numbering.after handler (batches ++ batch :: more)).counts
    rw [hhistory, starts, List.filterMap_append] at hcounts
    exact mem_starts.mp (hcounts.mem_of_lt (step?_bounds ha).1 hlt)

/-- A vertex that comes before its input in a batch is numbered and told after it. -/
theorem numbers_count_up_input_first :
    let input : Vertex := { digest := "a", name := "input", started := some ⟨1, 0⟩ }
    let user : Vertex := { digest := "b", name := "user", inputs := ["a"], started := some ⟨1, 0⟩ }
    let batch : Batch := { vertices := [user, input] }
    (after .quiet [batch]).1.step? "a" = some 1 ∧ (after .quiet [batch]).1.step? "b" = some 2 ∧
      ∀ earlier name later, (after .quiet [batch]).2.history =
        earlier ++ .stepStarting 2 name :: later → ∃ name', .stepStarting 1 name' ∈ earlier := by
  intro input user batch
  have ha : (after .quiet [batch]).1.step? "a" = some 1 := by decide
  have hb : (after .quiet [batch]).1.step? "b" = some 2 := by decide
  have hlists : ∀ v ∈ batch.vertices, v.digest = "b" → "a" ∈ v.inputs := by decide
  have htold := (numbers_count_up .quiet []).2.2.2 batch [] "a" "b" 1 2
  rw [List.nil_append] at htold
  exact ⟨ha, hb, (htold rfl rfl ha hb hlists).2⟩

end BuildProgress.Tracer
