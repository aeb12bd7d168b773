import Mathlib.Data.List.Forall2

/-!
# Machines

A machine is a function that gives the turn which follows a state. `events` is what a number of turns shows to the outside and `after`
the state they lead to. `Simulates` relates the states of two machines: what the first does in one turn the second does in some number of
turns, and not in none for ever. Two machines in related states then show the same events, however long they run.
-/

namespace ThreeAddress

/-- What a machine does next. -/
inductive Turn (S E : Type) where
  /-- There is no turn that the rules allow. -/
  | stuck
  /-- The last event. -/
  | halt (event : E)
  | next (shown : Option E) (state : S)

variable {S T E F : Type}

/-- The events of the first `n` turns. -/
def events (step : S → Turn S E) : Nat → S → List E
  | 0, _ => []
  | n + 1, s =>
    match step s with
    | .stuck => []
    | .halt e => [e]
    | .next shown s => shown.toList ++ events step n s

/-- The state after `n` turns, if the machine still runs. -/
def after (step : S → Turn S E) : Nat → S → Option S
  | 0, s => some s
  | n + 1, s =>
    match step s with
    | .next _ s => after step n s
    | _ => none

@[simp] theorem events_zero (step : S → Turn S E) (s : S) : events step 0 s = [] :=
  rfl

@[simp] theorem after_zero (step : S → Turn S E) (s : S) : after step 0 s = some s :=
  rfl

theorem events_next {step : S → Turn S E} {s s' : S} {shown : Option E} (h : step s = .next shown s') (n : Nat) :
    events step (n + 1) s = shown.toList ++ events step n s' := by
  simp only [events, h]

theorem events_halt {step : S → Turn S E} {s : S} {e : E} (h : step s = .halt e) (n : Nat) : events step (n + 1) s = [e] := by
  simp only [events, h]

theorem after_next {step : S → Turn S E} {s s' : S} {shown : Option E} (h : step s = .next shown s') (n : Nat) :
    after step (n + 1) s = after step n s' := by
  simp only [after, h]

/-- The events of `k` turns and then `n` more. -/
theorem events_add {step : S → Turn S E} {k : Nat} {s s' : S} (h : after step k s = some s') (n : Nat) :
    events step (k + n) s = events step k s ++ events step n s' := by
  induction k generalizing s with
  | zero =>
    simp only [after_zero, Option.some.injEq] at h
    subst h
    simp
  | succ k ih =>
    cases hs : step s with
    | next shown t =>
      rw [after_next hs] at h
      rw [Nat.succ_add, events_next hs, events_next hs, ih h, List.append_assoc]
    | _ => simp [after, hs] at h

theorem after_add {step : S → Turn S E} {k : Nat} {s s' : S} (h : after step k s = some s') (n : Nat) :
    after step (k + n) s = after step n s' := by
  induction k generalizing s with
  | zero =>
    simp only [after_zero, Option.some.injEq] at h
    subst h
    rw [Nat.zero_add]
  | succ k ih =>
    cases hs : step s with
    | next shown t =>
      rw [after_next hs] at h
      rw [Nat.succ_add, after_next hs, ih h]
    | _ => simp [after, hs] at h

/-- Fewer turns show a part of what more turns show. -/
theorem events_prefix {step : S → Turn S E} {k n : Nat} (h : k ≤ n) (s : S) : events step k s <+: events step n s := by
  induction k generalizing n s with
  | zero => exact List.nil_prefix
  | succ k ih =>
    obtain ⟨n, rfl⟩ : ∃ n', n = n' + 1 := ⟨n - 1, by omega⟩
    cases hs : step s with
    | stuck => simp [events, hs]
    | halt e => simp [events, hs]
    | next shown t =>
      rw [events_next hs, events_next hs, List.prefix_append_right_inj]
      exact ih (by omega) t

/-! ## Turns that follow one another -/

/-- The machine goes from one state to another and shows some events on the way. -/
def Goes (step : S → Turn S E) (k : Nat) (s : S) (shown : List E) (s' : S) : Prop :=
  after step k s = some s' ∧ events step k s = shown

theorem Goes.refl (step : S → Turn S E) (s : S) : Goes step 0 s [] s :=
  ⟨rfl, rfl⟩

theorem Goes.single {step : S → Turn S E} {s s' : S} {shown : Option E} (h : step s = .next shown s') :
    Goes step 1 s shown.toList s' :=
  ⟨by rw [after_next h]; rfl, by rw [events_next h]; simp⟩

theorem Goes.trans {step : S → Turn S E} {j k : Nat} {s s' s'' : S} {es fs : List E} (h : Goes step j s es s')
    (h' : Goes step k s' fs s'') : Goes step (j + k) s (es ++ fs) s'' := by
  obtain ⟨ha, he⟩ := h
  obtain ⟨ha', he'⟩ := h'
  exact ⟨by rw [after_add ha, ha'], by rw [events_add ha, he, he']⟩

/-! ## Simulations -/

/-- What the second machine does from a state for one turn of the first: it comes to an end with an event that agrees, or it goes on to a
related state. The measure of the first machine decreases where the second need not move. -/
structure Simulates (step₁ : S → Turn S E) (step₂ : T → Turn T F) (agrees : E → F → Prop) (related : S → T → Prop)
    (measure : S → Nat) : Prop where
  turn : ∀ s t, related s t →
    (∃ e f k t', step₁ s = .halt e ∧ Goes step₂ k t [] t' ∧ step₂ t' = .halt f ∧ agrees e f) ∨
    (∃ shown s' k fs t', step₁ s = .next shown s' ∧ Goes step₂ k t fs t' ∧ List.Forall₂ agrees shown.toList fs ∧
      related s' t' ∧ (k = 0 → measure s' < measure s))

section
variable {step₁ : S → Turn S E} {step₂ : T → Turn T F} {agrees : E → F → Prop} {related : S → T → Prop} {measure : S → Nat}

/-- Whatever the first machine shows, the second shows too. -/
theorem Simulates.forward (h : Simulates step₁ step₂ agrees related measure) (n : Nat) {s : S} {t : T} (hr : related s t) :
    ∃ k, List.Forall₂ agrees (events step₁ n s) (events step₂ k t) := by
  induction n generalizing s t with
  | zero => exact ⟨0, List.Forall₂.nil⟩
  | succ n ih =>
    rcases h.turn s t hr with ⟨e, f, k, t', hs, hg, ht, ha⟩ | ⟨shown, s', k, fs, t', hs, hg, ha, hr', -⟩
    · refine ⟨k + 1, ?_⟩
      rw [events_halt hs, events_add hg.1, hg.2, events_halt ht]
      exact .cons ha .nil
    · obtain ⟨j, hj⟩ := ih hr'
      refine ⟨k + j, ?_⟩
      rw [events_next hs, events_add hg.1, hg.2]
      exact List.rel_append ha hj

/-- A list of at most one element has only itself and the empty list as beginnings. -/
theorem prefix_toList {a : Option E} {es : List E} (h : es <+: a.toList) : es = [] ∨ es = a.toList := by
  cases a with
  | none => exact Or.inl (by simpa using h)
  | some a =>
    rcases es with - | ⟨e, es⟩
    · exact Or.inl rfl
    · right
      simpa [List.cons_prefix_cons] using h

/-- Whatever the second machine shows, the first shows too. -/
theorem Simulates.backward (h : Simulates step₁ step₂ agrees related measure) (k : Nat) {s : S} {t : T} (hr : related s t) :
    ∃ n, List.Forall₂ agrees (events step₁ n s) (events step₂ k t) := by
  rcases h.turn s t hr with ⟨e, f, j, t', hs, hg, ht, ha⟩ | ⟨shown, s', j, fs, t', hs, hg, ha, hr', hm⟩
  · by_cases hk : k ≤ j
    · have hp : events step₂ k t <+: [] := hg.2 ▸ events_prefix hk t
      rw [List.prefix_nil] at hp
      exact ⟨0, by rw [hp]; exact .nil⟩
    · obtain ⟨i, rfl⟩ : ∃ i, k = j + (i + 1) := ⟨k - j - 1, by omega⟩
      refine ⟨1, ?_⟩
      rw [events_halt hs, events_add hg.1, hg.2, events_halt ht]
      exact .cons ha .nil
  · by_cases hk : k < j
    · -- The turns end inside those that the first machine does in one, which shows one event at most.
      have hp : events step₂ k t <+: fs := hg.2 ▸ events_prefix (Nat.le_of_lt hk) t
      obtain ⟨shown', rfl⟩ : ∃ f : Option F, fs = f.toList := by
        cases shown with
        | none => exact ⟨none, List.forall₂_nil_left_iff.mp ha⟩
        | some e =>
          obtain ⟨f, fs', -, hn, rfl⟩ := List.forall₂_cons_left_iff.mp ha
          rw [List.forall₂_nil_left_iff.mp hn]
          exact ⟨some f, rfl⟩
      rcases prefix_toList hp with he | he
      · exact ⟨0, by rw [he]; exact .nil⟩
      · refine ⟨1, ?_⟩
        rw [events_next hs, he]
        simpa using ha
    · obtain ⟨i, rfl⟩ : ∃ i, k = j + i := ⟨k - j, by omega⟩
      obtain ⟨n, hn⟩ := Simulates.backward h i hr'
      refine ⟨n + 1, ?_⟩
      rw [events_next hs, events_add hg.1, hg.2]
      exact List.rel_append ha hn
termination_by (k, measure s)
decreasing_by
  subst_vars
  rcases Nat.eq_zero_or_pos j with hj | hj
  · subst hj
    rw [Nat.zero_add]
    exact Prod.Lex.right _ (hm rfl)
  · exact Prod.Lex.left _ _ (by omega)

/-- The first machine never gets stuck. -/
theorem Simulates.never_stuck (h : Simulates step₁ step₂ agrees related measure) (n : Nat) {s s' : S} {t : T} (hr : related s t)
    (hs : after step₁ n s = some s') : step₁ s' ≠ .stuck := by
  induction n generalizing s t with
  | zero =>
    simp only [after_zero, Option.some.injEq] at hs
    subst hs
    rcases h.turn s t hr with ⟨e, f, k, t', hs, -⟩ | ⟨shown, s', k, fs, t', hs, -⟩ <;> simp [hs]
  | succ n ih =>
    rcases h.turn s t hr with ⟨e, f, k, t', he, -⟩ | ⟨shown, s₁, k, fs, t', he, -, -, hr', -⟩
    · simp [after, he] at hs
    · rw [after_next he] at hs
      exact ih hr' hs

/-- Two turns do the same: they show events that agree, or nothing, and lead to related states, or to the end. -/
inductive Turn.Rel (agrees : E → F → Prop) (related : S → T → Prop) : Turn S E → Turn T F → Prop where
  | halt {e : E} {f : F} (agree : agrees e f) : Rel agrees related (.halt e) (.halt f)
  | next {shown : Option E} {shown' : Option F} {s : S} {t : T} (agree : Option.Rel agrees shown shown') (next : related s t) :
      Rel agrees related (.next shown s) (.next shown' t)

/-- One machine simulates another if it does in each turn what the other does, or waits while the other comes closer to where it need
not wait. -/
theorem Simulates.of_turns
    (h : ∀ s t, related s t → Turn.Rel agrees related (step₁ s) (step₂ t) ∨
      ∃ s', step₁ s = .next none s' ∧ related s' t ∧ measure s' < measure s) : Simulates step₁ step₂ agrees related measure where
  turn s t hr := by
    rcases h s t hr with hturn | ⟨s', hs, hr', hlt⟩
    · cases hs : step₁ s <;> cases ht : step₂ t <;> rw [hs, ht] at hturn <;> cases hturn
      · exact Or.inl ⟨_, _, 0, t, rfl, .refl _ t, ht, ‹_›⟩
      · rename_i shown s' shown' t' hagree hnext
        refine Or.inr ⟨shown, s', 1, shown'.toList, t', rfl, .single ht, ?_, hnext, fun h => by cases h⟩
        cases hagree with
        | none => exact .nil
        | some hagree => exact .cons hagree .nil
    · exact Or.inr ⟨none, s', 0, [], t, hs, .refl _ t, .nil, hr', fun _ => hlt⟩

/-- What each machine shows the other shows too, where the second has something to do before the two are related that shows nothing. -/
theorem Simulates.events_agree (h : Simulates step₁ step₂ agrees related measure) {s : S} {t t' : T} {j : Nat}
    (hg : Goes step₂ j t [] t') (hr : related s t') :
    (∀ n, ∃ k, List.Forall₂ agrees (events step₁ n s) (events step₂ k t)) ∧
      ∀ k, ∃ n, List.Forall₂ agrees (events step₁ n s) (events step₂ k t) := by
  refine ⟨fun n => ?_, fun k => ?_⟩
  · obtain ⟨k, hk⟩ := h.forward n hr
    refine ⟨j + k, ?_⟩
    rw [events_add hg.1, hg.2]
    exact hk
  · by_cases hk : k ≤ j
    · have hp : events step₂ k t <+: [] := hg.2 ▸ events_prefix hk t
      rw [List.prefix_nil] at hp
      exact ⟨0, by rw [hp]; exact .nil⟩
    · obtain ⟨i, rfl⟩ : ∃ i, k = j + i := ⟨k - j, by omega⟩
      obtain ⟨n, hn⟩ := h.backward i hr
      refine ⟨n, ?_⟩
      rw [events_add hg.1, hg.2]
      exact hn

end
end ThreeAddress
