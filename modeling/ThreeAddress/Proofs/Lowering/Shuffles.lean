import ThreeAddress.Proofs.Lowering.Spills

/-!
# Stack instructions

A stack instruction evaluates the operands that it moves, and moves their words as `shuffleWords` says. It leaves nothing behind but the
stack.
-/

namespace ThreeAddress

open State

namespace Lowering

variable {m : Method} {s s' : State} {i : Nat} {o : OperandId} {w : Word} {u : PUnit}

theorem takeOne_spec (shares : Bool) (h : Yields (take i .immediate false) s o s') (hc : s.Coherent m) (hk : s.StackKnown s.stack) :
    ∃ rest, s.stack = .operand o :: rest ∧ Spills m shares s rest s' := by
  obtain ⟨rest, hpop, hs, -⟩ := take_spec shares h hc hk
  refine ⟨rest, ?_, hs⟩
  unfold popOperand at hpop
  split at hpop <;> simp_all

/-- The word below an operand: itself where it is an operand, the operand again where it is the half of a wide value. -/
theorem secondWord_spec (shares : Bool) (h : Yields (secondWord i o) s w s') (hc : s.Coherent m) (hk : s.StackKnown s.stack) :
    ∃ v rest, s.stack = v :: rest ∧ w = (if v = .wideHalf then .operand o else v) ∧ Spills m shares s rest s' := by
  simp only [secondWord, yields_bind, yields_peekWord] at h
  obtain ⟨v, _, ⟨⟨rest, hstack⟩, rfl⟩, h⟩ := h
  cases v with
  | wideHalf =>
    simp only [yields_bind, yields_popWord, yields_pure] at h
    obtain ⟨_, _, ⟨rest', hstack', rfl⟩, rfl, rfl⟩ := h
    rw [hstack] at hstack'
    obtain ⟨-, rfl⟩ := List.cons.inj hstack'
    exact ⟨_, rest, hstack, by simp, .single (.stack rest), rfl, rfl⟩
  | operand p =>
    simp only [yields_bind, yields_pure] at h
    obtain ⟨q, t, htake, rfl, rfl⟩ := h
    obtain ⟨rest', hstack', hs⟩ := takeOne_spec shares htake hc hk
    exact ⟨_, rest', hstack', by simp, hs⟩

theorem anyWord_spec (shares : Bool) (h : Yields (anyWord i) s w s') (hc : s.Coherent m) (hk : s.StackKnown s.stack) :
    ∃ rest, s.stack = w :: rest ∧ Spills m shares s rest s' := by
  simp only [anyWord, yields_bind, yields_peekWord] at h
  obtain ⟨v, _, ⟨⟨rest, hstack⟩, rfl⟩, h⟩ := h
  cases v with
  | wideHalf =>
    obtain ⟨rest', hstack', rfl⟩ := yields_popWord.mp h
    exact ⟨rest', hstack', .single (.stack rest'), rfl, rfl⟩
  | operand p =>
    simp only [yields_bind, yields_pure] at h
    obtain ⟨q, t, htake, rfl, rfl⟩ := h
    exact takeOne_spec shares htake hc hk

/-- Every operand on what is left of a stack exists. -/
theorem Spills.stackKnown {shares : Bool} {rest : Stack} (h : Spills m shares s rest s') (hc : s.Coherent m)
    (hk : s.StackKnown rest) : s'.StackKnown s'.stack := by
  rw [h.stack]
  exact (h.changes.extends hc).stackKnown hk

/-- Words that move as one. -/
structure Group (m : Method) (shares whole : Bool) (count : Count) (s : State) (words : List Word) (s' : State) : Prop where
  pop : ∃ rest, popWords whole count s.stack = some (words, rest) ∧ Spills m shares s rest s'
  known : s.StackKnown s.stack → s'.StackKnown (words ++ s'.stack)

theorem group_one (shares whole : Bool) (h : Yields (take i .immediate false) s o s') (hc : s.Coherent m)
    (hk : s.StackKnown s.stack) : Group m shares whole .one s [.operand o] s' := by
  obtain ⟨rest, hstack, hs⟩ := takeOne_spec shares h hc hk
  refine ⟨⟨rest, by rw [hstack]; rfl, hs⟩, fun _ => ?_⟩
  rw [hs.stack]
  exact (hs.changes.extends hc).stackKnown (by rw [← List.singleton_append] at hstack; exact hstack ▸ hk)

theorem group_two (shares : Bool) {t : State} (h : Yields (take i .immediate false) s o t) (h' : Yields (secondWord i o) t w s')
    (hc : s.Coherent m) (hk : s.StackKnown s.stack) : Group m shares true .two s [.operand o, w] s' := by
  obtain ⟨rest, hstack, hs⟩ := takeOne_spec shares h hc hk
  have hkt := Spills.stackKnown hs hc fun p hp => hk p (by rw [hstack]; exact List.mem_cons_of_mem _ hp)
  obtain ⟨v, rest', hstack', hw, hs'⟩ := secondWord_spec shares h' (hs.changes.coherent hc) hkt
  rw [hs.stack] at hstack'
  subst hstack'
  have hall := hs.trans hs'
  refine ⟨⟨rest', ?_, hall⟩, fun _ => ?_⟩
  · rw [hstack]
    cases v <;> simp_all [popWords]
  · rw [hs'.stack]
    refine (hall.changes.extends hc).stackKnown fun p hp => hk p ?_
    rw [hstack]
    simp only [List.cons_append, List.nil_append, List.mem_cons] at hp ⊢
    rcases hp with hp | hp | hp
    · exact Or.inl hp
    · rw [hw] at hp
      split at hp
      · exact Or.inl hp
      · exact Or.inr (Or.inl hp)
    · exact Or.inr (Or.inr hp)

theorem group_two_apart (shares : Bool) {t : State} (h : Yields (take i .immediate false) s o t) (h' : Yields (anyWord i) t w s')
    (hc : s.Coherent m) (hk : s.StackKnown s.stack) : Group m shares false .two s [.operand o, w] s' := by
  obtain ⟨rest, hstack, hs⟩ := takeOne_spec shares h hc hk
  have hkt := Spills.stackKnown hs hc fun p hp => hk p (by rw [hstack]; exact List.mem_cons_of_mem _ hp)
  obtain ⟨rest', hstack', hs'⟩ := anyWord_spec shares h' (hs.changes.coherent hc) hkt
  rw [hs.stack] at hstack'
  subst hstack'
  have hall := hs.trans hs'
  refine ⟨⟨rest', ?_, hall⟩, fun _ => ?_⟩
  · rw [hstack]
    cases w <;> simp [popWords]
  · rw [hs'.stack]
    exact (hall.changes.extends hc).stackKnown (by rw [hstack] at hk; exact hk)

/-- What a stack instruction does. -/
structure Shuffled (m : Method) (shares : Bool) (how : Shuffle) (count : Count) (s s' : State) : Prop where
  changes : Changes m shares s s'
  words : shuffleWords how count s.stack = some s'.stack
  stack : s'.StackKnown s'.stack

/-- Words that are pushed are on the stack, the last one on top. -/
theorem pushed_spec (shares : Bool) {ws : List Word} (h : Yields (pushWords ws) s u s') (hk : s.StackKnown (ws.reverse ++ s.stack)) :
    Changes m shares s s' ∧ s'.stack = ws.reverse ++ s.stack ∧ s'.StackKnown s'.stack := by
  rw [yields_pushWords] at h
  subst h
  exact ⟨.single (.stack _), rfl, hk⟩

section
variable {shares whole : Bool} {count count' : Count} {words words' ws : List Word} {t t' : State}

/-- What is known of a group and of what is below it stays known while words below it are popped. -/
theorem Group.stackKnown (hg : Group m shares whole count s words t) (hc : s.Coherent m) (hk : s.StackKnown s.stack) :
    t.Coherent m ∧ t.StackKnown t.stack := by
  obtain ⟨rest, -, hs⟩ := hg.pop
  exact ⟨hs.changes.coherent hc, fun p hp => hg.known hk p (List.mem_append_right _ hp)⟩

theorem Group.pop_spec (hg : Group m shares false count s words s') (hc : s.Coherent m) (hk : s.StackKnown s.stack) :
    Shuffled m shares .pop count s s' := by
  obtain ⟨rest, hpop, hs⟩ := hg.pop
  refine ⟨hs.changes, ?_, (hg.stackKnown hc hk).2⟩
  simp [shuffleWords, hpop, hs.stack]

theorem Group.dup_spec (hg : Group m shares true count s words t) (hk : s.StackKnown s.stack)
    (h : Yields (pushWords ws) t u s') (hws : ws.reverse = words ++ words) : Shuffled m shares .dup count s s' := by
  obtain ⟨rest, hpop, hs⟩ := hg.pop
  obtain ⟨hch, hstack, hks⟩ := pushed_spec (m := m) shares h (by
    intro p hp
    rw [hws, List.append_assoc] at hp
    rcases List.mem_append.mp hp with hp | hp
    · exact hg.known hk p (List.mem_append_left _ hp)
    · exact hg.known hk p hp)
  exact ⟨hs.changes.trans hch, by simp [shuffleWords, hpop, hstack, hws, hs.stack], hks⟩

/-- Words of two groups, one below the other, may be pushed again in any order and number. -/
theorem Group.arrange {whole' : Bool} (hg : Group m shares whole count s words t) (hg' : Group m shares whole' count' t words' t')
    (hc : s.Coherent m) (hk : s.StackKnown s.stack) (h : Yields (pushWords ws) t' u s') (hws : ∀ w ∈ ws, w ∈ words ∨ w ∈ words') :
    ∃ rest rest', popWords whole count s.stack = some (words, rest) ∧ popWords whole' count' rest = some (words', rest') ∧
      Changes m shares s s' ∧ s'.stack = ws.reverse ++ rest' ∧ s'.StackKnown s'.stack := by
  obtain ⟨rest, hpop, hs⟩ := hg.pop
  obtain ⟨rest', hpop', hs'⟩ := hg'.pop
  obtain ⟨hct, hkt⟩ := hg.stackKnown hc hk
  have he' := hs'.changes.extends hct
  rw [hs.stack] at hpop'
  obtain ⟨hch, hstack, hks⟩ := pushed_spec (m := m) shares h (by
    intro p hp
    rcases List.mem_append.mp hp with hp | hp
    · rcases hws _ (List.mem_reverse.mp hp) with hw | hw
      · exact he'.known (hg.known hk p (List.mem_append_left _ hw))
      · exact hg'.known hkt p (List.mem_append_left _ hw)
    · exact hg'.known hkt p (List.mem_append_right _ hp))
  exact ⟨rest, rest', hpop, hpop', (hs.changes.trans hs'.changes).trans hch, by rw [hstack, hs'.stack], hks⟩

theorem Group.dupX1_spec (hg : Group m shares true count s words t) (hg' : Group m shares true .one t words' t')
    (hc : s.Coherent m) (hk : s.StackKnown s.stack) (h : Yields (pushWords ws) t' u s')
    (hws : ws.reverse = words ++ words' ++ words) : Shuffled m shares .dupX1 count s s' := by
  obtain ⟨rest, rest', hpop, hpop', hch, hstack, hks⟩ := hg.arrange hg' hc hk h fun w hw => by
    have := List.mem_reverse.mpr hw
    simp only [hws, List.mem_append] at this
    tauto
  exact ⟨hch, by simp [shuffleWords, hpop, hpop', hstack, hws], hks⟩

theorem Group.dupX2_spec (hg : Group m shares true count s words t) (hg' : Group m shares false .two t words' t')
    (hc : s.Coherent m) (hk : s.StackKnown s.stack) (h : Yields (pushWords ws) t' u s')
    (hws : ws.reverse = words ++ words' ++ words) : Shuffled m shares .dupX2 count s s' := by
  obtain ⟨rest, rest', hpop, hpop', hch, hstack, hks⟩ := hg.arrange hg' hc hk h fun w hw => by
    have := List.mem_reverse.mpr hw
    simp only [hws, List.mem_append] at this
    tauto
  exact ⟨hch, by simp [shuffleWords, hpop, hpop', hstack, hws], hks⟩

end

/-- Every stack instruction moves the words on top of the stack as its form says. -/
theorem lowerShuffle_spec (shares : Bool) {how : Shuffle} {count : Count} (h : Yields (lowerShuffle i how count) s u s')
    (hc : s.Coherent m) (hk : s.StackKnown s.stack) : Shuffled m shares how count s s' := by
  cases how with
  | pop =>
    cases count with
    | one =>
      simp only [lowerShuffle, yields_bind, yields_pure] at h
      obtain ⟨d, t, h1, -, rfl⟩ := h
      exact (group_one shares false h1 hc hk).pop_spec hc hk
    | two =>
      simp only [lowerShuffle, yields_bind, yields_pure] at h
      obtain ⟨d, t, h1, w, t', h2, -, rfl⟩ := h
      exact (group_two_apart shares h1 h2 hc hk).pop_spec hc hk
  | dup =>
    cases count with
    | one =>
      simp only [lowerShuffle, yields_bind] at h
      obtain ⟨d, t, h1, h⟩ := h
      exact (group_one shares true h1 hc hk).dup_spec hk h rfl
    | two =>
      simp only [lowerShuffle, yields_bind] at h
      obtain ⟨d, t, h1, e, t', h2, h⟩ := h
      exact (group_two shares h1 h2 hc hk).dup_spec hk h rfl
  | dupX1 =>
    cases count with
    | one =>
      simp only [lowerShuffle, yields_bind] at h
      obtain ⟨d, t, h1, o, t', h2, h⟩ := h
      have hg := group_one shares true h1 hc hk
      obtain ⟨hct, hkt⟩ := hg.stackKnown hc hk
      exact hg.dupX1_spec (group_one shares true h2 hct hkt) hc hk h rfl
    | two =>
      simp only [lowerShuffle, yields_bind] at h
      obtain ⟨d, t, h1, e, t', h2, o, t'', h3, h⟩ := h
      have hg := group_two shares h1 h2 hc hk
      obtain ⟨hct, hkt⟩ := hg.stackKnown hc hk
      exact hg.dupX1_spec (group_one shares true h3 hct hkt) hc hk h rfl
  | dupX2 =>
    cases count with
    | one =>
      simp only [lowerShuffle, yields_bind] at h
      obtain ⟨d, t, h1, o, t', h2, w, t'', h3, h⟩ := h
      have hg := group_one shares true h1 hc hk
      obtain ⟨hct, hkt⟩ := hg.stackKnown hc hk
      exact hg.dupX2_spec (group_two_apart shares h2 h3 hct hkt) hc hk h rfl
    | two =>
      simp only [lowerShuffle, yields_bind] at h
      obtain ⟨d, t, h1, e, t', h2, o, t'', h3, w, t₃, h4, h⟩ := h
      have hg := group_two shares h1 h2 hc hk
      obtain ⟨hct, hkt⟩ := hg.stackKnown hc hk
      exact hg.dupX2_spec (group_two_apart shares h3 h4 hct hkt) hc hk h rfl
  | swap =>
    simp only [lowerShuffle, yields_bind] at h
    obtain ⟨a, t, h1, b, t', h2, h⟩ := h
    have hg := group_one shares true h1 hc hk
    obtain ⟨hct, hkt⟩ := hg.stackKnown hc hk
    obtain ⟨rest, rest', hpop, hpop', hch, hstack, hks⟩ := hg.arrange (group_one shares true h2 hct hkt) hc hk h (by simp)
    exact ⟨hch, by simp [shuffleWords, hpop, hpop', hstack], hks⟩

end Lowering
end ThreeAddress
