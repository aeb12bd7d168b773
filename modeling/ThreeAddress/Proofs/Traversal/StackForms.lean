import ThreeAddress.Proofs.Traversal.Between
import ThreeAddress.Proofs.Traversal.Sizes

/-!
# The forms of the stack instructions

`Shuffle.Form` lists what each stack instruction may find on top of a stack of narrow and wide values, and what it leaves there. Lowering a
stack instruction succeeds wherever the simulated stack represents values of one of its forms, leaves a stack that represents what the form
says, and does nothing to the statements of any instruction but to evaluate operands that it moves and that need it.
-/

namespace ThreeAddress

open State

/-! ## Forms -/

/-- The forms of the stack instructions: the values that an instruction takes from the stack, the top one first, and those that it leaves
in their place. -/
inductive Shuffle.Form {α : Type} (wide : α → Bool) : Shuffle → Count → List α → List α → Prop where
  | pop {a : α} (top : wide a = false) : Form wide .pop .one [a] []
  | popPair {a b : α} (top : wide a = false) (next : wide b = false) : Form wide .pop .two [a, b] []
  | popWide {a : α} (top : wide a = true) : Form wide .pop .two [a] []
  | dup {a : α} (top : wide a = false) : Form wide .dup .one [a] [a, a]
  | dupPair {a b : α} (top : wide a = false) (next : wide b = false) : Form wide .dup .two [a, b] [a, b, a, b]
  | dupWide {a : α} (top : wide a = true) : Form wide .dup .two [a] [a, a]
  | dupX1 {a b : α} (top : wide a = false) (next : wide b = false) : Form wide .dupX1 .one [a, b] [a, b, a]
  | dupPairX1 {a b c : α} (top : wide a = false) (next : wide b = false) (third : wide c = false) :
      Form wide .dupX1 .two [a, b, c] [a, b, c, a, b]
  | dupWideX1 {a b : α} (top : wide a = true) (next : wide b = false) : Form wide .dupX1 .two [a, b] [a, b, a]
  | dupX2 {a b c : α} (top : wide a = false) (next : wide b = false) (third : wide c = false) :
      Form wide .dupX2 .one [a, b, c] [a, b, c, a]
  | dupX2Wide {a b : α} (top : wide a = false) (next : wide b = true) : Form wide .dupX2 .one [a, b] [a, b, a]
  | dupPairX2 {a b c d : α} (top : wide a = false) (next : wide b = false) (third : wide c = false) (fourth : wide d = false) :
      Form wide .dupX2 .two [a, b, c, d] [a, b, c, d, a, b]
  | dupWideX2 {a b c : α} (top : wide a = true) (next : wide b = false) (third : wide c = false) :
      Form wide .dupX2 .two [a, b, c] [a, b, c, a]
  | dupPairX2Wide {a b c : α} (top : wide a = false) (next : wide b = false) (third : wide c = true) :
      Form wide .dupX2 .two [a, b, c] [a, b, c, a, b]
  | dupWideX2Wide {a b : α} (top : wide a = true) (next : wide b = true) : Form wide .dupX2 .two [a, b] [a, b, a]
  | swap {a b : α} {count : Count} (top : wide a = false) (next : wide b = false) : Form wide .swap count [a, b] [b, a]

/-- The words that a stack instruction moves, whatever its form. -/
def Shuffle.reach : Shuffle → Count → Nat
  | .pop, count | .dup, count => count.toNat
  | .dupX1, count => count.toNat + 1
  | .dupX2, count => count.toNat + 2
  | .swap, _ => 2

namespace Shuffle.Form

variable {α : Type} {wide : α → Bool} {how : Shuffle} {count : Count} {top pushed : List α}

/-- Every form is one in which the stack machine carries the instruction out. -/
theorem rearrange (h : Form wide how count top pushed) (below : List α) :
    ThreeAddress.rearrange wide how count (top ++ below) = .ok (pushed ++ below) := by
  cases h <;> simp [ThreeAddress.rearrange, popGroup, bind_eq_ok, *]

/-- All forms of an instruction move the same number of words. -/
theorem words (h : Form wide how count top pushed) : (top.map fun a => wordsOf (wide a)).sum = how.reach count := by
  cases h <;> simp [reach, Count.toNat, wordsOf, *]

end Shuffle.Form

/-! ## Words that represent operands -/

/-- A simulated stack represents operands with their widths: a narrow one is a word, a wide one a word above its half or above itself. -/
abbrev Represents : Stack → List (OperandId × Bool) → Prop :=
  Spells Prod.snd fun o c => o = c.1

namespace Spells

variable {α : Type} {wide : α → Bool} {stands : OperandId → α → Prop} {stack : Stack} {cells top below : List α}

/-- The words of the upper cells are above those of the lower ones. -/
theorem split (h : Spells wide stands stack (top ++ below)) :
    ∃ words rest, stack = words ++ rest ∧ Spells wide stands words top ∧ Spells wide stands rest below := by
  induction top generalizing stack with
  | nil => exact ⟨[], stack, rfl, .nil, h⟩
  | cons a top ih =>
    cases h with
    | narrow width value rest =>
      obtain ⟨words, below, rfl, htop, hbelow⟩ := ih rest
      exact ⟨_ :: words, below, rfl, .narrow width value htop, hbelow⟩
    | wide width value half rest =>
      obtain ⟨words, below, rfl, htop, hbelow⟩ := ih rest
      exact ⟨_ :: _ :: words, below, rfl, .wide width value half htop, hbelow⟩

/-- As many words as make up the upper cells are the words of these. -/
theorem take_words (h : Spells wide stands stack (top ++ below)) :
    Spells wide stands (stack.take (top.map fun a => wordsOf (wide a)).sum) top := by
  obtain ⟨words, rest, rfl, htop, -⟩ := h.split
  have hwidths : Spells id (fun _ _ => True) words (top.map wide) := htop.map (fun _ => rfl) fun _ _ _ => trivial
  have hlength := hwidths.length
  rw [List.map_map, Function.comp_def] at hlength
  rwa [List.take_left' hlength]

end Spells

/-! ## What a stack instruction evaluates -/

/-- An operand without a register that is no constant and no local slot was evaluated where it was produced. -/
structure State.Evaluates (s s' : State) (o : OperandId) : Prop where
  unbound : (s.operand o).register = none
  unevaluated : (s.operand o).value.isImmediate = false
  empty : s.unit (s.operand o).insn = []
  unit : s'.unit (s.operand o).insn = [.define o]
  bound : (s'.operand o).register.isSome

/-- Operands are as before, but for registers that some of them got, and the statements of every instruction are as before, but where some
of a set of operands were evaluated. -/
structure State.OnlyEvaluates (P : OperandId → Prop) (s s' : State) : Prop where
  insn : ∀ o, (s'.operand o).insn = (s.operand o).insn
  value : ∀ o, (s'.operand o).value = (s.operand o).value
  bound : ∀ o, (s.operand o).register.isSome → (s'.operand o).register.isSome
  unit : ∀ i, s'.unit i = s.unit i ∨ ∃ o, P o ∧ (s.operand o).insn = i ∧ s.Evaluates s' o

namespace State.OnlyEvaluates

variable {P Q : OperandId → Prop} {s s' s'' : State}

theorem refl (s : State) : OnlyEvaluates P s s :=
  ⟨fun _ => rfl, fun _ => rfl, fun _ h => h, fun _ => Or.inl rfl⟩

theorem mono (h : OnlyEvaluates P s s') (hPQ : ∀ o, P o → Q o) : OnlyEvaluates Q s s' :=
  ⟨h.insn, h.value, h.bound, fun i => (h.unit i).imp_right fun ⟨o, hP, hrest⟩ => ⟨o, hPQ o hP, hrest⟩⟩

/-- What was evaluated first stays, because nothing is evaluated where a statement stands. -/
theorem trans (h : OnlyEvaluates P s s') (h' : OnlyEvaluates P s' s'') : OnlyEvaluates P s s'' where
  insn o := (h'.insn o).trans (h.insn o)
  value o := (h'.value o).trans (h.value o)
  bound o ho := h'.bound o (h.bound o ho)
  unit i := by
    rcases h.unit i with hu | ⟨o, hP, rfl, he⟩ <;> rcases h'.unit _ with hu' | ⟨p, hP', hp, he'⟩
    · exact Or.inl (hu'.trans hu)
    · refine Or.inr ⟨p, hP', (h.insn p).symm.trans hp, ?_, (h.value p) ▸ he'.unevaluated, ?_, h.insn p ▸ he'.unit, he'.bound⟩
      · by_contra hsome
        have := h.bound p (Option.isSome_iff_ne_none.mpr hsome)
        simp [he'.unbound] at this
      · rw [← h.insn p, hp, ← hu, ← hp]
        exact he'.empty
    · exact Or.inr ⟨o, hP, rfl, he.unbound, he.unevaluated, he.empty, hu'.trans he.unit, h'.bound o he.bound⟩
    · have hempty := he'.empty
      rw [hp, he.unit] at hempty
      cases hempty

end State.OnlyEvaluates

namespace Lowering

variable {m : Method} {s s' t : State} {i n k : Nat} {o : OperandId} {w : Word} {u : PUnit}

/-- Some words were taken from the stack, and nothing happened but that operands among them were evaluated. -/
structure Moves (n : Nat) (s s' : State) : Prop where
  length : n ≤ s.stack.length
  stack : s'.stack = s.stack.drop n
  size : s'.operands.size = s.operands.size
  evaluates : s.OnlyEvaluates (fun o => .operand o ∈ s.stack.take n) s'

theorem Moves.trans (h : Moves n s t) (h' : Moves k t s') : Moves (n + k) s s' where
  length := by
    have := h'.length
    rw [h.stack, List.length_drop] at this
    have := h.length
    omega
  stack := by rw [h'.stack, h.stack, List.drop_drop]
  size := h'.size.trans h.size
  evaluates := by
    refine (h.evaluates.mono fun o ho => ?_).trans (h'.evaluates.mono fun o ho => ?_)
    · rw [List.take_add]
      exact List.mem_append_left _ ho
    · rw [List.take_add, ← h.stack]
      exact List.mem_append_right _ ho

/-- Every operand on what is left of the stack exists. -/
theorem Moves.stackKnown (h : Moves n s s') (hk : s.StackKnown s.stack) : s'.StackKnown s'.stack := by
  intro o ho
  rw [h.stack] at ho
  rw [Known, h.size]
  exact hk o (List.mem_of_mem_drop ho)

/-- Moving an operand evaluates it unless it has a register or is a constant or a local slot. -/
theorem settle_evaluates (h : Yields (settle .immediate o) s u s') (hk : s.Known o) :
    s'.stack = s.stack ∧ s'.operands.size = s.operands.size ∧ s.OnlyEvaluates (· = o) s' := by
  simp only [settle, yields_bind, yields_get, yields_ite, yields_pure, Bool.and_eq_true, Bool.not_eq_true',
    Option.isNone_iff_eq_none] at h
  obtain ⟨_, _, ⟨rfl, rfl⟩, ⟨⟨hn, hv⟩, h⟩ | ⟨-, -, rfl⟩⟩ := h
  · simp only [spill, yields_bind, yields_freshRegister, yields_bind_register] at h
    obtain ⟨r, t, ⟨rfl, rfl⟩, hunit, rfl⟩ := h
    rename_i s
    have hk' : (s.withRegisters s.registers.fresh.2).Known o := hk
    refine ⟨rfl, by simp, ⟨fun p => by simp, fun p => by simp, fun p hp => isSome_bindTo p hp, fun j => ?_⟩⟩
    rcases unit_modifyUnit_or ((s.withRegisters s.registers.fresh.2).bindTo o s.registers.fresh.1) (s.operand o).insn
      (fun _ => [.define o]) j with hu | ⟨rfl, hu⟩
    · exact Or.inl hu
    · refine Or.inr ⟨o, rfl, rfl, hn, hv, hunit, hu, ?_⟩
      rw [modifyUnit_operand, operand_bindTo_self hk']
      rfl
  · exact ⟨rfl, rfl, .refl _⟩

theorem take_moves (h : Yields (take i .immediate false) s o s') (hk : s.StackKnown s.stack) : Moves 1 s s' := by
  have htake : take i .immediate false = (if false then popWide i else popNarrow i) >>= fun o => do settle .immediate o; return o := rfl
  simp only [htake, yields_bind, yields_pure] at h
  obtain ⟨p, t, hpop, _, t', hsettle, rfl, rfl⟩ := h
  obtain ⟨rest, hrest, rfl⟩ := yields_pop.mp hpop
  have hstack : s.stack = .operand o :: rest := by
    unfold popOperand at hrest
    split at hrest <;> simp_all
  obtain ⟨hs, hsize, he⟩ := settle_evaluates hsettle (hk o (by simp [hstack]))
  refine ⟨by simp [hstack], by rw [hs, hstack]; rfl, hsize, ?_⟩
  have popped : s.OnlyEvaluates (fun o => .operand o ∈ s.stack.take 1) (s.withStack rest) :=
    ⟨fun _ => rfl, fun _ => rfl, fun _ h => h, fun _ => Or.inl rfl⟩
  refine popped.trans (he.mono ?_)
  rintro p rfl
  simp [hstack]

theorem popWord_moves (h : Yields (popWord i) s w s') : Moves 1 s s' := by
  obtain ⟨rest, hstack, rfl⟩ := yields_popWord.mp h
  exact ⟨by simp [hstack], by simp [hstack], rfl, fun _ => rfl, fun _ => rfl, fun _ h => h, fun _ => Or.inl rfl⟩

theorem secondWord_moves (h : Yields (secondWord i o) s w s') (hk : s.StackKnown s.stack) : Moves 1 s s' := by
  simp only [secondWord, yields_bind, yields_peekWord] at h
  obtain ⟨v, _, ⟨-, rfl⟩, h⟩ := h
  cases v with
  | wideHalf =>
    simp only [yields_bind, yields_pure] at h
    obtain ⟨v, t, hpop, -, rfl⟩ := h
    exact popWord_moves hpop
  | operand p =>
    simp only [yields_bind, yields_pure] at h
    obtain ⟨q, t, htake, -, rfl⟩ := h
    exact take_moves htake hk

theorem anyWord_moves (h : Yields (anyWord i) s w s') (hk : s.StackKnown s.stack) : Moves 1 s s' := by
  simp only [anyWord, yields_bind, yields_peekWord] at h
  obtain ⟨v, _, ⟨-, rfl⟩, h⟩ := h
  cases v with
  | wideHalf => exact popWord_moves h
  | operand p =>
    simp only [yields_bind, yields_pure] at h
    obtain ⟨q, t, htake, -, rfl⟩ := h
    exact take_moves htake hk

/-- Words that are pushed after others were moved change nothing but the stack. -/
theorem Moves.pushWords {ws : List Word} (h : Moves n s t) (hpush : Yields (Lowering.pushWords ws) t u s') :
    s.OnlyEvaluates (fun o => .operand o ∈ s.stack.take n) s' := by
  obtain rfl := yields_pushWords.mp hpush
  exact h.evaluates.trans ⟨fun _ => rfl, fun _ => rfl, fun _ h => h, fun _ => Or.inl rfl⟩

/-- A stack instruction evaluates some of the operands that it moves, and does nothing else to any statement. -/
theorem lowerShuffle_evaluates {how : Shuffle} {count : Count} (h : Yields (lowerShuffle i how count) s u s')
    (hk : s.StackKnown s.stack) : s.OnlyEvaluates (fun o => .operand o ∈ s.stack.take (how.reach count)) s' := by
  cases how with
  | pop =>
    cases count with
    | one =>
      simp only [lowerShuffle, yields_bind, yields_pure] at h
      obtain ⟨d, t, h1, -, rfl⟩ := h
      exact (take_moves h1 hk).evaluates
    | two =>
      simp only [lowerShuffle, yields_bind, yields_pure] at h
      obtain ⟨d, t, h1, w, t', h2, -, rfl⟩ := h
      have m1 := take_moves h1 hk
      exact (m1.trans (anyWord_moves h2 (m1.stackKnown hk))).evaluates
  | dup =>
    cases count with
    | one =>
      simp only [lowerShuffle, yields_bind] at h
      obtain ⟨d, t, h1, h⟩ := h
      exact (take_moves h1 hk).pushWords h
    | two =>
      simp only [lowerShuffle, yields_bind] at h
      obtain ⟨d, t, h1, e, t', h2, h⟩ := h
      have m1 := take_moves h1 hk
      exact (m1.trans (secondWord_moves h2 (m1.stackKnown hk))).pushWords h
  | dupX1 =>
    cases count with
    | one =>
      simp only [lowerShuffle, yields_bind] at h
      obtain ⟨d, t, h1, o, t', h2, h⟩ := h
      have m1 := take_moves h1 hk
      exact (m1.trans (take_moves h2 (m1.stackKnown hk))).pushWords h
    | two =>
      simp only [lowerShuffle, yields_bind] at h
      obtain ⟨d, t, h1, e, t', h2, o, t'', h3, h⟩ := h
      have m1 := take_moves h1 hk
      have m2 := m1.trans (secondWord_moves h2 (m1.stackKnown hk))
      exact (m2.trans (take_moves h3 (m2.stackKnown hk))).pushWords h
  | dupX2 =>
    cases count with
    | one =>
      simp only [lowerShuffle, yields_bind] at h
      obtain ⟨d, t, h1, o, t', h2, w, t'', h3, h⟩ := h
      have m1 := take_moves h1 hk
      have m2 := m1.trans (take_moves h2 (m1.stackKnown hk))
      exact (m2.trans (anyWord_moves h3 (m2.stackKnown hk))).pushWords h
    | two =>
      simp only [lowerShuffle, yields_bind] at h
      obtain ⟨d, t, h1, e, t', h2, o, t'', h3, w, t₃, h4, h⟩ := h
      have m1 := take_moves h1 hk
      have m2 := m1.trans (secondWord_moves h2 (m1.stackKnown hk))
      have m3 := m2.trans (take_moves h3 (m2.stackKnown hk))
      exact (m3.trans (anyWord_moves h4 (m3.stackKnown hk))).pushWords h
  | swap =>
    simp only [lowerShuffle, yields_bind] at h
    obtain ⟨a, t, h1, b, t', h2, h⟩ := h
    have m1 := take_moves h1 hk
    exact (m1.trans (take_moves h2 (m1.stackKnown hk))).pushWords h

/-- In a coherent state a stack instruction succeeds wherever the words that it moves are there. -/
theorem exists_lowerShuffle {how : Shuffle} {count : Count} {stack' : Stack} (hc : s.Coherent m) (hk : s.StackKnown s.stack)
    (hwords : shuffleWords how count s.stack = some stack') : ∃ s', Yields (lowerShuffle i how count) s ⟨⟩ s' ∧ s'.stack = stack' := by
  cases hr : (lowerShuffle i how count).run s with
  | error f =>
    have never : shuffleWords how count s.stack = none → OnWords (fun _ => False) i := fun hnone => by simp [hwords] at hnone
    exact (failsBy_lowerShuffle hc hk never f hr).elim
  | ok p =>
    refine ⟨p.2, hr, ?_⟩
    have hshuffled := (lowerShuffle_spec true hr hc hk).words
    rw [hwords] at hshuffled
    exact (Option.some.inj hshuffled).symm

/-! ## Every form -/

/-- Stack instructions implement their forms. Wherever lowering gets to, whatever operands a simulated stack represents, in whatever words,
and whatever the form of a stack instruction for the widths on top: the instruction succeeds and leaves a stack that represents what the
form says. The statements of an instruction change only if it produced one of the operands that the form takes, and one that had no register
and was no constant and no local slot: it is evaluated there, where nothing stood, and has a register then. -/
theorem lowerShuffle_form (test : EdgeTest) (m : Method) :
    (∀ i (s : State) depths, Traversal.Before test m i s depths → s.Coherent m ∧ s.StackKnown s.stack) ∧
      ∀ s : State, s.Coherent m → ∀ (i : Nat) (how : Shuffle) (count : Count) (stack : Stack) (top pushed below : List (OperandId × Bool)),
        s.StackKnown stack → Represents stack (top ++ below) → how.Form Prod.snd count top pushed →
        ∃ s', (lowerShuffle i how count).run (s.withStack stack) = .ok (⟨⟩, s') ∧ Represents s'.stack (pushed ++ below) ∧
          ∀ j, s'.unit j = s.unit j ∨ ∃ c ∈ top, (s.operand c.1).insn = j ∧ s.Evaluates s' c.1 := by
  refine ⟨fun i s depths h => ⟨h.coherent, h.stackKnown⟩, fun s hc i how count stack top pushed below hk hrep hform => ?_⟩
  have hct : (s.withStack stack).Coherent m := (.stack stack : Change m true s _).coherent hc
  have hkt : (s.withStack stack).StackKnown (s.withStack stack).stack := hk
  obtain ⟨stack', hwords, hrep'⟩ := hrep.rearrange (hform.rearrange below)
  obtain ⟨s', hrun, rfl⟩ := exists_lowerShuffle (i := i) hct hkt hwords
  refine ⟨s', hrun, hrep', fun j => ?_⟩
  rcases (lowerShuffle_evaluates hrun hkt).unit j with hu | ⟨o, ho, hj, he⟩
  · exact Or.inl hu
  · -- The words that the instruction moves are those of the operands that the form takes.
    have htop := hrep.take_words
    rw [hform.words] at htop
    obtain ⟨c, hc', rfl⟩ := htop.exists_of_mem ho
    exact Or.inr ⟨c, hc', hj, he.unbound, he.unevaluated, he.empty, he.unit, he.bound⟩

/-- Copies what it reads from a field below a wide constant. -/
def copying : Method :=
  { className := "Sample", name := "run", signature := { params := [], ret := .void }, isStatic := true, maxLocals := 0, maxStack := 4,
    code := [.const (.long 5), .getStatic { className := "Sample", name := "x", type := .int }, .shuffle .dupX2 .one, .shuffle .pop .one,
      .shuffle .pop .two, .shuffle .pop .one, .return .void]
    exceptions := [], localNames := [] }

/-- The copy goes below the constant, which may be represented by its operand twice, and what was read is evaluated where it was. -/
theorem lowerShuffle_form_copying : ∃ (s : State) (depths : Array (Option Nat)), Traversal.Before .pendingFirst copying 2 s depths ∧
    ∃ s', (lowerShuffle 2 .dupX2 .one).run (s.withStack [.operand ⟨1⟩, .operand ⟨0⟩, .operand ⟨0⟩]) = .ok (⟨⟩, s') ∧
      Represents s'.stack [(⟨1⟩, false), (⟨0⟩, true), (⟨1⟩, false)] ∧ s'.unit 0 = s.unit 0 := by
  have begins : Traversal.Before .pendingFirst copying 0 _ _ := .first rfl rfl nofun
  have constant : Traversal.Before .pendingFirst copying 1 _ _ := .straight begins rfl rfl rfl rfl rfl
  have read : Traversal.Before .pendingFirst copying 2 _ _ := .straight constant rfl rfl rfl rfl rfl
  obtain ⟨reached, all⟩ := lowerShuffle_form .pendingFirst copying
  obtain ⟨s', hrun, hrep, hunits⟩ := all _ (reached 2 _ _ read).1 2 .dupX2 .one [.operand ⟨1⟩, .operand ⟨0⟩, .operand ⟨0⟩]
    [(⟨1⟩, false), (⟨0⟩, true)] [(⟨1⟩, false), (⟨0⟩, true), (⟨1⟩, false)] []
    (fun o ho => by
      simp only [List.mem_cons, List.not_mem_nil, or_false, or_self, Word.operand.injEq] at ho
      rcases ho with rfl | rfl
      · exact Nat.one_lt_two
      · exact Nat.two_pos)
    (.narrow rfl rfl (.wide rfl rfl (Or.inr rfl) .nil)) (.dupX2Wide rfl rfl)
  refine ⟨_, _, read, s', hrun, hrep, ?_⟩
  rcases hunits 0 with hsame | ⟨c, hc, hinsn, he⟩
  · exact hsame
  · simp only [List.mem_cons, List.not_mem_nil, or_false] at hc
    rcases hc with rfl | rfl
    · cases hinsn
    · cases he.unevaluated

end Lowering
end ThreeAddress
