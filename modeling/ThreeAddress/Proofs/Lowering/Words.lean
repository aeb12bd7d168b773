import ThreeAddress.Lowering.OperandStack
import ThreeAddress.Proofs.Semantics.StackMachine

/-!
# Simulated stacks as stacks of values

What lowering an operation does to the words of the simulated stack, apart from everything else: `popOperands`, `pushOperand` and
`shuffleWords`. `Spells` relates the words of a simulated stack to a stack of narrow and wide values, whatever the values are; popping,
pushing and every form of the stack instructions respect it.
-/

namespace ThreeAddress

/-! ## Words -/

/-- Pops an operand and, if it is wide, the word of its other half. -/
def popOperand : Bool → Stack → Option (OperandId × Stack)
  | false, .operand o :: rest => some (o, rest)
  | true, .operand o :: .wideHalf :: rest => some (o, rest)
  | true, .operand o :: .operand p :: rest => if p = o then some (o, rest) else none
  | _, _ => none

/-- Pops operands of given widths, the top one first. -/
def popOperands : List Bool → Stack → Option (List OperandId × Stack)
  | [], stack => some ([], stack)
  | w :: ws, stack => do
    let (o, rest) ← popOperand w stack
    let (os, rest) ← popOperands ws rest
    return (o :: os, rest)

/-- Pushes an operand; if it is wide, above a word for its other half. -/
def pushOperand (o : OperandId) (wide : Bool) (stack : Stack) : Stack :=
  .operand o :: if wide then .wideHalf :: stack else stack

/-- Pops the words that a stack instruction moves as one. If `whole`, the half of a wide value becomes the operand itself. -/
def popWords (whole : Bool) : Count → Stack → Option (List Word × Stack)
  | .one, .operand o :: rest => some ([.operand o], rest)
  | .two, .operand o :: .wideHalf :: rest => some ([.operand o, if whole then .operand o else .wideHalf], rest)
  | .two, .operand o :: .operand p :: rest => some ([.operand o, .operand p], rest)
  | _, _ => none

/-- What a stack instruction makes of the words of a stack. -/
def shuffleWords : Shuffle → Count → Stack → Option Stack
  | .pop, count, stack => do
    let (_, rest) ← popWords false count stack
    return rest
  | .dup, count, stack => do
    let (group, rest) ← popWords true count stack
    return group ++ group ++ rest
  | .dupX1, count, stack => do
    let (group, rest) ← popWords true count stack
    let (below, rest) ← popWords true .one rest
    return group ++ below ++ group ++ rest
  | .dupX2, count, stack => do
    let (group, rest) ← popWords true count stack
    let (below, rest) ← popWords false .two rest
    return group ++ below ++ group ++ rest
  | .swap, _, stack => do
    let (top, rest) ← popWords true .one stack
    let (below, rest) ← popWords true .one rest
    return below ++ top ++ rest

/-! ## Outlines -/

/-- A word without the value that it stands for. -/
def Word.outline : Word → Word
  | .operand _ => .operand ⟨0⟩
  | .wideHalf => .wideHalf

/-- The words of a stack without the values that they stand for. -/
def Stack.outline (stack : Stack) : Stack :=
  stack.map Word.outline

theorem Stack.length_outline (stack : Stack) : stack.outline.length = stack.length :=
  List.length_map _

theorem Stack.outline_append (words stack : Stack) : Stack.outline (words ++ stack) = words.outline ++ stack.outline :=
  List.map_append

/-- Whether operands can be popped depends on them if a wide one is there twice, and what is left does not. -/
theorem popOperand_outline {w : Bool} {o : OperandId} {stack rest : Stack} (h : popOperand w stack = some (o, rest)) :
    popOperand w stack.outline = some (⟨0⟩, rest.outline) := by
  unfold popOperand at h
  split at h
  · cases h
    rfl
  · cases h
    rfl
  · split at h
    · cases h
      rfl
    · cases h
  · cases h

theorem popOperands_outline {ws : List Bool} {os : List OperandId} {stack rest : Stack} (h : popOperands ws stack = some (os, rest)) :
    ∃ os', popOperands ws stack.outline = some (os', rest.outline) := by
  induction ws generalizing os stack with
  | nil =>
    cases h
    exact ⟨[], rfl⟩
  | cons w ws ih =>
    simp only [popOperands, Option.bind_eq_bind, Option.bind_eq_some_iff, Option.pure_def, Option.some.injEq, Prod.mk.injEq] at h
    obtain ⟨⟨o, mid⟩, ho, ⟨os', rest'⟩, hos, -, rfl⟩ := h
    obtain ⟨os'', hos''⟩ := ih hos
    exact ⟨⟨0⟩ :: os'', by simp [popOperands, popOperand_outline ho, hos'']⟩

theorem pushOperand_outline (o : OperandId) (w : Bool) (stack : Stack) :
    (pushOperand o w stack).outline = pushOperand ⟨0⟩ w stack.outline := by
  cases w <;> rfl

theorem popWords_outline {whole : Bool} {count : Count} {words : List Word} {stack rest : Stack}
    (h : popWords whole count stack = some (words, rest)) :
    popWords whole count stack.outline = some (Stack.outline words, rest.outline) := by
  unfold popWords at h
  split at h
  · cases h
    rfl
  · cases h
    cases whole <;> rfl
  · cases h
    rfl
  · cases h

/-- A stack instruction moves words whichever values they stand for. -/
theorem shuffleWords_outline {how : Shuffle} {count : Count} {before after : Stack} (h : shuffleWords how count before = some after) :
    shuffleWords how count before.outline = some after.outline := by
  cases how with
  | pop | dup =>
    simp only [shuffleWords, Option.bind_eq_bind, Option.bind_eq_some_iff, Option.pure_def, Option.some.injEq] at h
    obtain ⟨⟨words, rest⟩, hg, rfl⟩ := h
    simp [shuffleWords, popWords_outline hg, Stack.outline_append]
  | dupX1 | dupX2 | swap =>
    simp only [shuffleWords, Option.bind_eq_bind, Option.bind_eq_some_iff, Option.pure_def, Option.some.injEq] at h
    obtain ⟨⟨words, rest⟩, hg, ⟨words', rest'⟩, hg', rfl⟩ := h
    simp [shuffleWords, popWords_outline hg, popWords_outline hg', Stack.outline_append]

/-! ## Operands on stacks -/

theorem mem_pushOperand {o q : OperandId} {w : Bool} {stack : Stack} :
    .operand o ∈ pushOperand q w stack ↔ o = q ∨ .operand o ∈ stack := by
  cases w <;> simp [pushOperand]

theorem mem_of_popWords {whole : Bool} {count : Count} {words : List Word} {stack rest : Stack}
    (h : popWords whole count stack = some (words, rest)) :
    (∀ o, .operand o ∈ words → .operand o ∈ stack) ∧ ∀ o, .operand o ∈ rest → .operand o ∈ stack := by
  unfold popWords at h
  split at h
  · cases h
    exact ⟨by simp, by simp +contextual⟩
  · cases h
    cases whole <;> exact ⟨by simp, by simp +contextual⟩
  · cases h
    exact ⟨by simp +contextual [or_imp], by simp +contextual⟩
  · cases h

/-- A stack instruction moves operands that are on the stack. -/
theorem mem_of_shuffleWords {how : Shuffle} {count : Count} {before after : Stack} {o : OperandId}
    (h : shuffleWords how count before = some after) (ho : .operand o ∈ after) : .operand o ∈ before := by
  cases how with
  | pop =>
    simp only [shuffleWords, Option.bind_eq_bind, Option.bind_eq_some_iff, Option.pure_def, Option.some.injEq] at h
    obtain ⟨⟨words, rest⟩, hg, rfl⟩ := h
    exact (mem_of_popWords hg).2 o ho
  | dup =>
    simp only [shuffleWords, Option.bind_eq_bind, Option.bind_eq_some_iff, Option.pure_def, Option.some.injEq] at h
    obtain ⟨⟨words, rest⟩, hg, rfl⟩ := h
    obtain ⟨hw, hr⟩ := mem_of_popWords hg
    simp only [List.mem_append] at ho
    rcases ho with (ho | ho) | ho
    exacts [hw o ho, hw o ho, hr o ho]
  | dupX1 | dupX2 | swap =>
    simp only [shuffleWords, Option.bind_eq_bind, Option.bind_eq_some_iff, Option.pure_def, Option.some.injEq] at h
    obtain ⟨⟨words, rest⟩, hg, ⟨words', rest'⟩, hg', rfl⟩ := h
    obtain ⟨hw, hr⟩ := mem_of_popWords hg
    obtain ⟨hw', hr'⟩ := mem_of_popWords hg'
    have below : .operand o ∈ words' ∨ .operand o ∈ rest' → .operand o ∈ before := by
      rintro (ho | ho)
      exacts [hr o (hw' o ho), hr o (hr' o ho)]
    have all : .operand o ∈ words ∨ .operand o ∈ words' ∨ .operand o ∈ rest' → .operand o ∈ before := fun ho => ho.elim (hw o) below
    simp only [List.mem_append] at ho
    exact all (by tauto)

/-! ## Words that stand for values -/

/-- The words of a stack stand for the cells of another, one by one: a narrow cell is one operand, a wide one an operand above a half or
above itself. -/
inductive Spells {α : Type} (wide : α → Bool) (stands : OperandId → α → Prop) : Stack → List α → Prop where
  | nil : Spells wide stands [] []
  | narrow {o : OperandId} {a : α} {stack : Stack} {as : List α} (width : wide a = false) (value : stands o a)
      (rest : Spells wide stands stack as) : Spells wide stands (.operand o :: stack) (a :: as)
  | wide {o : OperandId} {w : Word} {a : α} {stack : Stack} {as : List α} (width : wide a = true) (value : stands o a)
      (half : w = .wideHalf ∨ w = .operand o) (rest : Spells wide stands stack as) :
      Spells wide stands (.operand o :: w :: stack) (a :: as)

namespace Spells

variable {α β : Type} {wide : α → Bool} {stands : OperandId → α → Prop} {stack rest : Stack} {cells below : List α}

/-- What the operands of a stack stand for may be said in another way. -/
theorem imp {stands' : OperandId → α → Prop} (h : Spells wide stands stack cells)
    (hs : ∀ o a, .operand o ∈ stack → stands o a → stands' o a) : Spells wide stands' stack cells := by
  induction h with
  | nil => exact .nil
  | narrow hw hv _ ih =>
    exact .narrow hw (hs _ _ (by simp) hv) (ih fun o a ho => hs o a (by simp [ho]))
  | wide hw hv hh _ ih =>
    exact .wide hw (hs _ _ (by simp) hv) hh (ih fun o a ho => hs o a (by simp [ho]))

/-- Cells may be replaced by what is made of them. -/
theorem map {f : α → β} {wide' : β → Bool} {stands' : OperandId → β → Prop} (h : Spells wide stands stack cells)
    (hw : ∀ a, wide' (f a) = wide a) (hs : ∀ o a, stands o a → stands' o (f a)) : Spells wide' stands' stack (cells.map f) := by
  induction h with
  | nil => exact .nil
  | narrow hn hv _ ih => exact .narrow (by rw [hw, hn]) (hs _ _ hv) ih
  | wide hn hv hh _ ih => exact .wide (by rw [hw, hn]) (hs _ _ hv) hh ih

theorem append {stack' : Stack} {cells' : List α} (h : Spells wide stands stack cells) (h' : Spells wide stands stack' cells') :
    Spells wide stands (stack ++ stack') (cells ++ cells') := by
  induction h with
  | nil => exact h'
  | narrow hw hv _ ih => exact .narrow hw hv ih
  | wide hw hv hh _ ih => exact .wide hw hv hh ih

/-- An empty stack of cells is an empty stack of words. -/
theorem eq_nil (h : Spells wide stands stack []) : stack = [] := by
  cases h
  rfl

/-- The operands on a stack stand for its cells. -/
theorem exists_of_mem {o : OperandId} (h : Spells wide stands stack cells) (ho : .operand o ∈ stack) : ∃ a ∈ cells, stands o a := by
  induction h with
  | nil => cases ho
  | @narrow p a _ as _ value _ ih =>
    rcases List.mem_cons.mp ho with heq | ho
    · cases heq
      exact ⟨a, List.mem_cons_self, value⟩
    · obtain ⟨b, hb, hstands⟩ := ih ho
      exact ⟨b, List.mem_cons_of_mem _ hb, hstands⟩
  | @wide p w a _ as _ value half _ ih =>
    rcases List.mem_cons.mp ho with heq | ho
    · cases heq
      exact ⟨a, List.mem_cons_self, value⟩
    · rcases List.mem_cons.mp ho with heq | ho
      · rcases half with rfl | rfl <;> cases heq
        exact ⟨a, List.mem_cons_self, value⟩
      · obtain ⟨b, hb, hstands⟩ := ih ho
        exact ⟨b, List.mem_cons_of_mem _ hb, hstands⟩

/-- The cells of a stack have operands that stand for them. -/
theorem exists_operand_of_mem {a : α} (h : Spells wide stands stack cells) (ha : a ∈ cells) : ∃ o, .operand o ∈ stack ∧ stands o a := by
  induction h with
  | nil => cases ha
  | narrow _ value _ ih =>
    rcases List.mem_cons.mp ha with rfl | ha
    · exact ⟨_, List.mem_cons_self, value⟩
    · obtain ⟨o, ho, hstands⟩ := ih ha
      exact ⟨o, List.mem_cons_of_mem _ ho, hstands⟩
  | wide _ value _ _ ih =>
    rcases List.mem_cons.mp ha with rfl | ha
    · exact ⟨_, List.mem_cons_self, value⟩
    · obtain ⟨o, ho, hstands⟩ := ih ha
      exact ⟨o, List.mem_cons_of_mem _ (List.mem_cons_of_mem _ ho), hstands⟩

/-- Pushing respects what words stand for. -/
theorem push {o : OperandId} {a : α} (h : Spells wide stands stack cells) (ho : stands o a) :
    Spells wide stands (pushOperand o (wide a) stack) (a :: cells) := by
  cases hw : wide a with
  | false => exact .narrow hw ho h
  | true => exact .wide hw ho (Or.inl rfl) h

/-! ## Popping operands -/

/-- Values that can be popped are the values of operands that can be popped. -/
theorem pop {ws : List Bool} {popped : List α} (h : Spells wide stands stack cells) (hp : popAll wide ws cells = .ok (popped, below)) :
    ∃ os rest, popOperands ws stack = some (os, rest) ∧ List.Forall₂ stands os popped ∧ Spells wide stands rest below := by
  induction ws generalizing stack cells popped with
  | nil =>
    simp only [popAll, Except.ok.injEq, Prod.mk.injEq] at hp
    obtain ⟨rfl, rfl⟩ := hp
    exact ⟨[], stack, rfl, .nil, h⟩
  | cons w ws ih =>
    cases cells with
    | nil => simp [popAll] at hp
    | cons a cells =>
      by_cases hw : wide a = w
      · cases hr : popAll wide ws cells with
        | error e => simp [popAll, hw, hr, bind, Except.bind] at hp
        | ok p =>
          obtain ⟨as, b⟩ := p
          simp only [popAll, hw, if_true, hr, bind, Except.bind, pure, Except.pure, Except.ok.injEq, Prod.mk.injEq] at hp
          obtain ⟨rfl, rfl⟩ := hp
          cases h with
          | narrow hn hv hs =>
            obtain ⟨os, rest, hpop, hall, hrest⟩ := ih hs hr
            refine ⟨_ :: os, rest, ?_, .cons hv hall, hrest⟩
            rw [← hw, hn]
            simp [popOperands, popOperand, hpop]
          | @wide o half _ stack _ hn hv hh hs =>
            obtain ⟨os, rest, hpop, hall, hrest⟩ := ih hs hr
            refine ⟨o :: os, rest, ?_, .cons hv hall, hrest⟩
            rw [← hw, hn]
            rcases hh with rfl | rfl <;> simp [popOperands, popOperand, hpop]
      · simp [popAll, hw] at hp

/-- Operands that can be popped are enough values. -/
theorem not_underflow {ws : List Bool} {os : List OperandId} (h : Spells wide stands stack cells)
    (hp : popOperands ws stack = some (os, rest)) : popAll wide ws cells ≠ .error .underflow := by
  induction ws generalizing stack cells os rest with
  | nil => simp [popAll]
  | cons w ws ih =>
    cases h with
    | nil => cases w <;> simp [popOperands, popOperand] at hp
    | @narrow o a stack as hn hv hs =>
      by_cases hw : wide a = w
      · have hwf : w = false := by rw [← hw, hn]
        subst hwf
        simp only [popOperands, popOperand, Option.bind_eq_bind, Option.bind_some] at hp
        obtain ⟨⟨os', rest'⟩, hr, -⟩ := Option.bind_eq_some_iff.mp hp
        have hne := ih hs hr
        cases hc : popAll wide ws as with
        | error e =>
          simp only [popAll, hn, if_true, hc, bind, Except.bind]
          exact hc ▸ hne
        | ok q => simp [popAll, hn, hc, bind, Except.bind, pure, Except.pure]
      · simp [popAll, hw]
    | @wide o half a stack as hn hv hh hs =>
      by_cases hw : wide a = w
      · have hwt : w = true := by rw [← hw, hn]
        subst hwt
        have hpop : popOperand true (.operand o :: half :: stack) = some (o, stack) := by
          rcases hh with rfl | rfl <;> simp [popOperand]
        simp only [popOperands, hpop, Option.bind_eq_bind, Option.bind_some] at hp
        obtain ⟨⟨os', rest'⟩, hr, -⟩ := Option.bind_eq_some_iff.mp hp
        have hne := ih hs hr
        cases hc : popAll wide ws as with
        | error e =>
          simp only [popAll, hn, if_true, hc, bind, Except.bind]
          exact hc ▸ hne
        | ok q => simp [popAll, hn, hc, bind, Except.bind, pure, Except.pure]
      · simp [popAll, hw]

/-! ## Stack instructions -/

/-- Cells that a stack instruction moves as one are words that it moves as one, the half of a wide value replaced or not. -/
theorem popGroup {count : Count} {group : List α} (whole : Bool) (h : Spells wide stands stack cells)
    (hp : popGroup wide count cells = .ok (group, below)) :
    ∃ words rest, popWords whole count stack = some (words, rest) ∧ Spells wide stands words group ∧
      Spells wide stands rest below := by
  cases h with
  | nil => simp [ThreeAddress.popGroup] at hp
  | @narrow o a stack as hn hv hs =>
    cases count with
    | one =>
      simp only [ThreeAddress.popGroup, hn, Bool.false_eq_true, if_false, Except.ok.injEq, Prod.mk.injEq] at hp
      obtain ⟨rfl, rfl⟩ := hp
      exact ⟨_, stack, rfl, .narrow hn hv .nil, hs⟩
    | two =>
      cases hs with
      | nil => simp [ThreeAddress.popGroup, hn] at hp
      | @narrow p b stack as hb hvb hs =>
        simp only [ThreeAddress.popGroup, hn, hb, Bool.false_eq_true, if_false, Except.ok.injEq, Prod.mk.injEq] at hp
        obtain ⟨rfl, rfl⟩ := hp
        exact ⟨_, stack, rfl, .narrow hn hv (.narrow hb hvb .nil), hs⟩
      | wide hb hvb hh hs => simp [ThreeAddress.popGroup, hn, hb] at hp
  | @wide o half a stack as hn hv hh hs =>
    cases count with
    | one => simp [ThreeAddress.popGroup, hn] at hp
    | two =>
      simp only [ThreeAddress.popGroup, hn, if_true, Except.ok.injEq, Prod.mk.injEq] at hp
      obtain ⟨rfl, rfl⟩ := hp
      rcases hh with rfl | rfl
      · refine ⟨_, stack, rfl, .wide hn hv ?_ .nil, hs⟩
        cases whole <;> simp
      · exact ⟨_, stack, rfl, .wide hn hv (Or.inr rfl) .nil, hs⟩

/-- Words that can be moved as one are enough values. -/
theorem popGroup_not_underflow {count : Count} {whole : Bool} {words : List Word} (h : Spells wide stands stack cells)
    (hp : popWords whole count stack = some (words, rest)) : ThreeAddress.popGroup wide count cells ≠ .error .underflow := by
  cases h with
  | nil => cases count <;> simp [popWords] at hp
  | narrow hn _ hs =>
    cases count with
    | one => simp [ThreeAddress.popGroup, hn]
    | two =>
      cases hs with
      | nil => simp [popWords] at hp
      | narrow hb _ _ => simp [ThreeAddress.popGroup, hn, hb]
      | wide hb _ _ _ => simp [ThreeAddress.popGroup, hn, hb]
  | wide hn _ _ _ => cases count <;> simp [ThreeAddress.popGroup, hn]

/-- Every stack instruction makes of the words what the machine makes of the values, in each of its forms. -/
theorem rearrange {how : Shuffle} {count : Count} {cells' : List α} (h : Spells wide stands stack cells)
    (hr : rearrange wide how count cells = .ok cells') :
    ∃ stack', shuffleWords how count stack = some stack' ∧ Spells wide stands stack' cells' := by
  cases how with
  | pop =>
    simp only [ThreeAddress.rearrange, bind_eq_ok, pure_eq_ok] at hr
    obtain ⟨⟨group, below⟩, hg, rfl⟩ := hr
    obtain ⟨words, rest, hq, -, h2⟩ := h.popGroup false hg
    exact ⟨rest, by simp [shuffleWords, hq], h2⟩
  | dup =>
    simp only [ThreeAddress.rearrange, bind_eq_ok, pure_eq_ok] at hr
    obtain ⟨⟨group, below⟩, hg, rfl⟩ := hr
    obtain ⟨words, rest, hq, h1, h2⟩ := h.popGroup true hg
    exact ⟨words ++ words ++ rest, by simp [shuffleWords, hq], (h1.append h1).append h2⟩
  | dupX1 =>
    simp only [ThreeAddress.rearrange, bind_eq_ok, pure_eq_ok] at hr
    obtain ⟨⟨group, below⟩, hg, ⟨group', below'⟩, hg', rfl⟩ := hr
    obtain ⟨words, rest, hq, h1, h2⟩ := h.popGroup true hg
    obtain ⟨words', rest', hq', h1', h2'⟩ := h2.popGroup true hg'
    exact ⟨words ++ words' ++ words ++ rest', by simp [shuffleWords, hq, hq'], ((h1.append h1').append h1).append h2'⟩
  | dupX2 =>
    simp only [ThreeAddress.rearrange, bind_eq_ok, pure_eq_ok] at hr
    obtain ⟨⟨group, below⟩, hg, ⟨group', below'⟩, hg', rfl⟩ := hr
    obtain ⟨words, rest, hq, h1, h2⟩ := h.popGroup true hg
    obtain ⟨words', rest', hq', h1', h2'⟩ := h2.popGroup false hg'
    exact ⟨words ++ words' ++ words ++ rest', by simp [shuffleWords, hq, hq'], ((h1.append h1').append h1).append h2'⟩
  | swap =>
    simp only [ThreeAddress.rearrange, bind_eq_ok, pure_eq_ok] at hr
    obtain ⟨⟨top, below⟩, hg, ⟨top', below'⟩, hg', rfl⟩ := hr
    obtain ⟨words, rest, hq, h1, h2⟩ := h.popGroup true hg
    obtain ⟨words', rest', hq', h1', h2'⟩ := h2.popGroup true hg'
    exact ⟨words' ++ words ++ rest', by simp [shuffleWords, hq, hq'], (h1'.append h1).append h2'⟩

/-- A stack instruction that succeeds on words does not lack values. -/
theorem rearrange_not_underflow {how : Shuffle} {count : Count} {stack' : Stack} (h : Spells wide stands stack cells)
    (hs : shuffleWords how count stack = some stack') : ThreeAddress.rearrange wide how count cells ≠ .error .underflow := by
  intro hu
  cases how with
  | pop | dup =>
    simp only [shuffleWords, Option.bind_eq_bind, Option.bind_eq_some_iff] at hs
    obtain ⟨⟨words, rest⟩, hq, -⟩ := hs
    have hne := h.popGroup_not_underflow hq
    cases hg : ThreeAddress.popGroup wide count cells with
    | error e => exact hne (by simpa [ThreeAddress.rearrange, hg, bind, Except.bind] using hu)
    | ok p => simp [ThreeAddress.rearrange, hg, bind, Except.bind, pure, Except.pure] at hu
  | dupX1 | dupX2 =>
    simp only [shuffleWords, Option.bind_eq_bind, Option.bind_eq_some_iff] at hs
    obtain ⟨⟨words, rest⟩, hq, ⟨words', rest'⟩, hq', -⟩ := hs
    have hne := h.popGroup_not_underflow hq
    cases hg : ThreeAddress.popGroup wide count cells with
    | error e => exact hne (by simpa [ThreeAddress.rearrange, hg, bind, Except.bind] using hu)
    | ok p =>
      obtain ⟨words₂, rest₂, hq₂, -, h2⟩ := Spells.popGroup true h hg
      rw [hq] at hq₂
      obtain ⟨rfl, rfl⟩ : words = words₂ ∧ rest = rest₂ := by simpa using hq₂
      have hne' := h2.popGroup_not_underflow hq'
      simp only [ThreeAddress.rearrange, hg, bind, Except.bind] at hu
      split at hu
      · rename_i e he
        exact hne' (by rw [he]; simpa using hu)
      · simp [pure, Except.pure] at hu
  | swap =>
    simp only [shuffleWords, Option.bind_eq_bind, Option.bind_eq_some_iff] at hs
    obtain ⟨⟨words, rest⟩, hq, ⟨words', rest'⟩, hq', -⟩ := hs
    have hne := h.popGroup_not_underflow hq
    cases hg : ThreeAddress.popGroup wide .one cells with
    | error e => exact hne (by simpa [ThreeAddress.rearrange, hg, bind, Except.bind] using hu)
    | ok p =>
      obtain ⟨words₂, rest₂, hq₂, -, h2⟩ := Spells.popGroup true h hg
      rw [hq] at hq₂
      obtain ⟨rfl, rfl⟩ : words = words₂ ∧ rest = rest₂ := by simpa using hq₂
      have hne' := h2.popGroup_not_underflow hq'
      simp only [ThreeAddress.rearrange, hg, bind, Except.bind] at hu
      split at hu
      · rename_i e he
        exact hne' (by rw [he]; simpa using hu)
      · simp [pure, Except.pure] at hu

end Spells
end ThreeAddress
