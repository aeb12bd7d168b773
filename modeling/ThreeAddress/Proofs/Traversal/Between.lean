import ThreeAddress.Proofs.Traversal.Runs

/-!
# Between two instructions

`Before test m i s depths` says that visiting a method comes to be before the instruction `i` in the state `s`: a task was taken up there,
or the instruction in front of `i` was just lowered and control goes straight on. With the states between two tasks, and those behind an
instruction from which control does not go on, these are all the states `Between` two instructions, on first and on later visits, whether
the visit comes to its end or not. What a guide keeps holds in each of them.
-/

namespace ThreeAddress.Traversal

open State Lowering

section
variable {S : Type} [LoweringState S]

/-- Visiting a method comes to be before an instruction in a state, with the depths that are fixed by then. -/
inductive Before (test : EdgeTest) (m : Method) : Nat → S → Array (Option Nat) → Prop where
  /-- A task is taken up. -/
  | task {n : Nat} {t : Traversal S} {task : Task} {rest : List Task} (after : After test m n t) (next : t.tasks = task :: rest) :
      Before test m task.target (LoweringState.withStack t.state task.stack) t.depths
  /-- Control goes straight on. -/
  | straight {i : Nat} {op : Operation} {s s' : S} {depths depths' : Array (Option Nat)} (before : Before test m i s depths)
      (here : m.code[i]? = some op) (depth : checkDepth depths i (LoweringState.stack s).length = .ok depths')
      (lowered : (LoweringState.lowerOperation m i op).run s = .ok (⟨⟩, s'))
      (effect : checkEffect i op (LoweringState.stack s).length (LoweringState.stack s').length = .ok ()) (exits : exits m i op = .ok none) :
      Before test m (i + 1) s' depths'

/-- A state that a visit comes to between two instructions. -/
inductive Between (test : EdgeTest) (m : Method) : S → Prop where
  /-- Between two tasks, at the outset and in the end. -/
  | tasks {n : Nat} {t : Traversal S} (after : After test m n t) : Between test m t.state
  /-- Before an instruction. -/
  | before {i : Nat} {s : S} {depths : Array (Option Nat)} (before : Before test m i s depths) : Between test m s
  /-- Behind an instruction, whether control can go on from it or not. -/
  | behind {i : Nat} {op : Operation} {s s' : S} {depths : Array (Option Nat)} (before : Before test m i s depths)
      (here : m.code[i]? = some op) (lowered : (LoweringState.lowerOperation m i op).run s = .ok (⟨⟩, s')) : Between test m s'

end

variable {test : EdgeTest} {m : Method} {shares : Bool} {g : Guide m shares} {i : Nat} {op : Operation} {s s' : State}
  {depths : Array (Option Nat)}

/-- A method without handlers is visited from its first instruction on with nothing on the stack. -/
theorem Before.first (labels : undefinedLabel? m = none) (handlers : m.handlerLabels = []) (code : m.code ≠ []) :
    Before test m 0 (State.ofMethod m) (Array.replicate m.code.length none) := by
  have started : start (S := State) m = .ok ⟨.ofMethod m, Array.replicate m.code.length none, {}, [⟨0, [], none⟩]⟩ := by
    have hcode : m.code.isEmpty = false := by simpa using code
    simp [start, labels, hcode, LoweringState.addHandlerEntries, addHandlerEntries, handlers]
    rfl
  exact .task (.start started) rfl

/-- Whatever a guide keeps holds between any two instructions, if it holds at the outset. -/
theorem Before.holds_of (h : Before test m i s depths) (outset : ∀ t, start m = .ok t → t.Explored g fun _ _ => False) :
    g.Holds s i s.stack ∧ depths.size = m.code.length := by
  induction h with
  | task after next =>
    have hx := after.explored_of outset
    exact ⟨(hx.begin next).1, hx.size⟩
  | straight _ here depth lowered effect exits ih =>
    obtain ⟨holds, size⟩ := ih
    obtain ⟨-, hkeep, -, -, hnext⟩ := passed_of_visit lowered holds here depth size effect
    exact ⟨hnext _ ((leads_of_straight exits).mpr rfl), hkeep.1.trans size⟩

theorem Before.holds (h : Before test m i s depths) (hg : g.Begins) : g.Holds s i s.stack ∧ depths.size = m.code.length :=
  h.holds_of fun _ started => start_spec started hg

/-- Every state between two instructions is coherent. -/
theorem Before.coherent (h : Before test m i s depths) : s.Coherent m :=
  (h.holds (Guide.free_begins m)).1.coherent

/-- Every operand on the stack between two instructions exists. -/
theorem Before.stackKnown (h : Before test m i s depths) : s.StackKnown s.stack :=
  (h.holds (Guide.free_begins m)).1.known

/-- What lowering the next instruction does. -/
theorem Before.visit (h : Before test m i s depths) (here : m.code[i]? = some op) (lowered : Yields (lowerOperation m i op) s ⟨⟩ s') :
    Changes m true s s' ∧ s'.StackKnown s'.stack ∧ Visit m true i s.stack s'.stack s' op :=
  lowerOperation_spec lowered h.coherent here h.stackKnown nofun

/-- Whatever a visit comes to between two instructions is coherent, and sound if it is so at the outset. -/
theorem Between.sound_of (h : Between test m s) (outset : ∀ t, start m = .ok t → t.Explored g fun _ _ => False) :
    s.Coherent m ∧ g.sound s := by
  cases h with
  | tasks after =>
    have hx := after.explored_of outset
    exact ⟨hx.coherent, hx.sound⟩
  | before before =>
    have hb := (before.holds_of outset).1
    exact ⟨hb.coherent, hb.sound⟩
  | behind before here lowered =>
    obtain ⟨hb, -⟩ := before.holds_of outset
    obtain ⟨hch, hk, hv⟩ := lowerOperation_spec lowered hb.coherent here hb.known (g.alike hb.coherent hb.sound hb.admits here)
    exact ⟨hch.coherent hb.coherent, (g.visit hb.coherent hb.known hb.sound hb.admits here lowered hch hk hv).1⟩

/-- Every state between two instructions is coherent. -/
theorem Between.coherent (h : Between test m s) : s.Coherent m :=
  (h.sound_of fun _ started => start_spec started (Guide.free_begins m)).1

end ThreeAddress.Traversal
