import ThreeAddress.Proofs.Layout.Bodies
import ThreeAddress.Proofs.Unmarked.Visits

/-!
# Bodies without line numbers

What line numbers and the names of local slots do not change. Where line numbers make no way of their own, `Method.lower_unmarked` says that
a method is lowered if and only if it is without them, to the same body but for the names of registers and the lines of statements. A line
number between a branch and its label makes two ways of one, and then the body may differ: what follows is visited once more.
-/

namespace ThreeAddress

open State

/-- Two bodies are the same but for the names of registers and the lines of statements. -/
structure Body.Alike (b b' : Body) : Prop where
  signature : b'.signature = b.signature
  registers : b'.registers.map Register.unnamed = b.registers.map Register.unnamed
  stmts : b'.stmts.map (·.stmt) = b.stmts.map (·.stmt)
  traps : b'.traps = b.traps
  edges : b'.edges = b.edges

/-! ## Looking up operands -/

section
variable {α β ε ε' : Type} {f : α → Except ε β} {g : α → Except ε' β}

theorem Invoke.mapM_together (h : ∀ a, Together Eq (f a) (g a)) (c : Invoke α) : Together Eq (c.mapM f) (c.mapM g) := by
  cases c with
  | static | dynamic => exact (Together.mapM_eq h).bind_eq fun _ => rfl
  | «instance» => exact (Together.mapM_eq h).bind_eq fun _ => (h _).bind_eq fun _ => rfl

theorem Expr.mapM_together (h : ∀ a, Together Eq (f a) (g a)) (v : Expr α) : Together Eq (v.mapM f) (v.mapM g) := by
  cases v with
  | binary => exact (h _).bind_eq fun _ => (h _).bind_eq fun _ => rfl
  | new => exact rfl
  | newMultiArray => exact (Together.mapM_eq h).bind_eq fun _ => rfl
  | invoke c => exact (c.mapM_together h).bind_eq fun _ => rfl
  | _ => exact (h _).bind_eq fun _ => rfl

theorem Ref.mapM_together (h : ∀ a, Together Eq (f a) (g a)) (v : Ref α) : Together Eq (v.mapM f) (v.mapM g) := by
  cases v with
  | instanceField => exact (h _).bind_eq fun _ => rfl
  | array => exact (h _).bind_eq fun _ => (h _).bind_eq fun _ => rfl
  | _ => exact rfl

theorem Rvalue.mapM_together (h : ∀ a, Together Eq (f a) (g a)) (v : Rvalue α) : Together Eq (v.mapM f) (v.mapM g) := by
  cases v with
  | immediate => exact rfl
  | expr v => exact (v.mapM_together h).bind_eq fun _ => rfl
  | ref v => exact (v.mapM_together h).bind_eq fun _ => rfl

end

namespace Registers

variable {rs rs' : Registers}

/-- The order of registers does not depend on names. -/
theorem Same.ordered (h : rs.Same rs') (leading : List Nat) :
    (rs'.ordered leading).map Register.unnamed = (rs.ordered leading).map Register.unnamed := by
  have hids : rs'.all.toList.map (·.id) = rs.all.toList.map (·.id) := by
    have hall := congrArg (fun all => all.toList.map Prod.fst) h.all
    simpa [Register.unnamed, Function.comp_def] using hall
  have hget : ∀ id : RegisterId, (rs'.all[id.index]?).map Register.unnamed = (rs.all[id.index]?).map Register.unnamed := fun id => by
    rw [← Array.getElem?_map, ← Array.getElem?_map, h.all]
  have hslot : rs'.slot? = rs.slot? := funext h.slot?
  simp only [Registers.ordered, List.map_filterMap, hget, h.slots, hids, hslot]

end Registers

namespace Layout

/-- What a method receives is declared alike. -/
theorem declareIncoming_same {rs rs' : Registers} (h : rs.Same rs') (received : List Incoming) :
    Together (fun p p' => p'.1 = p.1 ∧ p.2.Same p'.2) (declareIncoming rs received) (declareIncoming rs' received) := by
  induction received generalizing rs rs' with
  | nil => exact ⟨rfl, h⟩
  | cons i received ih =>
    refine (h.declare i.slot i.type).bind ?_
    rintro ⟨r, rs₁⟩ ⟨_, rs₁'⟩ ⟨rfl, hsame⟩
    refine (ih hsame).bind ?_
    rintro ⟨stmts, rs₂⟩ ⟨_, rs₂'⟩ ⟨rfl, hsame'⟩
    exact ⟨rfl, hsame'⟩

variable {m : Method} {s s' : State}

/-- The entries of handlers keep their order. -/
theorem sortedEntries_unmarked (h : s.Mirrors m s') :
    sortedEntries s' = (sortedEntries s).map fun e => { e with insn := m.place e.insn } := by
  have insert : ∀ (e : HandlerEntry) (fs : List HandlerEntry), (∀ f ∈ fs, m.Stays f.insn) →
      insertEntry { e with insn := m.place e.insn } (fs.map fun f => { f with insn := m.place f.insn }) =
        (insertEntry e fs).map fun f => { f with insn := m.place f.insn } := by
    intro e fs hfs
    induction fs with
    | nil => rfl
    | cons f fs ih =>
      have hf := hfs f List.mem_cons_self
      have hrest := ih fun f' hf' => hfs f' (List.mem_cons_of_mem f hf')
      simp only [List.map_cons, insertEntry, hf.place_le_iff]
      split
      · rfl
      · rw [hrest, List.map_cons]
  have all : ∀ es : List HandlerEntry, (∀ e ∈ es, m.Stays e.insn) →
      (es.map fun e => { e with insn := m.place e.insn }).foldr insertEntry [] =
        (es.foldr insertEntry []).map fun e => { e with insn := m.place e.insn } := by
    intro es hes
    induction es with
    | nil => rfl
    | cons e es ih =>
      have hrest := fun e' he' => hes e' (List.mem_cons_of_mem e he')
      rw [List.map_cons, List.foldr_cons, ih hrest, List.foldr_cons]
      refine insert e _ fun f hf => ?_
      have hmem : f ∈ es := by simpa [sortedEntries] using (mem_sortedEntries (s := { s with handlerEntries := es })).mp hf
      exact hrest f hmem
  rw [sortedEntries, sortedEntries, h.entries, all _ h.entry_stays]

namespace Plan

/-- A plan for a method without line numbers is that for the method. -/
structure Mirrors (p p' : Plan) : Prop where
  method : p'.method = p.method.unmarked
  state : p.state.Mirrors p.method p'.state
  identities : p'.identities = p.identities

namespace Mirrors

variable {p p' : Plan} {i j : Nat} {l : Label}

/-! ## Positions -/

theorem unitStart (h : p.Mirrors p') (i : Nat) : p'.unitStart (p.method.place i) = p.unitStart i := by
  rw [Plan.unitStart, Plan.unitStart, h.identities, h.state.flatten_take_units]

theorem entriesStart (h : p.Mirrors p') : p'.entriesStart = p.entriesStart := by
  rw [Plan.entriesStart, Plan.entriesStart, h.state.units.1, h.state.units.2, ← Method.place_length, h.unitStart]

theorem endPosition (h : p.Mirrors p') : p'.endPosition = p.endPosition := by
  rw [Plan.endPosition, Plan.endPosition, h.entriesStart, h.state.entries, List.length_map]

theorem isTrailing (h : p.Mirrors p') (i : Nat) : p'.isTrailing (p.method.place i) = p.isTrailing i := by
  rw [Bool.eq_iff_iff, isTrailing_iff_unitStart, isTrailing_iff_unitStart, h.unitStart, h.entriesStart]

theorem position (h : p.Mirrors p') (i : Nat) : p'.position (p.method.place i) = p.position i := by
  rw [Plan.position, Plan.position, h.isTrailing, h.endPosition, h.unitStart]

theorem needsEnd (h : p.Mirrors p') : p'.needsEnd = p.needsEnd := by
  rw [Plan.needsEnd, Plan.needsEnd, h.method, Method.zipIdx_unmarked, List.any_map, List.any_filter]
  refine List.any_congr rfl fun x => ?_
  obtain ⟨op, i⟩ := x
  cases op with
  | label l => exact h.isTrailing i
  | _ => simp

/-! ## Labels -/

theorem target (h : p.Mirrors p') (l : Label) : p'.target l = p.target l := by
  have hlast : p'.lastLabelIndex? l = (p.lastLabelIndex? l).map p.method.place := by
    rw [lastLabelIndex?, lastLabelIndex?, h.method, Method.zipIdx_unmarked, ← List.map_reverse, ← List.filter_reverse,
      Method.find?_unmarked (fun _ _ hop => Method.isLine_of_label hop) fun _ _ _ => rfl, Option.map_map, Option.map_map]
    rfl
  rw [Plan.target, Plan.target, hlast]
  cases p.lastLabelIndex? l with
  | none => rfl
  | some i => exact congrArg Except.ok (h.position i)

theorem bindsAt (h : p.Mirrors p') (hi : p.method.Stays i) (l : Label) : p'.bindsAt l (p.method.place i) = p.bindsAt l i := by
  obtain ⟨op, here, stays⟩ := hi
  rw [Plan.bindsAt, Plan.bindsAt, h.method, Method.getElem?_unmarked here stays, here, h.state.unit i ⟨op, here, stays⟩]

/-- The instruction at which an exception is bound is looked for among the instructions with their indices. -/
theorem find?_bindsAt (p : Plan) (l : Label) : (List.range p.method.code.length).reverse.find? (p.bindsAt l) =
    (p.method.code.zipIdx.reverse.find? fun x => p.bindsAt l x.2).map (·.2) := by
  have hrange : List.range p.method.code.length = p.method.code.zipIdx.map Prod.snd := by
    rw [List.zipIdx_map_snd, List.range_eq_range']
  rw [hrange, ← List.map_reverse, List.find?_map]
  rfl

theorem handlerTarget (h : p.Mirrors p') (l : Label) : p'.handlerTarget l = p.handlerTarget l := by
  have hentry : (sortedEntries p'.state).findIdx? (·.label == l) = (sortedEntries p.state).findIdx? (·.label == l) := by
    rw [sortedEntries_unmarked h.state, List.findIdx?_map]
    rfl
  have hbinds : (List.range p'.method.code.length).reverse.find? (p'.bindsAt l) =
      ((List.range p.method.code.length).reverse.find? (p.bindsAt l)).map p.method.place := by
    have here : ∀ x ∈ p.method.code.zipIdx.reverse, p.method.code[x.2]? = some x.1 := fun x hx =>
      List.mem_zipIdx_iff_getElem?.mp (List.mem_reverse.mp hx)
    rw [find?_bindsAt, find?_bindsAt, h.method, Method.zipIdx_unmarked, ← List.map_reverse, ← List.filter_reverse,
      Method.find?_unmarked (q := fun x => p.bindsAt l x.2) (fun x hx hbinds => ?_) fun x hx stays => ?_, Option.map_map, Option.map_map]
    · rfl
    · rw [Plan.bindsAt, here x hx, Bool.and_eq_true] at hbinds
      exact Method.isLine_of_label hbinds.1
    · exact h.bindsAt ⟨x.1, here x hx, stays⟩ l
  rw [Plan.handlerTarget, Plan.handlerTarget, hentry, hbinds, h.entriesStart, h.target]
  split
  · rfl
  · cases (List.range p.method.code.length).reverse.find? (p.bindsAt l) with
    | none => rfl
    | some i => exact congrArg Except.ok (h.unitStart i)

theorem trap (h : p.Mirrors p') (e : ExceptionEntry) : p'.trap e = p.trap e := by
  simp only [Plan.trap, h.handlerTarget, h.target]

/-! ## Statements -/

/-- Only a fault tells where an operand was looked up. -/
theorem immediate (h : p.Mirrors p') (i j : Nat) (o : OperandId) : Together Eq (p.immediate i o) (p'.immediate j o) := by
  rw [Plan.immediate, Plan.immediate, h.state.content]
  split
  · exact rfl
  · exact trivial

theorem register (h : p.Mirrors p') (i j : Nat) (o : OperandId) : Together Eq (p.register i o) (p'.register j o) := by
  rw [Plan.register, Plan.register, h.state.content]
  split
  · exact rfl
  · exact trivial

theorem value (h : p.Mirrors p') (i j : Nat) (v : Rvalue OperandId) : Together Eq (p.value i v) (p'.value j v) :=
  v.mapM_together (h.immediate i j)

theorem finish (h : p.Mirrors p') (i j : Nat) (d : Draft) : Together Eq (p.finish i d) (p'.finish j d) := by
  have htarget : ∀ l, Together Eq (p.target l) (p'.target l) := fun l => h.target l ▸ .refl _
  cases d with
  | nop | increment | returnVoid => exact rfl
  | caught o => exact (h.register i j o).bind_eq fun _ => rfl
  | define o =>
    refine (h.register i j o).bind_eq fun _ => ?_
    rw [h.state.operand]
    exact (h.value i j _).bind_eq fun _ => rfl
  | copy r o =>
    rw [Plan.finish, Plan.finish, h.state.content]
    exact (h.value i j _).bind_eq fun _ => rfl
  | write place o =>
    rw [Plan.finish, Plan.finish, h.state.content]
    exact (place.mapM_together (h.immediate i j)).bind_eq fun _ => (h.value i j _).bind_eq fun _ => rfl
  | invoke call => exact (call.mapM_together (h.immediate i j)).bind_eq fun _ => rfl
  | branch way lhs rhs l =>
    refine (h.immediate i j lhs).bind_eq fun _ => ?_
    have hrhs : Together Eq (p.comparand i rhs) (p'.comparand j rhs) := by
      cases rhs with
      | operand o => exact h.immediate i j o
      | constant c => exact rfl
    exact hrhs.bind_eq fun _ => (htarget l).bind_eq fun _ => rfl
  | goto l => exact (htarget l).bind_eq fun _ => rfl
  | «switch» key keys targets default =>
    refine (h.immediate i j key).bind_eq fun _ => (Together.mapM_eq htarget).bind_eq fun _ => ?_
    exact (htarget default).bind_eq fun _ => rfl
  | «return» o | throw o | enterMonitor o | exitMonitor o => exact (h.immediate i j o).bind_eq fun _ => rfl

/-- The same statements are placed, with their lines or without. -/
theorem placed (h : p.Mirrors p') (keepLines keepLines' : Bool) :
    List.Forall₂ (fun x x' => x'.draft = x.draft) (p.placed (sourceLines p.method keepLines))
      (p'.placed (sourceLines p'.method keepLines')) := by
  have hlines : (sourceLines p.method keepLines).length = p.state.units.size := by rw [length_sourceLines, h.state.units.1]
  have hlines' : (sourceLines p'.method keepLines').length = p'.state.units.size := by
    rw [length_sourceLines, h.state.units.2, h.method]
  have hdrafts : (p'.placed (sourceLines p'.method keepLines')).map (·.draft) =
      (p.placed (sourceLines p.method keepLines)).map (·.draft) := by
    rw [map_draft_placed hlines, map_draft_placed hlines', h.state.flatten_units, sortedEntries_unmarked h.state, h.needsEnd,
      List.flatMap_map]
  rw [← List.forall₂_eq_eq_eq, List.forall₂_map_left_iff, List.forall₂_map_right_iff] at hdrafts
  exact hdrafts.flip

end Mirrors
end Plan

/-- A body is laid out as it is without line numbers. -/
theorem body_unmarked (h : s.Mirrors m s') (keepLines keepLines' : Bool) :
    Together Body.Alike (body m keepLines s) (body m.unmarked keepLines' s') := by
  unfold body
  refine (declareIncoming_same h.registers (incoming m)).bind ?_
  rintro ⟨_, rs⟩ ⟨identities, rs'⟩ ⟨rfl, hsame⟩
  have hplan : Plan.Mirrors ⟨m, s, identities.length⟩ ⟨m.unmarked, s', identities.length⟩ := ⟨rfl, h, rfl⟩
  refine (Together.mapM (R := fun x x' : Located => x'.stmt = x.stmt) (hplan.placed keepLines keepLines') fun x x' hx => ?_).bind
    fun rest rest' hrest => ?_
  · rw [hx]
    exact (hplan.finish x.insn x'.insn x.draft).bind_eq fun _ => rfl
  · refine (Together.mapM_eq fun e => hplan.trap e ▸ .refl _).bind_eq fun traps => ?_
    have hstmts : (identities ++ rest').map (·.stmt) = (identities ++ rest).map (·.stmt) := by
      rw [List.map_append, List.map_append, List.append_cancel_left_eq, ← List.forall₂_eq_eq_eq, List.forall₂_map_left_iff,
        List.forall₂_map_right_iff]
      exact hrest.flip
    exact ⟨rfl, hsame.ordered _, hstmts, rfl, congrArg controlEdges hstmts⟩

end Layout

/-- Where line numbers make no way of their own, they and the names of local slots do not change what is lowered: a method is lowered if and
only if it is without them, whether lines are kept or not, and the bodies are the same but for the names of registers and the lines of
statements. -/
theorem Method.lower_unmarked {m : Method} (h : m.MarkersApart) (keepLines keepLines' : Bool) :
    Together Body.Alike (m.lower keepLines) (m.unmarked.lower keepLines') := by
  refine Together.mapError ?_ _ _
  exact (Traversal.complete_unmarked .pendingFirst h).bind fun t t' ht => Layout.body_unmarked ht.state keepLines keepLines'

/-- A method with a line number between a branch and the label to which it goes. -/
def Method.markedBranch : Method :=
  { className := "Sample", name := "run", signature := { params := [], ret := .void }, isStatic := true, maxLocals := 2, maxStack := 1,
    code := [.load .int 0, .branch .int .one .eq ⟨2⟩, .line 7, .label ⟨2⟩, .const (.int 5), .store .int 1, .return .void]
    exceptions := [], localNames := [] }

example : ¬ Method.markedBranch.MarkersApart ∧ (Method.markedBranch.lower false).toOption.map (·.stmts.length) = some 4 ∧
    (Method.markedBranch.unmarked.lower false).toOption.map (·.stmts.length) = some 3 := by decide +kernel

end ThreeAddress
