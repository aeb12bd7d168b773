import ThreeAddress.Proofs.Semantics.Entry
import ThreeAddress.Proofs.Semantics.Turns
import ThreeAddress.Proofs.Traversal.Blocks

/-!
# Preservation of meaning

Where every operation finds values of the same producers on the stack, the body of a method shows what the code of the method shows: the same
calls, writes to the heap, monitor operations, branches and switches, in the same order and with the same values, and in the end the same
return or throw. At each of these the registers of the local slots hold what the slots hold. This holds under every interpretation of what the
code leaves open, and for runs of any length. Methods whose blocks exchange nothing on the stack are such methods.
-/

namespace ThreeAddress

open State Layout

variable {V H : Type} {M : Meaning V H} {args : Arguments V} {m : Method} {b : Body} {p : Plan} {slot : Nat → Option RegisterId}
  {keepLines : Bool}

/-- The turns of the machine of a body are those of the stack machine, but for turns in which it waits. -/
theorem Layout.Plan.Runs.simulates (h : p.Runs m b slot) (hin : ∀ i, m.Reachable i → i < m.code.length) :
    Simulates (StackState.step M m) (BodyState.step M args b) (Event.Agrees slot) (Related M m p slot)
      (fun σ => m.code.length - σ.position) := by
  refine .of_turns fun σ τ hr => ?_
  have hlt := hin _ hr.reaches.reachable
  have here := List.getElem?_eq_getElem hlt
  have waits : Waits M m p slot σ τ → ∃ σ', σ.step M m = .next none σ' ∧ Related M m p slot σ' τ ∧
      m.code.length - σ'.position < m.code.length - σ.position := by
    rintro ⟨σ', hstep, hr', hposition⟩
    exact ⟨σ', hstep, hr', by omega⟩
  by_cases plain : m.code[σ.position].isPlain
  · obtain ⟨before, after, xs, rest, e, below, hp⟩ := h.poised hr here plain
    cases hw : m.code[σ.position].pushes with
    | none => exact Or.inl (hp.turn_statement h hw)
    | some w => exact (hp.turn_result h hw).imp_right waits
  · exact Or.inr (waits (h.waits_of_not_plain hr here plain))

/-- The registers of a body are those of its plan and of what the method receives. -/
theorem Method.finalRegisters_of_layout {identities : List Located} {rs : Registers} (hp : m.layout = .ok p)
    (hincoming : Layout.declareIncoming p.state.registers (Layout.incoming m) = .ok (identities, rs)) : m.finalRegisters = .ok rs := by
  simp only [layout, bind_eq_ok, pure_eq_ok] at hp
  obtain ⟨t, ht, outcome, houtcome, rfl⟩ := hp
  simp only [finalRegisters, bind_eq_ok, pure_eq_ok]
  exact ⟨t, ht, (identities, rs), hincoming, rfl⟩

/-- What the execution of the body of a uniform method rests on. -/
theorem Method.runs_of_lower (h : m.lower keepLines = .ok b) (handlers : m.exceptions = []) (hd : m.LabelsDistinct) (hu : m.Uniform) :
    ∃ (p : Plan) (identities : List Located) (rs : Registers) (rest : List Located), p.Runs m b rs.slot? ∧
      declareIncoming p.state.registers (incoming m) = .ok (identities, rs) ∧ p.state.registers.Apart ∧
      m.finalRegisters = .ok rs ∧ p.entry 0 = identities.length ∧ b.stmts = identities ++ rest := by
  have hl : m.handlerLabels = [] := by simp [handlerLabels, handlers]
  obtain ⟨p, t, hp, hmethod, ht, hstate, hlays⟩ := lays_of_lower h
  obtain ⟨identities, rs, rest, hincoming, hlength, hstmts⟩ := identities_of_lower h hp
  have hfinal := finalRegisters_of_layout hp hincoming
  obtain ⟨hx, hn⟩ := Traversal.complete_spec ht (Guide.uniform_begins hu hl)
  have coherent : p.state.Coherent m := hstate ▸ hx.coherent
  have apart : p.state.registers.Apart := ⟨coherent.slot_lt, coherent.slot_inj⟩
  obtain ⟨hrs, hgrows⟩ := apart.declareIncoming hincoming
  refine ⟨p, identities, rs, rest, ?_, hincoming, apart, hfinal, ?_, hstmts⟩
  · exact
      { lays := ⟨keepLines, hlays⟩
        method := hmethod
        distinct := hd
        handlers := hl
        uniform := hu
        coherent := coherent
        steady := hstate ▸ hx.sound
        visits := fun i ws op hreaches here => hstate ▸ Traversal.visit_of_reaches hx hn hreaches here
        slots := hgrows.keeps
        slot_inj := hrs.inj
        apart := fun o r k hr => hgrows.slot?_ne (coherent.register o r hr) }
  · rw [Plan.entry_of_no_entries (hstate ▸ hx.sound.entries), hlength]
    rfl

/-- Everything that a method receives has a value. -/
theorem Arguments.isSome_value (args : Arguments V) {i : Incoming} (h : i ∈ incoming m) : (args.value? i.source).isSome := by
  rcases source_of_mem_incoming h with ⟨t, hsource⟩ | ⟨k, t, hsource⟩ <;> rw [hsource] <;> rfl

/-- The machines are related once the identities are executed. -/
theorem related_start {locals : Nat → V} {heap : H} {regs : RegisterId → V}
    (hregs : ∀ k r, slot k = some r → regs r = args.locals m locals k) :
    Related M m p slot (.start m args locals heap) { position := p.entry 0, regs, heap } where
  position := rfl
  heap := rfl
  locals := hregs
  stack := ⟨[], ⟨[], .start, rfl, .nil⟩, .nil⟩

/-- Where every operation finds values of the same producers on the stack and reachable code does not fall off its end, the body of a method
shows the events that its code shows, and no others; and the code is never stuck. Values may stay on the stack where ways of control come
together. -/
theorem Method.meaning_of_uniform (h : m.lower keepLines = .ok b) (handlers : m.exceptions = []) (hd : m.LabelsDistinct)
    (hin : ∀ i, m.Reachable i → i < m.code.length) (hu : m.Uniform) (M : Meaning V H) (args : Arguments V) (locals : Nat → V)
    (heap : H) (regs : RegisterId → V) (hregs : ∀ k r, m.slotRegister? k = some r → regs r = locals k) :
    ((∀ n, ∃ k, List.Forall₂ (Event.Agrees m.slotRegister?) (events (StackState.step M m) n (.start m args locals heap))
        (events (BodyState.step M args b) k (.start regs heap))) ∧
      ∀ k, ∃ n, List.Forall₂ (Event.Agrees m.slotRegister?) (events (StackState.step M m) n (.start m args locals heap))
        (events (BodyState.step M args b) k (.start regs heap))) ∧
      ∀ n σ, after (StackState.step M m) n (.start m args locals heap) = some σ → σ.step M m ≠ .stuck := by
  obtain ⟨p, identities, rs, rest, hruns, hincoming, hapart, hfinal, hentry, hstmts⟩ := runs_of_lower h handlers hd hu
  have hslot : m.slotRegister? = rs.slot? := by
    funext k
    rw [slotRegister?, hfinal]
  rw [hslot] at hregs ⊢
  obtain ⟨regs', hgoes, hagree⟩ := goes_identities (M := M) (b := b) (.start regs heap) hincoming hapart
    (fun i hi => args.isSome_value hi) (fun j x hx => by
      rw [hstmts, BodyState.start, Nat.zero_add, List.getElem?_append_left (List.getElem?_eq_some_iff.mp hx).1, hx]) hregs
  have hrelated : Related M m p rs.slot? (.start m args locals heap) { position := p.entry 0, regs := regs', heap } :=
    related_start fun k r hk => by rw [hagree k r hk, Arguments.locals_eq_receive]
  rw [BodyState.start, Nat.zero_add, ← hentry] at hgoes
  have hsim : Simulates _ (BodyState.step M args b) _ _ _ := hruns.simulates hin
  exact ⟨hsim.events_agree hgoes hrelated, fun n σ => hsim.never_stuck n hrelated⟩

/-- Where blocks exchange nothing on the stack and reachable code does not fall off its end, the body of a method shows the events that its
code shows, and no others; and the code is never stuck. -/
theorem Method.meaning_of_lower (h : m.lower keepLines = .ok b) (handlers : m.exceptions = []) (hd : m.LabelsDistinct)
    (hin : ∀ i, m.Reachable i → i < m.code.length) (hb : m.Blockwise) (M : Meaning V H) (args : Arguments V) (locals : Nat → V)
    (heap : H) (regs : RegisterId → V) (hregs : ∀ k r, m.slotRegister? k = some r → regs r = locals k) :
    ((∀ n, ∃ k, List.Forall₂ (Event.Agrees m.slotRegister?) (events (StackState.step M m) n (.start m args locals heap))
        (events (BodyState.step M args b) k (.start regs heap))) ∧
      ∀ k, ∃ n, List.Forall₂ (Event.Agrees m.slotRegister?) (events (StackState.step M m) n (.start m args locals heap))
        (events (BodyState.step M args b) k (.start regs heap))) ∧
      ∀ n σ, after (StackState.step M m) n (.start m args locals heap) = some σ → σ.step M m ≠ .stuck :=
  meaning_of_uniform h handlers hd hin hb.uniform M args locals heap regs hregs

/-! ## A loop -/

/-- The widths on the stack before each operation of the loop. -/
theorem Method.widths_of_reaches_countdown {i : Nat} {ws : List Bool} (h : Reaches countdown i ws) :
    [[], [false], [], [], [false], [], [], [], []][i]? = some ws := by
  induction h with
  | start => rfl
  | @step i j op ws ws' _ here shape leads ih =>
    match i with
    | 0 | 1 | 2 | 3 | 5 | 6 | 7 =>
      cases ih
      cases here
      cases leads
      exact congrArg some (Except.ok.inj shape)
    | 4 =>
      cases ih
      cases here
      rcases leads with rfl | leads
      · exact congrArg some (Except.ok.inj shape)
      · cases leads
        exact congrArg some (Except.ok.inj shape)
    | 8 =>
      cases here
      cases leads
    | i + 9 => cases ih

theorem Method.blockwise_countdown : countdown.Blockwise where
  atLabel i l ws here hr := by
    have hw := widths_of_reaches_countdown hr
    match i with
    | 2 | 7 =>
      cases hw
      rfl
    | 0 | 1 | 3 | 4 | 5 | 6 | 8 => cases here
    | i + 9 => cases here
  afterBranch i op ws ws' here hj hr shape := by
    have hw := widths_of_reaches_countdown hr
    match i with
    | 4 | 6 =>
      cases hw
      cases here
      exact (Except.ok.inj shape).symm
    | 0 | 1 | 2 | 3 | 5 | 7 | 8 =>
      cases here
      exact absurd rfl hj
    | i + 9 => cases here
  widths i op ws here hr := by
    have hw := widths_of_reaches_countdown hr
    match i with
    | 0 | 1 | 2 | 3 | 4 | 5 | 6 | 7 | 8 =>
      cases hw
      cases here
      exact fun h => by cases h
    | i + 9 => cases here

/-- Integers with addition and order, and no heap. -/
def Meaning.integers : Meaning Int32 Unit where
  constant
    | .int n => n
    | _ => 0
  operator
    | _, .binary .add lhs rhs => lhs + rhs
    | _, _ => 0
  read _ _ := 0
  write _ _ _ := ()
  call _ _ := (0, ())
  holds
    | .eq, lhs, rhs => lhs == rhs
    | .ne, lhs, rhs => lhs != rhs
    | .lt, lhs, rhs => lhs < rhs
    | .ge, lhs, rhs => rhs ≤ lhs
    | .gt, lhs, rhs => rhs < lhs
    | .le, lhs, rhs => lhs ≤ rhs
  toInt n := n

/-- What the loop shows: it goes on for the numbers from nine down to one, and ends at zero. -/
def Method.countdownActions : List (Action Int32) :=
  (List.range 9).map (fun n => .branch .le (9 - Int32.ofNat n) 0 false) ++ [.branch .le 0 0 true, .returnVoid]

/-- The body shows what the code shows, turn for turn of the code, and comes to the actions of the whole loop. -/
theorem Method.meaning_countdown :
    ∃ b, countdown.lower false = .ok b ∧ countdown.exceptions = [] ∧ countdown.LabelsDistinct ∧
      (∀ i, countdown.Reachable i → i < countdown.code.length) ∧ countdown.Blockwise ∧
      (∀ n, ∃ k, List.Forall₂ (Event.Agrees countdown.slotRegister?)
        (events (StackState.step .integers countdown) n (.start countdown ⟨0, fun _ => 0, 0⟩ (fun _ => 0) ()))
        (events (BodyState.step .integers ⟨0, fun _ => 0, 0⟩ b) k (.start (fun _ => 0) ()))) ∧
      ∃ k, (events (BodyState.step .integers ⟨0, fun _ => 0, 0⟩ b) k (.start (fun _ => 0) ())).map (·.action) = countdownActions := by
  obtain ⟨b, hb⟩ : ∃ b, countdown.lower false = .ok b := exists_ok_of_isOk (by decide +kernel)
  have hd : countdown.LabelsDistinct := by decide
  have inside : countdown.StaysInside := .of_getLast fun op hop => by
    cases hop
    rfl
  have hin : ∀ i, countdown.Reachable i → i < countdown.code.length := fun i => inside.lt (by decide)
  obtain ⟨⟨shown, -⟩, -⟩ := meaning_of_lower hb rfl hd hin blockwise_countdown .integers ⟨0, fun _ => 0, 0⟩ (fun _ => 0) () (fun _ => 0)
    fun _ _ _ => rfl
  refine ⟨b, hb, rfl, hd, hin, blockwise_countdown, shown, ?_⟩
  -- The stack machine comes to its end within 62 turns.
  have code : (events (StackState.step .integers countdown) 62 (.start countdown ⟨0, fun _ => 0, 0⟩ (fun _ => 0) ())).map (·.action) =
      countdownActions := rfl
  obtain ⟨k, agree⟩ := shown 62
  refine ⟨k, ?_⟩
  rw [← code, eq_comm, ← List.forall₂_eq_eq_eq, List.forall₂_map_left_iff, List.forall₂_map_right_iff]
  exact agree.imp fun _ _ h => h.1

end ThreeAddress
