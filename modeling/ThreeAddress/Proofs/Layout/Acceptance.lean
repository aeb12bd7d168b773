import ThreeAddress.Proofs.Layout.Failures
import ThreeAddress.Proofs.Traversal.Order
import ThreeAddress.Proofs.Traversal.Verified

/-!
# Methods that are accepted

A verified method is visited to its end and laid out, unless an edge refuses a stack because another one waits there. Where no cycle can be
reached none is refused, so that the method is lowered. If the stacks that were sent along an edge decide alone, none is refused at all.
-/

namespace ThreeAddress

open State

variable {m : Method} {keepLines : Bool} {f : Fault}

/-- Every slot that the method declares can be given a type. -/
theorem Registers.exists_declare {rs : Registers} {k : Nat} (h : k < rs.maxLocals) (type : ValueType) :
    ∃ r rs', rs.declare k type = .ok (r, rs') ∧ rs'.maxLocals = rs.maxLocals := by
  obtain ⟨⟨r, rs'⟩, hslot⟩ := exists_slot h
  have hmax := maxLocals_slot hslot
  exact ⟨r, { rs' with all := rs'.all.modify r.index fun r => { r with type } }, by rw [declare, hslot]; rfl, hmax⟩

namespace Layout

/-- What a method receives from a slot on stands in the slots that its parameters take. -/
theorem slot_lt_of_incomingParams {k slot : Nat} {params : List ValueType} (free : .void ∉ params) {i : Incoming}
    (hi : i ∈ incomingParams k slot params) : i.slot < slot + Operation.paramWords params := by
  induction params generalizing k slot with
  | nil => cases hi
  | cons t params ih =>
    rw [List.mem_cons, not_or] at free
    have hpos : 0 < t.size := by
      rw [← ValueType.wordsOf_isWide (Ne.symm free.1)]
      exact wordsOf_pos _
    have hwords : Operation.paramWords (t :: params) = t.size + Operation.paramWords params := rfl
    rcases List.mem_cons.mp hi with rfl | hi
    · dsimp only
      omega
    · have := ih free.2 hi
      omega

/-- Whatever stands in slots of the method can be declared. -/
theorem exists_declareIncoming {rs : Registers} {received : List Incoming} (h : ∀ i ∈ received, i.slot < rs.maxLocals) :
    ∃ p, declareIncoming rs received = .ok p := by
  induction received generalizing rs with
  | nil => exact ⟨_, rfl⟩
  | cons i rest ih =>
    obtain ⟨r, rs', hdeclare, hmax⟩ := Registers.exists_declare (h i List.mem_cons_self) i.type
    have hslots : ∀ j ∈ rest, j.slot < rs'.maxLocals := fun j hj => hmax.symm ▸ h j (List.mem_cons_of_mem _ hj)
    obtain ⟨⟨stmts, rs''⟩, hrest⟩ := ih hslots
    refine ⟨⟨{ stmt := .identity r i.source, line := none } :: stmts, rs''⟩, ?_⟩
    simp only [declareIncoming, bind_eq_ok, pure_eq_ok]
    exact ⟨_, hdeclare, _, hrest, rfl⟩

/-- What a verified method receives has slots. -/
theorem slot_lt_of_incoming (hv : m.Verified) {i : Incoming} (hi : i ∈ incoming m) : i.slot < m.maxLocals := by
  have hreceived := hv.received
  unfold incoming at hi
  split at hi
  · rename_i hs
    rw [if_pos hs] at hreceived
    exact Nat.lt_of_lt_of_le (slot_lt_of_incomingParams hv.params hi) hreceived
  · rename_i hs
    rw [if_neg hs] at hreceived
    rcases List.mem_cons.mp hi with rfl | hi
    · dsimp only
      omega
    · exact Nat.lt_of_lt_of_le (slot_lt_of_incomingParams hv.params hi) hreceived

end Layout

/-! ## Acceptance -/

namespace Method

open Traversal

/-- A verified method that is visited to its end is laid out. -/
theorem Verified.exists_body {test : EdgeTest} {t : Traversal State} (hv : m.Verified) (h : complete test m = .ok t) (keepLines : Bool) :
    ∃ b, Layout.body m keepLines t.state = .ok b := by
  obtain ⟨hx, -⟩ := complete_spec h (Guide.verified_begins hv)
  cases hb : Layout.body m keepLines t.state with
  | ok b => exact ⟨b, rfl⟩
  | error f =>
    have hslots : ∀ i ∈ Layout.incoming m, i.slot < t.state.registers.maxLocals := fun i hi =>
      hx.sound.1.symm ▸ Layout.slot_lt_of_incoming hv hi
    obtain ⟨p, hp⟩ := Layout.exists_declareIncoming hslots
    rw [Layout.declareIncoming_of_body hx.coherent hx.settled hx.fit hv.lookup hb] at hp
    cases hp

/-- Where stacks are told apart by what was sent alone, every verified method is lowered. -/
theorem Verified.exists_lowerBy (hv : m.Verified) (keepLines : Bool) : ∃ b, m.lowerBy .historyOnly keepLines = .ok b := by
  cases hc : complete (S := State) .historyOnly m with
  | error f =>
    obtain ⟨htest, -⟩ := refused_of_complete hv hc
    cases htest
  | ok t =>
    obtain ⟨b, hb⟩ := hv.exists_body hc keepLines
    exact ⟨b, by rw [lowerBy, hc]; exact hb⟩

/-- Adds five to five or to seven, as a local slot says. On one way to the join the upper number is a copy, on the other a constant, so
that a wide value comes there in two forms. -/
def choice : Method :=
  { className := "Sample", name := "run", signature := { params := [.int], ret := .long }, isStatic := true, maxLocals := 1, maxStack := 4,
    code := [.const (.long 5), .shuffle .dup .two, .load .int 0, .branch .int .one .eq ⟨1⟩, .shuffle .pop .two, .const (.long 7),
      .label ⟨1⟩, .arithmetic .long .add, .return .long]
    exceptions := [], localNames := [] }

/-- The widths before each operation of the choice. -/
theorem verifies_choice : choice.verifies
    [[], [true], [true, true], [false, true, true], [true, true], [true], [true, true], [true, true], [true]] := by
  decide

/-- Where no cycle can be reached, a verified method is lowered. -/
theorem lower_of_verified (m : Method) (keepLines : Bool) (hv : m.Verified) (ha : m.Acyclic) : ∃ b, m.lower keepLines = .ok b := by
  obtain ⟨b, hb⟩ := hv.exists_lowerBy keepLines
  refine ⟨b, ?_⟩
  rw [lowerBy] at hb
  rw [lower, lowerBy, complete_congr ha.undisturbed, hb]
  rfl

theorem lower_choice : choice.Verified ∧ choice.Acyclic ∧ ∃ b, choice.lower false = .ok b := by
  have hv : choice.Verified := verified_of_verifies verifies_choice
  have ha : choice.Acyclic := acyclic_of_goesForward (by decide)
  exact ⟨hv, ha, lower_of_verified choice false hv ha⟩

/-! ## The two tests -/

/-- As long as no stack finds another one waiting on an edge, and so wherever no cycle can be reached, a method is lowered in the same way
whether or not waiting stacks are looked at first. The test by what was sent accepts every verified method, around loops as well; to look
at waiting stacks first rejects some of them, but for nothing else than stacks that meet on an edge. -/
theorem edge_tests_agree (m : Method) (keepLines : Bool) :
    (m.Undisturbed → m.lowerBy .pendingFirst keepLines = m.lowerBy .historyOnly keepLines) ∧
      (m.Acyclic → m.lowerBy .pendingFirst keepLines = m.lowerBy .historyOnly keepLines) ∧
      (m.Verified → (∃ b, m.lowerBy .historyOnly keepLines = .ok b) ∧
        ∀ f, m.lowerBy .pendingFirst keepLines = .error f → ∃ insn, f = .inconsistentMerge insn) := by
  have agree : m.Undisturbed → m.lowerBy .pendingFirst keepLines = m.lowerBy .historyOnly keepLines := by
    intro hm
    rw [lowerBy, lowerBy, complete_congr hm]
  refine ⟨agree, fun ha => agree ha.undisturbed, fun hv => ⟨hv.exists_lowerBy keepLines, fun f hf => ?_⟩⟩
  rw [lowerBy, bind_eq_error] at hf
  rcases hf with hf | ⟨t, ht, hf⟩
  · exact (refused_of_complete hv hf).2
  · obtain ⟨b, hb⟩ := hv.exists_body ht keepLines
    rw [hb] at hf
    cases hf

theorem edge_tests_agree_choice : choice.Undisturbed ∧ choice.Acyclic ∧ choice.Verified ∧
    choice.lowerBy .pendingFirst false = choice.lowerBy .historyOnly false ∧ ∃ b, choice.lowerBy .historyOnly false = .ok b := by
  have hv : choice.Verified := verified_of_verifies verifies_choice
  have ha : choice.Acyclic := acyclic_of_goesForward (by decide)
  obtain ⟨hagree, -, haccepts⟩ := edge_tests_agree choice false
  exact ⟨ha.undisturbed, ha, hv, hagree ha.undisturbed, (haccepts hv).1⟩

/-- A loop that comes back to its branch with another value before the way out of it was followed. -/
def turnBack : Method :=
  { className := "Sample", name := "run", signature := { params := [], ret := .void }, isStatic := true, maxLocals := 4, maxStack := 8,
    code := [.const (.int 1), .label ⟨1⟩, .load .int 0, .branch .int .one .eq ⟨2⟩, .store .int 1, .return .void, .label ⟨2⟩,
      .shuffle .pop .one, .const (.int 2), .jump ⟨1⟩]
    exceptions := [], localNames := [] }

/-- A loop that comes back to its branch with other words, which stand for the same but do not make up a wide value. -/
def splitCopy : Method :=
  { className := "Sample", name := "run", signature := { params := [], ret := .void }, isStatic := true, maxLocals := 4, maxStack := 8,
    code := [.const (.int 1), .shuffle .dup .one, .label ⟨1⟩, .load .int 0, .branch .int .one .eq ⟨2⟩, .store .long 1, .return .void,
      .label ⟨2⟩, .shuffle .pop .two, .const (.int 1), .const (.int 1), .jump ⟨1⟩]
    exceptions := [], localNames := [] }

/-- Around loops either test may accept what the other one rejects, and to look at waiting stacks first may reject a verified method. -/
theorem edge_tests_differ :
    turnBack.Verified ∧ turnBack.lowerBy .pendingFirst false = .error (.inconsistentMerge 4) ∧
      (∃ b, turnBack.lowerBy .historyOnly false = .ok b) ∧
      (∃ b, splitCopy.lowerBy .pendingFirst false = .ok b) ∧ splitCopy.lowerBy .historyOnly false = .error (.malformedWidePair 5) := by
  have hv : turnBack.verifies [[], [false], [false], [false, false], [false], [], [false], [false], [], [false]] := by decide
  exact ⟨verified_of_verifies hv, by decide +kernel, exists_ok_of_isOk (by decide +kernel), exists_ok_of_isOk (by decide +kernel),
    by decide +kernel⟩

end Method
end ThreeAddress
