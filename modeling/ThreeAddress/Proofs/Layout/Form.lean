import ThreeAddress.Proofs.Lowering.Demands
import ThreeAddress.Proofs.Semantics.Deeds

/-!
# Three-address form

The statements of a body are in three-address form: whatever must be a register is one, in an assignment one side at most is more than a
register or a constant, and what the method receives is bound in front of everything else. Which operands stand for registers is settled by
the demands of their operations, before a statement is finished and whatever is joined with them afterwards.
-/

namespace ThreeAddress

open State

/-! ## Statements in form -/

/-- The value is a register. -/
def Immediate.isRegister : Immediate → Bool
  | .register _ => true
  | .constant _ => false

/-- The value is a constant, or a register that belongs to no local slot. -/
def Immediate.isOwn (slotOf : RegisterId → Option Nat) : Immediate → Bool
  | .register r => (slotOf r).isNone
  | .constant _ => true

/-- The statement is in three-address form. It assigns a value that does not come from outside to a register, or a register or a constant to
a field or an array element. Registers are the bases of all instance fields and of array elements that are written, and the receivers of
calls. What is thrown or locked is a constant or in a register that belongs to no local slot. -/
def Stmt.isInForm (slotOf : RegisterId → Option Nat) : Stmt → Bool
  | .assign (.immediate (.register _)) rhs => !rhs.isReceived && rhs.bases.all Immediate.isRegister
  | .assign (.ref place) (.immediate _) => !place.isReceived && place.bases.all Immediate.isRegister
  | .assign _ _ => false
  | .identity _ source => source.isReceived
  | .invoke call => call.receivers.all Immediate.isRegister
  | .throw v | .enterMonitor v | .exitMonitor v => v.isOwn slotOf
  | _ => true

/-! ## Replaced operands -/

section
variable {α β ε : Type} {f : α → Except ε β} {b : β}

theorem Ref.isReceived_of_mapM {place : Ref α} {place' : Ref β} (h : place.mapM f = .ok place') : place'.isReceived = place.isReceived := by
  cases place with
  | array base index =>
    simp only [mapM, bind_eq_ok, pure_eq_ok] at h
    obtain ⟨_, -, _, -, rfl⟩ := h
    rfl
  | instanceField base field =>
    simp only [mapM, bind_eq_ok, pure_eq_ok] at h
    obtain ⟨_, -, rfl⟩ := h
    rfl
  | _ =>
    cases h
    rfl

theorem Ref.exists_base_of_mapM {place : Ref α} {place' : Ref β} (h : place.mapM f = .ok place') (hb : b ∈ place'.bases) :
    ∃ o ∈ place.bases, f o = .ok b := by
  cases place with
  | array base index =>
    simp only [mapM, bind_eq_ok, pure_eq_ok] at h
    obtain ⟨_, hbase, _, -, rfl⟩ := h
    rw [List.mem_singleton.mp hb]
    exact ⟨base, List.mem_singleton_self base, hbase⟩
  | instanceField base field =>
    simp only [mapM, bind_eq_ok, pure_eq_ok] at h
    obtain ⟨_, hbase, rfl⟩ := h
    rw [List.mem_singleton.mp hb]
    exact ⟨base, List.mem_singleton_self base, hbase⟩
  | _ =>
    cases h
    cases hb

theorem Ref.exists_fieldBase_of_mapM {place : Ref α} {place' : Ref β} (h : place.mapM f = .ok place') (hb : b ∈ place'.fieldBases) :
    ∃ o ∈ place.fieldBases, f o = .ok b := by
  cases place with
  | array base index =>
    simp only [mapM, bind_eq_ok, pure_eq_ok] at h
    obtain ⟨_, -, _, -, rfl⟩ := h
    cases hb
  | instanceField base field =>
    simp only [mapM, bind_eq_ok, pure_eq_ok] at h
    obtain ⟨_, hbase, rfl⟩ := h
    rw [List.mem_singleton.mp hb]
    exact ⟨base, List.mem_singleton_self base, hbase⟩
  | _ =>
    cases h
    cases hb

theorem Invoke.exists_receiver_of_mapM {call : Invoke α} {call' : Invoke β} (h : call.mapM f = .ok call') (hb : b ∈ call'.receivers) :
    ∃ o ∈ call.receivers, f o = .ok b := by
  cases call with
  | «instance» kind base method args =>
    simp only [mapM, bind_eq_ok, pure_eq_ok] at h
    obtain ⟨_, -, _, hbase, rfl⟩ := h
    rw [List.mem_singleton.mp hb]
    exact ⟨base, List.mem_singleton_self base, hbase⟩
  | static | dynamic =>
    simp only [mapM, bind_eq_ok, pure_eq_ok] at h
    obtain ⟨_, -, rfl⟩ := h
    cases hb

end

/-! ## Statements that will be in form -/

namespace State

variable {m : Method} {s : State} {i : Nat} {d : Draft} {o : OperandId}

/-- What a statement needs of its operands to be in form once it is finished. -/
def Forms (s : State) : Draft → Prop
  | .define o => s.Computes (s.operand o).value
  | .copy _ o => s.Computes (s.content o)
  | .write place o =>
    place.isReceived = false ∧ (∀ q ∈ place.bases, ∃ r, s.content q = .register r) ∧ (s.content o).isImmediate
  | .invoke call => ∀ q ∈ call.receivers, ∃ r, s.content q = .register r
  | .throw o | .enterMonitor o | .exitMonitor o =>
    (∃ c, s.content o = .immediate (.constant c)) ∨ ∃ r, (s.operand o).register = some r
  | _ => True

/-- Every statement of a state whose demands are met will be in form. -/
theorem Coherent.forms (hc : s.Coherent m) (hs : s.Settled) (hm : s.Meeting m) (hi : i < m.code.length) (hd : d ∈ s.unit i) : s.Forms d := by
  obtain ⟨k, hw⟩ := hc.exists_drafted hi hd
  cases hw with
  | result built _ value => exact hm.computes built value
  | @statement op xs e d built draft =>
    have demanded := hs i d hd
    have hreceived := Operation.isReceived_of_effect built.effect
    obtain ⟨hbases, howned⟩ := hm.of_built built
    cases e with
    | store k v =>
      simp only [Effect.draft?, Option.map_eq_some_iff] at draft
      obtain ⟨r, -, rfl⟩ := draft
      exact hc.computes_content hm (hc.known_of_built built (List.mem_singleton_self v))
    | increment k amount =>
      simp only [Effect.draft?, Option.map_eq_some_iff] at draft
      obtain ⟨r, -, rfl⟩ := draft
      exact trivial
    | write place v =>
      cases draft
      exact ⟨hreceived, hbases, (demanded v (List.mem_append_right _ (List.mem_singleton_self v))).2⟩
    | call c =>
      cases draft
      exact hbases
    | throw v | enter v | exit v =>
      cases draft
      exact howned v (List.mem_singleton_self v)
    | constant | load | operator | read => cases draft
    | _ =>
      cases draft
      exact trivial
  | copy known => exact hc.computes_content hm known
  | caught | nop => exact trivial

end State

/-! ## Finished statements -/

namespace Layout.Plan

variable {p : Plan} {b : Body} {keepLines : Bool} {i q : Nat} {d : Draft} {stmt : Stmt} {o : OperandId} {x : Immediate}
  {slotOf : RegisterId → Option Nat}

/-- An operand that stands for a register is finished as one. -/
theorem isRegister_of_immediate (h : p.immediate i o = .ok x) (ho : ∃ r, p.state.content o = .register r) : x.isRegister := by
  obtain ⟨r, hr⟩ := ho
  rw [content_of_immediate h] at hr
  cases hr
  rfl

/-- A finished value comes from outside no more than before, and its bases are registers. -/
theorem computed_of_value {v : Rvalue OperandId} {w : Value} (h : p.value i v = .ok w) (hv : p.state.Computes v) :
    w.isReceived = false ∧ w.bases.all Immediate.isRegister := by
  rw [List.all_eq_true]
  have bases : ∀ {x : Immediate}, (∃ o ∈ v.bases, p.immediate i o = .ok x) → x.isRegister := fun ⟨o, ho, hx⟩ =>
    isRegister_of_immediate hx (hv.bases o ho)
  cases v with
  | immediate x =>
    cases h
    exact ⟨rfl, fun _ hx => by cases hx⟩
  | ref place =>
    simp only [value, Rvalue.mapM, bind_eq_ok, pure_eq_ok] at h
    obtain ⟨place', hplace, rfl⟩ := h
    exact ⟨(Ref.isReceived_of_mapM hplace).trans hv.isReceived, fun x hx => bases (Ref.exists_fieldBase_of_mapM hplace hx)⟩
  | expr e =>
    simp only [value, Rvalue.mapM, bind_eq_ok, pure_eq_ok] at h
    obtain ⟨e', he, rfl⟩ := h
    refine ⟨rfl, fun x hx => bases ?_⟩
    unfold Rvalue.bases at hx
    split at hx
    · rename_i place hplace
      cases hplace
    · rename_i call' hcall
      cases hcall
      -- Only a call is finished as a call.
      cases e <;> simp only [Expr.mapM, bind_eq_ok, pure_eq_ok] at he
      case invoke =>
        obtain ⟨_, hcall, heq⟩ := he
        cases heq
        exact Invoke.exists_receiver_of_mapM hcall hx
      case binary =>
        obtain ⟨_, -, _, -, heq⟩ := he
        cases heq
      case new => cases he
      all_goals
        obtain ⟨_, -, heq⟩ := he
        cases heq
    · cases hx

/-- A register or a constant is finished as one. -/
theorem isImmediate_of_value {v : Rvalue OperandId} {w : Value} (h : p.value i v = .ok w) (hv : v.isImmediate) : ∃ x, w = .immediate x := by
  cases v with
  | immediate x =>
    cases h
    exact ⟨x, rfl⟩
  | _ => cases hv

/-- A statement whose operands are what it needs is finished in form. -/
theorem isInForm_of_finish (h : p.finish i d = .ok stmt) (hd : p.state.Forms d)
    (own : ∀ o r, (p.state.operand o).register = some r → slotOf r = none) : stmt.isInForm slotOf := by
  have assigned : ∀ {r : RegisterId} {v : Rvalue OperandId} {w : Value}, p.value i v = .ok w → p.state.Computes v →
      (Stmt.assign (.register r) w).isInForm slotOf := by
    intro r v w hw hv
    obtain ⟨hreceived, hbases⟩ := computed_of_value hw hv
    simp [Stmt.isInForm, Rvalue.register, hreceived, hbases]
  have consumed : ∀ {o : OperandId} {x : Immediate}, p.immediate i o = .ok x →
      (∃ c, p.state.content o = .immediate (.constant c)) ∨ (∃ r, (p.state.operand o).register = some r) → x.isOwn slotOf := by
    rintro o x hx (⟨c, hc⟩ | ⟨r, hr⟩)
    · rw [content_of_immediate hx] at hc
      cases hc
      rfl
    · have hcontent := content_of_immediate hx
      rw [content_of_register hr] at hcontent
      cases hcontent
      exact Option.isNone_iff_eq_none.mpr (own o r hr)
  cases d with
  | nop | returnVoid | increment =>
    cases h
    rfl
  | goto | caught | «return» =>
    simp only [finish, bind_eq_ok, pure_eq_ok] at h
    obtain ⟨_, -, rfl⟩ := h
    rfl
  | branch | «switch» =>
    simp only [finish, bind_eq_ok, pure_eq_ok] at h
    obtain ⟨_, -, _, -, _, -, rfl⟩ := h
    rfl
  | define o =>
    simp only [finish, bind_eq_ok, pure_eq_ok] at h
    obtain ⟨_, -, w, hw, rfl⟩ := h
    exact assigned hw hd
  | copy r o =>
    simp only [finish, bind_eq_ok, pure_eq_ok] at h
    obtain ⟨w, hw, rfl⟩ := h
    exact assigned hw hd
  | write place o =>
    obtain ⟨hreceived, hbases, himmediate⟩ := hd
    simp only [finish, bind_eq_ok, pure_eq_ok] at h
    obtain ⟨place', hplace, w, hw, rfl⟩ := h
    obtain ⟨x, rfl⟩ := isImmediate_of_value hw himmediate
    rw [Stmt.isInForm, Ref.isReceived_of_mapM hplace, hreceived, Bool.not_false, Bool.true_and, List.all_eq_true]
    intro y hy
    obtain ⟨q, hq, hy⟩ := Ref.exists_base_of_mapM hplace hy
    exact isRegister_of_immediate hy (hbases q hq)
  | invoke call =>
    simp only [finish, bind_eq_ok, pure_eq_ok] at h
    obtain ⟨call', hcall, rfl⟩ := h
    refine List.all_eq_true.mpr fun x hx => ?_
    obtain ⟨q, hq, hx⟩ := Invoke.exists_receiver_of_mapM hcall hx
    exact isRegister_of_immediate hx (hd q hq)
  | throw o | enterMonitor o | exitMonitor o =>
    simp only [finish, bind_eq_ok, pure_eq_ok] at h
    obtain ⟨x, hx, rfl⟩ := h
    exact consumed hx hd

/-- Every statement behind the identities is in form. -/
theorem Lays.isInForm (h : p.Lays keepLines b) (hc : p.state.Coherent p.method) (hs : p.state.Settled) (hm : p.state.Meeting p.method)
    (own : ∀ o r, (p.state.operand o).register = some r → slotOf r = none) {located : Located} (hq : b.stmts[q]? = some located)
    (hid : p.identities ≤ q) : located.stmt.isInForm slotOf := by
  cases h.origin hq with
  | identity before => exact absurd before (Nat.not_lt.mpr hid)
  | @unit j k d here position finish =>
    have hj : j < p.method.code.length := h.units ▸ lt_of_unit_ne_nil (List.ne_nil_of_mem (List.mem_of_getElem? here))
    exact isInForm_of_finish finish (hc.forms hs hm hj (List.mem_of_getElem? here)) own
  | caught here position finish | goes here position finish => exact isInForm_of_finish finish trivial own
  | «end» needed position nothing =>
    rw [nothing]
    rfl

/-- A statement behind the identities binds nothing but caught exceptions. -/
theorem Lays.source_eq_caughtException (h : p.Lays keepLines b) {located : Located} (hq : b.stmts[q]? = some located)
    (hid : p.identities ≤ q) {r : RegisterId} {source : Ref Immediate} (hl : located.stmt = .identity r source) :
    source = .caughtException := by
  obtain ⟨n, x, -, -, hfinish⟩ := h.exists_placed hq hid
  obtain ⟨o, -, hsource⟩ := caught_of_finish (hl ▸ hfinish)
  exact hsource

end Layout.Plan

/-! ## Bodies in form -/

/-- Nothing was visited, so that no operand was asked for. -/
theorem State.Blank.meeting {m : Method} {s : State} (h : s.Blank m) : s.Meeting m := by
  intro i op row _ hrow
  rw [h.frame] at hrow
  cases hrow

/-- A visit makes its operands meet the demands of the operation. -/
def Guide.meeting (m : Method) : Guide m true where
  sound s := s.Meeting m
  admits _ _ _ := True
  withStack _ h := h
  mono _ _ _ _ _ := trivial
  alike _ _ _ _ h := by cases h
  visit hc hk hm _ here hop hch _ _ := ⟨hm.visit hc here hk hop hch, fun _ _ => trivial⟩

theorem Guide.meeting_begins (m : Method) : (Guide.meeting m).Begins :=
  ⟨fun _ hs => hs.meeting, fun _ _ _ _ _ => trivial⟩

/-- All statements of a body are in form. The first of them, as many as there are things that the method receives, bind these, and no others
do. -/
structure Body.InForm (m : Method) (b : Body) : Prop where
  stmts : ∀ located ∈ b.stmts, located.stmt.isInForm m.slotOf?
  identities : ∀ q located, b.stmts[q]? = some located →
    (q < (Layout.incoming m).length ↔ ∃ r source, located.stmt = .identity r source ∧ source ≠ .caughtException)

/-- The body of every method that is lowered is in three-address form. -/
theorem Method.inForm_of_lower {m : Method} {keepLines : Bool} {b : Body} (h : m.lower keepLines = .ok b) : b.InForm m := by
  obtain ⟨p, t, hp, rfl, ht, hstate, hlays⟩ := lays_of_lower h
  obtain ⟨identities, rs, rest, hincoming, hlength, -⟩ := identities_of_lower h hp
  obtain ⟨hx, -⟩ := Traversal.complete_spec ht (Guide.meeting_begins p.method)
  have hc : p.state.Coherent p.method := hstate ▸ hx.coherent
  obtain ⟨apart, grows⟩ := Registers.Apart.declareIncoming ⟨hc.slot_lt, hc.slot_inj⟩ hincoming
  have own : ∀ o r, (p.state.operand o).register = some r → p.method.slotOf? r = none := fun o r hr => by
    rw [slotOf?, finalRegisters_of_layout hp hincoming]
    exact apart.slotOf?_of_synthesized grows (hc.register o r hr)
  have hreceived : p.identities = (Layout.incoming p.method).length :=
    hlength.symm.trans (Layout.identities_of_declareIncoming hincoming).length_eq.symm
  refine ⟨fun located hl => ?_, fun q located hq => ?_⟩
  · obtain ⟨q, hq⟩ := List.getElem?_of_mem hl
    by_cases hid : q < p.identities
    · obtain ⟨i, hi, r, heq⟩ := identity_of_lower h hp hq hid
      rw [heq]
      rcases Layout.source_of_mem_incoming hi with ⟨t, hsource⟩ | ⟨k, t, hsource⟩ <;> rw [hsource] <;> rfl
    · exact hlays.isInForm hc (hstate ▸ hx.settled) (hstate ▸ hx.sound) own hq (Nat.le_of_not_lt hid)
  · rw [← hreceived]
    constructor
    · intro hid
      obtain ⟨i, hi, r, heq⟩ := identity_of_lower h hp hq hid
      exact ⟨r, i.source, heq, Layout.source_ne_caughtException hi⟩
    · rintro ⟨r, source, heq, hne⟩
      by_contra hid
      exact hne (hlays.source_eq_caughtException hq (Nat.le_of_not_lt hid) heq)

/-- A method that locks its receiver, writes a field of nothing, calls its argument and throws that. -/
def Method.throwingArgument : Method :=
  { className := "Sample", name := "run", signature := { params := [.object "Sample"], ret := .void }, isStatic := false, maxLocals := 2,
    maxStack := 2,
    code := [.load .object 0, .monitorEnter, .const .null, .load .object 1, .putField ⟨"Sample", "f", .object "Sample"⟩, .load .object 1,
      .invoke .virtual ⟨"Sample", "g", ⟨[], .void⟩⟩, .load .object 1, .throw]
    exceptions := [], localNames := [] }

theorem Method.inForm_throwingArgument : ∃ b, throwingArgument.lower false = .ok b ∧ b.InForm throwingArgument := by
  obtain ⟨b, hb⟩ : ∃ b, throwingArgument.lower false = .ok b := exists_ok_of_isOk (by decide +kernel)
  exact ⟨b, hb, inForm_of_lower hb⟩

end ThreeAddress
