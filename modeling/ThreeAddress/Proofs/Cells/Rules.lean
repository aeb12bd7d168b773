import ThreeAddress.Proofs.Cells.Joins

/-!
# Rules with cells

Lowering an operation with cells agrees with lowering it without. What differs from rule to rule is in which order the operands are
substituted, and in which order they are recorded together with their cells.
-/

namespace ThreeAddress

/-- The instruction is not a label. -/
structure Method.Unlabelled (m : Method) (i : Nat) : Prop where
  lt : i < m.code.length
  not_label : ∀ l, m.code[i]? ≠ some (.label l)

variable {α : Type} {m : Method} {L : Ledger} {a : CellState} {s : State} {i : Nat} {o p : OperandId} {r : RegisterId}
  {row : List OperandId} {j k : CellId} {ks : List CellId}

theorem Method.unlabelled_of_here {op : Operation} (here : m.code[i]? = some op) (hop : ∀ l, op ≠ .label l) : m.Unlabelled i :=
  ⟨(List.getElem?_eq_some_iff.mp here).1, fun l hl => hop l (Option.some.inj (here.symm.trans hl))⟩

/-- No handler has an entry where no label is. -/
theorem CellState.Tracks.handlerEntry?_of_unlabelled (h : a.Tracks m L s) (plain : m.Unlabelled i) : s.handlerEntry? i = none :=
  Option.eq_none_iff_forall_ne_some.mpr fun e he => (h.entryLabel i e he).elim plain.not_label

/-! ## Reading what rules build -/

namespace Ledger

theorem reads_binary (op : BinaryOp) (lhs : L.read? j = some o) (rhs : L.read? k = some p) :
    L.Reads (.expr (.binary op j k)) (.expr (.binary op o p)) :=
  congrArg₂ (fun x y => Rvalue.expr (.binary op x y)) lhs rhs

theorem reads_array (base : L.read? j = some o) (index : L.read? k = some p) : L.Reads (.ref (.array j k)) (.ref (.array o p)) :=
  congrArg₂ (fun x y => Rvalue.ref (.array x y)) base index

theorem reads_instanceField (base : L.read? k = some o) (field : FieldRef) :
    L.Reads (.ref (.instanceField k field)) (.ref (.instanceField o field)) :=
  congrArg (fun x => Rvalue.ref (.instanceField x field)) base

theorem reads_newMultiArray (type : ValueType) (sizes : L.ReadsAll ks row) :
    L.Reads (.expr (.newMultiArray type ks)) (.expr (.newMultiArray type row)) :=
  congrArg (fun xs => Rvalue.expr (.newMultiArray type xs)) (readsAll_iff.mp sizes)

theorem reads_static (method : MethodRef) (args : L.ReadsAll ks row) :
    L.Reads (.expr (.invoke (.static method ks))) (.expr (.invoke (.static method row))) :=
  congrArg (fun xs => Rvalue.expr (.invoke (.static method xs))) (readsAll_iff.mp args)

theorem reads_dynamic (site : CallSite) (args : L.ReadsAll ks row) :
    L.Reads (.expr (.invoke (.dynamic site ks))) (.expr (.invoke (.dynamic site row))) :=
  congrArg (fun xs => Rvalue.expr (.invoke (.dynamic site xs))) (readsAll_iff.mp args)

/-- The receiver of a call is the last of its operands. -/
theorem reads_instance (kind : InstanceKind) (method : MethodRef) (all : L.ReadsAll ks (row ++ [o])) :
    L.Reads (.expr (.invoke (Cells.invocation (some kind) method ks))) (.expr (.invoke (.instance kind o method row))) := by
  have hmap := readsAll_iff.mp all
  rcases List.eq_nil_or_concat ks with rfl | ⟨args, base, rfl⟩
  · simp at hmap
  · rw [List.concat_eq_append, List.map_append, List.map_append] at hmap
    rw [List.concat_eq_append]
    obtain ⟨hargs, hbase⟩ := List.append_inj' hmap rfl
    have hcall : Cells.invocation (some kind) method (args ++ [base]) = .instance kind base method args := by
      simp only [Cells.invocation, List.getLast?_concat, List.dropLast_concat]
    rw [hcall]
    exact congrArg₂ (fun x xs => Rvalue.expr (.invoke (.instance kind x method xs))) (List.singleton_inj.mp hbase) hargs

end Ledger

namespace Cells

/-! ## Values and statements -/

section
variable {P : Ledger → α → Prop}

theorem makes_withoutUses {v : α} (h : Books m L a s) (hv : P L v) :
    Makes m L a s (withoutUses v) (Recorded P []) :=
  makes_pure h ⟨hv, .nil⟩

theorem makes_fromUse (h : Books m L a s) (hk : L.Known o) {make : CellId → α} (hmake : ∀ {L k}, L.read? k = some o → P L (make k)) :
    Makes m L a s (fromUse o make) (Recorded P [o]) :=
  makes_bind (makes_use h hk) fun _ _ _ _ h' hread => makes_pure h' ⟨hmake hread, .cons hread .nil⟩

end

/-- The result of an instruction that is no label goes onto the stack. -/
theorem agrees_leave (h : Books m L a s) (plain : m.Unlabelled i) (hrow : ∀ o ∈ row, L.Known o) {make : CellM (Rvalue CellId × List CellId)}
    {v : Rvalue OperandId} (made : Makes m L a s make (Recorded (fun L v' => L.Reads v' v) row)) (wide : Bool) :
    Agrees m L a s (do push (← produce i row make) wide) (do Lowering.push (← Lowering.produce i row v) wide) Anything :=
  agrees_bind (agrees_produce h plain.lt (h.handlerEntry?_of_unlabelled plain) hrow made) fun _ _ _ _ _ h' ho => agrees_push h' ho wide

/-! ## Operators -/

theorem agrees_lowerUnary (h : Books m L a s) (plain : m.Unlabelled i) (wideIn wideOut : Bool) {make : CellId → Expr CellId}
    {make' : OperandId → Expr OperandId} (hmake : ∀ {L k o}, Ledger.read? L k = some o → L.Reads (.expr (make k)) (.expr (make' o))) :
    Agrees m L a s (lowerUnary i wideIn wideOut make) (Lowering.lowerUnary i wideIn wideOut make') Anything := by
  refine agrees_bind (agrees_firstVisit h i) fun first L₁ a₁ s₁ _ h₁ _ => ?_
  refine agrees_bind (agrees_take h₁ i _ _) fun v L₂ a₂ s₂ _ h₂ hv => ?_
  exact agrees_leave h₂ plain (by simpa using hv) (makes_fromUse h₂ hv hmake) wideOut

theorem agrees_lowerBinary (h : Books m L a s) (plain : m.Unlabelled i) (op : BinaryOp) (wideLhs wideRhs wideOut : Bool) :
    Agrees m L a s (lowerBinary i op wideLhs wideRhs wideOut) (Lowering.lowerBinary i op wideLhs wideRhs wideOut) Anything := by
  refine agrees_bind (agrees_firstVisit h i) fun first L₁ a₁ s₁ _ h₁ _ => ?_
  refine agrees_bind (agrees_take h₁ i _ _) fun y L₂ a₂ s₂ _ h₂ hy => ?_
  refine agrees_bind (agrees_take h₂ i _ _) fun x L₃ a₃ s₃ hg₃ h₃ hx => ?_
  refine agrees_leave h₃ plain (by simpa using ⟨hg₃.known hy, hx⟩) ?_ wideOut
  refine makes_bind (makes_use h₃ hx) fun lhs L₄ a₄ hg₄ h₄ hlhs => ?_
  refine makes_bind (makes_use h₄ (hg₄.known (hg₃.known hy))) fun rhs L₅ a₅ hg₅ h₅ hrhs => ?_
  exact makes_pure h₅ ⟨Ledger.reads_binary op (hg₅.read? hlhs) hrhs, .cons hrhs (.cons (hg₅.read? hlhs) .nil)⟩

theorem agrees_lowerArithmetic (h : Books m L a s) (plain : m.Unlabelled i) (kind : Kind) (op : Arithmetic) :
    Agrees m L a s (lowerArithmetic i kind op) (Lowering.lowerArithmetic i kind op) Anything := by
  unfold lowerArithmetic Lowering.lowerArithmetic
  cases BinaryOp.ofArithmetic? op with
  | some b => exact agrees_lowerBinary h plain b _ _ _
  | none => exact agrees_lowerUnary h plain _ _ fun hk => congrArg (fun x => Rvalue.expr (.negate x)) hk

/-! ## Local slots -/

theorem agrees_lowerStore (h : Books m L a s) (plain : m.Unlabelled i) (kind : Kind) (index : Nat) :
    Agrees m L a s (lowerStore i kind index) (Lowering.lowerStore i kind index) Anything := by
  refine agrees_bind (agrees_take h i _ _) fun o L₁ a₁ s₁ _ h₁ ho => ?_
  refine agrees_bind (agrees_slotRegister h₁ index) fun r L₂ a₂ s₂ hg₂ h₂ _ => ?_
  have hk := hg₂.known ho
  refine agrees_bind (agrees_emit (d := .copy r o) h₂ plain.lt (by simpa using hk) ?_) fun _ _ _ _ _ h' _ => agrees_freezeReadersOf h' r
  refine makes_bind (makes_use h₂ hk) fun rhs L₃ a₃ _ h₃ hrhs => ?_
  refine makes_bind (makes_newCell h₃ (.register r)) fun lhs L₄ a₄ hg₄ h₄ hlhs => ?_
  exact makes_pure h₄ ⟨.copy hlhs (hg₄.read? hrhs), .cons (hg₄.read? hrhs) .nil⟩

theorem agrees_lowerIncrement (h : Books m L a s) (plain : m.Unlabelled i) (index : Nat) (amount : Int16) :
    Agrees m L a s (lowerIncrement i index amount) (Lowering.lowerIncrement i index amount) Anything := by
  refine agrees_bind (agrees_slotRegister h index) fun r L₁ a₁ s₁ _ h₁ _ => ?_
  refine agrees_bind (agrees_freezeReadersOf h₁ r) fun _ L₂ a₂ s₂ _ h₂ _ => ?_
  refine agrees_emit h₂ plain.lt (List.forall_mem_nil _) ?_
  refine makes_bind (makes_newCell h₂ (.register r)) fun lhs L₃ a₃ hg₃ h₃ hlhs => ?_
  refine makes_bind (makes_newCell h₃ (.register r)) fun x L₄ a₄ hg₄ h₄ hx => ?_
  refine makes_bind (makes_newCell h₄ _) fun y L₅ a₅ hg₅ h₅ hy => ?_
  refine makes_bind (makes_newCell h₅ _) fun rhs L₆ a₆ hg₆ h₆ hrhs => ?_
  have hlhs₆ := hg₆.owner? (hg₅.owner? (hg₄.owner? hlhs))
  exact makes_pure h₆ ⟨.increment hlhs₆ hrhs (hg₆.owner? (hg₅.owner? hx)) (hg₆.owner? hy), .nil⟩

/-! ## Arrays and fields -/

theorem agrees_lowerArrayLoad (h : Books m L a s) (plain : m.Unlabelled i) (kind : Kind) :
    Agrees m L a s (lowerArrayLoad i kind) (Lowering.lowerArrayLoad i kind) Anything := by
  refine agrees_bind (agrees_firstVisit h i) fun first L₁ a₁ s₁ _ h₁ _ => ?_
  refine agrees_bind (agrees_take h₁ i _ _) fun index L₂ a₂ s₂ _ h₂ hindex => ?_
  refine agrees_bind (agrees_take h₂ i _ _) fun base L₃ a₃ s₃ hg₃ h₃ hbase => ?_
  refine agrees_leave h₃ plain (by simpa using ⟨hg₃.known hindex, hbase⟩) ?_ _
  refine makes_bind (makes_use h₃ hbase) fun x L₄ a₄ hg₄ h₄ hx => ?_
  refine makes_bind (makes_use h₄ (hg₄.known (hg₃.known hindex))) fun y L₅ a₅ hg₅ h₅ hy => ?_
  exact makes_pure h₅ ⟨Ledger.reads_array (hg₅.read? hx) hy, .cons hy (.cons (hg₅.read? hx) .nil)⟩

theorem agrees_lowerArrayStore (h : Books m L a s) (plain : m.Unlabelled i) (kind : Kind) :
    Agrees m L a s (lowerArrayStore i kind) (Lowering.lowerArrayStore i kind) Anything := by
  refine agrees_bind (agrees_firstVisit h i) fun first L₁ a₁ s₁ _ h₁ _ => ?_
  refine agrees_bind (agrees_take h₁ i _ _) fun value L₂ a₂ s₂ _ h₂ hvalue => ?_
  refine agrees_bind (agrees_take h₂ i _ _) fun index L₃ a₃ s₃ hg₃ h₃ hindex => ?_
  refine agrees_bind (agrees_take h₃ i _ _) fun base L₄ a₄ s₄ hg₄ h₄ hbase => ?_
  have hvalue₄ := hg₄.known (hg₃.known hvalue)
  have hindex₄ := hg₄.known hindex
  refine agrees_bind (agrees_emit (d := .write (.array base index) value) h₄ plain.lt (by simpa using ⟨hvalue₄, hindex₄, hbase⟩) ?_)
    fun _ _ _ _ _ h' _ => agrees_freezeAll h'
  refine makes_bind (makes_use h₄ hbase) fun x L₅ a₅ hg₅ h₅ hx => ?_
  refine makes_bind (makes_use h₅ (hg₅.known hindex₄)) fun y L₆ a₆ hg₆ h₆ hy => ?_
  refine makes_bind (makes_use h₆ (hg₆.known (hg₅.known hvalue₄))) fun rhs L₇ a₇ hg₇ h₇ hrhs => ?_
  refine makes_bind (makes_newCell h₇ _) fun lhs L₈ a₈ hg₈ h₈ hlhs => ?_
  have hx₈ := hg₈.read? (hg₇.read? (hg₆.read? hx))
  have hy₈ := hg₈.read? (hg₇.read? hy)
  exact makes_pure h₈ ⟨.write hlhs (Ledger.reads_array hx₈ hy₈) (hg₈.read? hrhs), .cons (hg₈.read? hrhs) (.cons hy₈ (.cons hx₈ .nil))⟩

theorem agrees_lowerNewMultiArray (h : Books m L a s) (plain : m.Unlabelled i) (type : ValueType) (dims : Nat) :
    Agrees m L a s (lowerNewMultiArray i type dims) (Lowering.lowerNewMultiArray i type dims) Anything := by
  refine agrees_bind (agrees_firstVisit h i) fun first L₁ a₁ s₁ _ h₁ _ => ?_
  refine agrees_bind (agrees_mapM (Q := Ledger.Known) (fun _ hg => hg.known) h₁ fun _ _ _ _ _ _ h' => agrees_take h' i _ _)
    fun popped L₂ a₂ s₂ _ h₂ hpopped => ?_
  have hsizes : ∀ o ∈ popped.reverse, L₂.Known o := fun o ho => hpopped o (List.mem_reverse.mp ho)
  refine agrees_leave h₂ plain hsizes ?_ _
  exact makes_bind (makes_uses h₂ hsizes) fun ks L₃ a₃ _ h₃ hks => makes_pure h₃ ⟨Ledger.reads_newMultiArray type hks, hks⟩

theorem agrees_lowerGetField (h : Books m L a s) (plain : m.Unlabelled i) (field : FieldRef) :
    Agrees m L a s (lowerGetField i field) (Lowering.lowerGetField i field) Anything := by
  refine agrees_bind (agrees_firstVisit h i) fun first L₁ a₁ s₁ _ h₁ _ => ?_
  refine agrees_bind (agrees_take h₁ i _ _) fun base L₂ a₂ s₂ _ h₂ hbase => ?_
  exact agrees_leave h₂ plain (by simpa using hbase) (makes_fromUse h₂ hbase fun hk => Ledger.reads_instanceField hk field) _

theorem agrees_lowerPutStatic (h : Books m L a s) (plain : m.Unlabelled i) (field : FieldRef) :
    Agrees m L a s (lowerPutStatic i field) (Lowering.lowerPutStatic i field) Anything := by
  refine agrees_bind (agrees_firstVisit h i) fun first L₁ a₁ s₁ _ h₁ _ => ?_
  refine agrees_bind (agrees_take h₁ i _ _) fun value L₂ a₂ s₂ _ h₂ hvalue => ?_
  refine agrees_bind (agrees_emit (d := .write (.staticField field) value) h₂ plain.lt (by simpa using hvalue) ?_)
    fun _ _ _ _ _ h' _ => agrees_freezeAll h'
  refine makes_bind (makes_use h₂ hvalue) fun rhs L₃ a₃ _ h₃ hrhs => ?_
  refine makes_bind (makes_newCell h₃ _) fun lhs L₄ a₄ hg₄ h₄ hlhs => ?_
  exact makes_pure h₄ ⟨.write hlhs rfl (hg₄.read? hrhs), .cons (hg₄.read? hrhs) .nil⟩

theorem agrees_lowerPutField (h : Books m L a s) (plain : m.Unlabelled i) (field : FieldRef) :
    Agrees m L a s (lowerPutField i field) (Lowering.lowerPutField i field) Anything := by
  refine agrees_bind (agrees_firstVisit h i) fun first L₁ a₁ s₁ _ h₁ _ => ?_
  refine agrees_bind (agrees_take h₁ i _ _) fun value L₂ a₂ s₂ _ h₂ hvalue => ?_
  refine agrees_bind (agrees_take h₂ i _ _) fun base L₃ a₃ s₃ hg₃ h₃ hbase => ?_
  have hvalue₃ := hg₃.known hvalue
  refine agrees_bind (agrees_emit (d := .write (.instanceField base field) value) h₃ plain.lt (by simpa using ⟨hvalue₃, hbase⟩) ?_)
    fun _ _ _ _ _ h' _ => agrees_freezeAll h'
  refine makes_bind (makes_use h₃ hbase) fun x L₄ a₄ hg₄ h₄ hx => ?_
  refine makes_bind (makes_use h₄ (hg₄.known hvalue₃)) fun rhs L₅ a₅ hg₅ h₅ hrhs => ?_
  refine makes_bind (makes_newCell h₅ _) fun lhs L₆ a₆ hg₆ h₆ hlhs => ?_
  have hx₆ := hg₆.read? (hg₅.read? hx)
  exact makes_pure h₆ ⟨.write hlhs (Ledger.reads_instanceField hx₆ field) (hg₆.read? hrhs), .cons (hg₆.read? hrhs) (.cons hx₆ .nil)⟩

/-! ## Calls -/

theorem agrees_takeArgs (h : Books m L a s) (i : Nat) (d : Demand) (params : List ValueType) :
    Agrees m L a s (takeArgs i d params) (Lowering.takeArgs i d params) fun L os => ∀ o ∈ os, L.Known o := by
  refine agrees_bind (agrees_mapM (Q := Ledger.Known) (fun _ hg => hg.known) h fun _ _ _ _ _ _ h' => agrees_take h' i _ _)
    fun popped L₁ a₁ s₁ _ h₁ hpopped => ?_
  exact agrees_pure h₁ fun o ho => hpopped o (List.mem_reverse.mp ho)

section
variable {make : List CellId → Invoke CellId} {call : Invoke OperandId}
  (hmake : ∀ {L ks}, Ledger.ReadsAll L ks row → L.Reads (.expr (.invoke (make ks))) (.expr (.invoke call)))
include hmake

theorem makes_callOf (h : Books m L a s) (hrow : ∀ o ∈ row, L.Known o) :
    Makes m L a s (callOf row make) (Recorded (fun L c => L.Reads (.expr (.invoke c)) (.expr (.invoke call))) row) :=
  makes_bind (makes_uses h hrow) fun _ _ _ _ h' hks => makes_pure h' ⟨hmake hks, hks⟩

theorem agrees_finishCall (h : Books m L a s) (plain : m.Unlabelled i) (hrow : ∀ o ∈ row, L.Known o) (ret : ValueType) :
    Agrees m L a s (finishCall i row make ret) (Lowering.finishCall i row call ret) Anything := by
  have made := makes_callOf hmake h hrow
  refine agrees_ite Iff.rfl (fun _ => ?_) fun _ => ?_
  · refine agrees_bind (agrees_emit (d := .invoke call) h plain.lt hrow ?_) fun _ _ _ _ _ h' _ => agrees_freezeAll h'
    exact makes_bind made fun _ _ _ _ h' ⟨hc, huses⟩ => makes_pure h' ⟨.invoke hc, huses⟩
  · refine agrees_bind (agrees_produce h plain.lt (h.handlerEntry?_of_unlabelled plain) hrow ?_) fun o L₁ a₁ s₁ _ h₁ ho =>
      agrees_bind (agrees_push h₁ ho _) fun _ _ _ _ _ h₂ _ => agrees_freezeAll h₂
    exact makes_bind made fun _ _ _ _ h' ⟨hc, huses⟩ => makes_pure h' ⟨hc, huses⟩

end

theorem agrees_lowerInvoke (h : Books m L a s) (plain : m.Unlabelled i) (kind : InvokeKind) (method : MethodRef) :
    Agrees m L a s (lowerInvoke i kind method) (Lowering.lowerInvoke i kind method) Anything := by
  refine agrees_bind (agrees_firstVisit h i) fun first L₁ a₁ s₁ _ h₁ _ => ?_
  refine agrees_bind (agrees_takeArgs h₁ i _ _) fun args L₂ a₂ s₂ _ h₂ hargs => ?_
  cases Lowering.instanceKind? kind with
  | none => exact agrees_finishCall (Ledger.reads_static method) h₂ plain hargs _
  | some k =>
    refine agrees_bind (agrees_take h₂ i _ _) fun base L₃ a₃ s₃ hg₃ h₃ hbase => ?_
    refine agrees_finishCall (Ledger.reads_instance k method) h₃ plain (fun o ho => ?_) _
    rcases List.mem_append.mp ho with ho | ho
    · exact hg₃.known (hargs o ho)
    · exact List.mem_singleton.mp ho ▸ hbase

theorem agrees_lowerInvokeDynamic (h : Books m L a s) (plain : m.Unlabelled i) (site : CallSite) :
    Agrees m L a s (lowerInvokeDynamic i site) (Lowering.lowerInvokeDynamic i site) Anything := by
  refine agrees_bind (agrees_firstVisit h i) fun first L₁ a₁ s₁ _ h₁ _ => ?_
  refine agrees_bind (agrees_takeArgs h₁ i _ _) fun args L₂ a₂ s₂ _ h₂ hargs => ?_
  exact agrees_finishCall (Ledger.reads_dynamic site) h₂ plain hargs _

/-! ## Control -/

theorem agrees_lowerBranch (h : Books m L a s) (plain : m.Unlabelled i) (kind : Kind) (operands : Count) (way : Comparison)
    (target : Label) :
    Agrees m L a s (lowerBranch i kind operands way target) (Lowering.lowerBranch i kind operands way target) Anything := by
  refine agrees_bind (agrees_firstVisit h i) fun first L₁ a₁ s₁ _ h₁ _ => ?_
  refine agrees_bind (agrees_take h₁ i _ _) fun v L₂ a₂ s₂ _ h₂ hv => ?_
  cases operands with
  | one =>
    refine agrees_emit h₂ plain.lt (by simpa using hv) ?_
    refine makes_bind (makes_use h₂ hv) fun lhs L₃ a₃ _ h₃ hlhs => ?_
    refine makes_bind (makes_newCell h₃ _) fun rhs L₄ a₄ hg₄ h₄ hrhs => ?_
    exact makes_pure h₄ ⟨.branch (hg₄.read? hlhs) hrhs, .cons (hg₄.read? hlhs) .nil⟩
  | two =>
    refine agrees_bind (agrees_take h₂ i _ _) fun w L₃ a₃ s₃ hg₃ h₃ hw => ?_
    refine agrees_emit h₃ plain.lt (by simpa using ⟨hg₃.known hv, hw⟩) ?_
    refine makes_bind (makes_use h₃ hw) fun lhs L₄ a₄ hg₄ h₄ hlhs => ?_
    refine makes_bind (makes_use h₄ (hg₄.known (hg₃.known hv))) fun rhs L₅ a₅ hg₅ h₅ hrhs => ?_
    exact makes_pure h₅ ⟨.branch (hg₅.read? hlhs) hrhs, .cons hrhs (.cons (hg₅.read? hlhs) .nil)⟩

theorem agrees_lowerSwitch (h : Books m L a s) (plain : m.Unlabelled i) (default : Label) (cases : Cases) :
    Agrees m L a s (lowerSwitch i default cases) (Lowering.lowerSwitch i default cases) Anything := by
  refine agrees_bind (agrees_firstVisit h i) fun first L₁ a₁ s₁ _ h₁ _ => ?_
  refine agrees_bind (agrees_take h₁ i _ _) fun key L₂ a₂ s₂ _ h₂ hkey => ?_
  exact agrees_emit h₂ plain.lt (by simpa using hkey) (makes_fromUse h₂ hkey .switch)

theorem agrees_lowerReturn (h : Books m L a s) (plain : m.Unlabelled i) (kind : Kind) :
    Agrees m L a s (lowerReturn i kind) (Lowering.lowerReturn i kind) Anything := by
  refine agrees_ite Iff.rfl (fun _ => ?_) fun _ => ?_
  · exact agrees_emit h plain.lt (List.forall_mem_nil _) (makes_withoutUses h .returnVoid)
  · refine agrees_bind (agrees_firstVisit h i) fun first L₁ a₁ s₁ _ h₁ _ => ?_
    refine agrees_bind (agrees_take h₁ i _ _) fun v L₂ a₂ s₂ _ h₂ hv => ?_
    exact agrees_emit h₂ plain.lt (by simpa using hv) (makes_fromUse h₂ hv .return)

theorem agrees_lowerConsumer (h : Books m L a s) (plain : m.Unlabelled i) {make : CellId → Pending} {make' : OperandId → Draft}
    (hmake : ∀ {L k o}, Ledger.read? L k = some o → (make k).Renders L (make' o)) :
    Agrees m L a s (lowerConsumer i make) (Lowering.lowerConsumer i make') Anything := by
  refine agrees_bind (agrees_firstVisit h i) fun first L₁ a₁ s₁ _ h₁ _ => ?_
  refine agrees_bind (agrees_take h₁ i _ _) fun v L₂ a₂ s₂ _ h₂ hv => ?_
  exact agrees_emit h₂ plain.lt (by simpa using hv) (makes_fromUse h₂ hv hmake)

/-! ## Words -/

theorem agrees_anyWord (h : Books m L a s) (i : Nat) : Agrees m L a s (anyWord i) (Lowering.anyWord i) WordKnown := by
  refine agrees_bind (agrees_peekWord h i) fun w L₁ a₁ s₁ _ h₁ _ => ?_
  cases w with
  | wideHalf => exact agrees_popWord h₁ i
  | operand => exact agrees_bind (agrees_take h₁ i _ _) fun _ _ _ _ _ h₂ ho => agrees_pure h₂ (wordKnown_operand.mpr ho)

theorem agrees_secondWord (h : Books m L a s) (hk : L.Known o) (i : Nat) :
    Agrees m L a s (secondWord i o) (Lowering.secondWord i o) WordKnown := by
  refine agrees_bind (agrees_peekWord h i) fun w L₁ a₁ s₁ hg₁ h₁ _ => ?_
  cases w with
  | wideHalf =>
    refine agrees_bind (agrees_popWord h₁ i) fun _ L₂ a₂ s₂ hg₂ h₂ _ => ?_
    exact agrees_pure h₂ (wordKnown_operand.mpr (hg₂.known (hg₁.known hk)))
  | operand => exact agrees_bind (agrees_take h₁ i _ _) fun _ _ _ _ _ h₂ ho => agrees_pure h₂ (wordKnown_operand.mpr ho)

theorem agrees_lowerShuffle (h : Books m L a s) (i : Nat) (how : Shuffle) (count : Count) :
    Agrees m L a s (lowerShuffle i how count) (Lowering.lowerShuffle i how count) Anything := by
  -- Every stack instruction takes an operand first.
  have one : ∀ {L a s} {f : OperandId → CellM Unit} {g : OperandId → LowerM Unit}, Books m L a s →
      (∀ o L' a' s', L.Grows L' → Books m L' a' s' → L'.Known o → Agrees m L' a' s' (f o) (g o) Anything) →
      Agrees m L a s (take i .immediate false >>= f) (Lowering.take i .immediate false >>= g) Anything := fun h hf =>
    agrees_bind (agrees_take h i _ _) hf
  cases how with
  | pop =>
    cases count with
    | one => exact one h fun _ _ _ _ _ h₁ _ => agrees_pure h₁ trivial
    | two => exact one h fun _ _ _ _ _ h₁ _ => agrees_bind (agrees_anyWord h₁ i) fun _ _ _ _ _ h₂ _ => agrees_pure h₂ trivial
  | dup =>
    cases count with
    | one =>
      refine one h fun o L₁ a₁ s₁ _ h₁ ho => agrees_pushWords h₁ ?_
      simp [wordKnown_operand, ho]
    | two =>
      refine one h fun o L₁ a₁ s₁ _ h₁ ho => agrees_bind (agrees_secondWord h₁ ho i) fun w L₂ a₂ s₂ hg h₂ hw => agrees_pushWords h₂ ?_
      simp [wordKnown_operand, hg.known ho, hw]
  | dupX1 =>
    cases count with
    | one =>
      refine one h fun o L₁ a₁ s₁ _ h₁ ho => one h₁ fun p L₂ a₂ s₂ hg h₂ hp => agrees_pushWords h₂ ?_
      simp [wordKnown_operand, hg.known ho, hp]
    | two =>
      refine one h fun o L₁ a₁ s₁ _ h₁ ho => agrees_bind (agrees_secondWord h₁ ho i) fun w L₂ a₂ s₂ hg₂ h₂ hw => ?_
      refine one h₂ fun p L₃ a₃ s₃ hg₃ h₃ hp => agrees_pushWords h₃ ?_
      simp [wordKnown_operand, hg₃.known (hg₂.known ho), hw.mono hg₃, hp]
  | dupX2 =>
    cases count with
    | one =>
      refine one h fun o L₁ a₁ s₁ _ h₁ ho => one h₁ fun p L₂ a₂ s₂ hg₂ h₂ hp => ?_
      refine agrees_bind (agrees_anyWord h₂ i) fun w L₃ a₃ s₃ hg₃ h₃ hw => agrees_pushWords h₃ ?_
      simp [wordKnown_operand, hg₃.known (hg₂.known ho), hg₃.known hp, hw]
    | two =>
      refine one h fun o L₁ a₁ s₁ _ h₁ ho => agrees_bind (agrees_secondWord h₁ ho i) fun w L₂ a₂ s₂ hg₂ h₂ hw => ?_
      refine one h₂ fun p L₃ a₃ s₃ hg₃ h₃ hp => agrees_bind (agrees_anyWord h₃ i) fun w' L₄ a₄ s₄ hg₄ h₄ hw' => agrees_pushWords h₄ ?_
      have hg := hg₃.trans hg₄
      simp [wordKnown_operand, hg.known (hg₂.known ho), hw.mono hg, hg₄.known hp, hw']
  | swap =>
    refine one h fun o L₁ a₁ s₁ _ h₁ ho => one h₁ fun p L₂ a₂ s₂ hg h₂ hp => agrees_pushWords h₂ ?_
    simp [wordKnown_operand, hg.known ho, hp]

/-! ## Labels -/

/-- A label binds the exception that is caught and pushes it, unless it has a statement already. -/
theorem agrees_catch (h : Books m L a s) (hi : i < m.code.length) (entry : s.handlerEntry? i = none) (r : RegisterId) :
    Agrees m L a s
      (do
        let o ← newOperand i (.ref .caughtException) (some r)
        modifyFrame i fun f => { f with out := some o }
        let k ← newCell (.register r)
        setUnit i (.identity k .caughtException)
        push o false)
      (do
        let o ← Lowering.newOperand i (.ref .caughtException) (some r)
        Lowering.modifyFrame i fun f => { f with out := some o }
        Lowering.setUnit i (.caught o)
        Lowering.push o false) Anything := by
  have hnext := h.toTracks.nextOperand
  let a' := ((a.withOperand ⟨i, .ref .caughtException, some r, []⟩).modifyFrame i fun f => { f with out := some ⟨a.operands.size⟩ }).addCell
    (.register r)
  let s' := (s.withOperand ⟨i, .ref .caughtException, some r⟩).modifyFrame i fun f => { f with out := some s.nextOperand }
  -- The books are kept by all of it together: until the statement is there, nothing defines the register.
  change Accord _ ((setUnit i (.identity a.nextCell .caughtException)).run a' >>= fun p => (push ⟨a.operands.size⟩ false).run p.2)
    ((Lowering.setUnit i (.caught s.nextOperand)).run s' >>= fun p => (Lowering.push s.nextOperand false).run p.2)
  rw [run_setUnit, run_setUnit_plain]
  have left : a'.unit i = a.unit i := rfl
  have right : s'.unit i = s.unit i := rfl
  rw [left, right]
  by_cases hu : s.unit i = []
  · rw [if_pos hu, if_pos (h.unit_eq_nil.mpr hu), ← hnext]
    have hknown : (L.addOperand.add (.definition s.nextOperand)).Known s.nextOperand := hnext ▸ Nat.lt_succ_of_le (Nat.le_of_eq h.sizes.1)
    refine Accord.mono (agrees_push (h.caught hi entry hu r) hknown false) fun _ _ ⟨heq, L', hg, hb, hp⟩ => ?_
    exact ⟨heq, L', ((Ledger.Grows.addOperand L).trans (.add _ _)).trans hg, hb, hp⟩
  · rw [if_neg hu, if_neg (mt h.unit_eq_nil.mp hu)]
    rfl

theorem agrees_lowerLabel (h : Books m L a s) (hi : i < m.code.length) (l : Label) :
    Agrees m L a s (lowerLabel m i l) (Lowering.lowerLabel m i l) Anything := by
  refine agrees_ite Iff.rfl (fun _ => agrees_get_bind ?_) fun _ => agrees_pure h trivial
  have entry := h.handlerEntry? i
  refine agrees_ite (by rw [← entry, Option.isSome_map]) (fun _ => ?_) fun hnone => ?_
  · exact agrees_ite h.unit_eq_nil (fun _ => agrees_setUnit h hi .nop) fun _ => agrees_pure h trivial
  · have out : (a.frame i).out = (s.frame i).out := congrArg Frame.out (h.frame i)
    rw [out]
    cases hout : (s.frame i).out with
    | some o => exact agrees_push h (h.outKnown i o hout) false
    | none =>
      refine agrees_bind_yields (agrees_freshRegister h) fun r L₁ a₁ s₁ hy _ h₁ _ => ?_
      obtain ⟨-, rfl⟩ := Lowering.yields_freshRegister.mp hy
      exact agrees_catch h₁ hi (Option.not_isSome_iff_eq_none.mp hnone) r

/-- Lowering an operation with cells agrees with lowering it without. -/
theorem agrees_lowerOperation (h : Books m L a s) {op : Operation} (here : m.code[i]? = some op) :
    Agrees m L a s (lowerOperation m i op) (Lowering.lowerOperation m i op) Anything := by
  have hi : i < m.code.length := (List.getElem?_eq_some_iff.mp here).1
  have plain : (∀ l, op ≠ .label l) → m.Unlabelled i := Method.unlabelled_of_here here
  cases op with
  | const c => exact agrees_leave h (plain nofun) (List.forall_mem_nil _) (makes_withoutUses h (by rfl)) _
  | load kind index =>
    refine agrees_bind (agrees_slotRegister h index) fun r L₁ a₁ s₁ _ h₁ _ => ?_
    exact agrees_leave h₁ (plain nofun) (List.forall_mem_nil _) (makes_withoutUses h₁ (by rfl)) _
  | store kind index => exact agrees_lowerStore h (plain nofun) kind index
  | increment index amount => exact agrees_lowerIncrement h (plain nofun) index amount
  | arrayLoad kind => exact agrees_lowerArrayLoad h (plain nofun) kind
  | arrayStore kind => exact agrees_lowerArrayStore h (plain nofun) kind
  | shuffle how count => exact agrees_lowerShuffle h i how count
  | arithmetic kind op => exact agrees_lowerArithmetic h (plain nofun) kind op
  | compare kind nan => exact agrees_lowerBinary h (plain nofun) _ _ _ _
  | convert source target => exact agrees_lowerUnary h (plain nofun) _ _ fun hk => congrArg (fun x => Rvalue.expr (.cast x _)) hk
  | arrayLength => exact agrees_lowerUnary h (plain nofun) _ _ fun hk => congrArg (fun x => Rvalue.expr (.length x)) hk
  | cast type => exact agrees_lowerUnary h (plain nofun) _ _ fun hk => congrArg (fun x => Rvalue.expr (.cast x type)) hk
  | instanceOf type => exact agrees_lowerUnary h (plain nofun) _ _ fun hk => congrArg (fun x => Rvalue.expr (.instanceOf x type)) hk
  | new type => exact agrees_leave h (plain nofun) (List.forall_mem_nil _) (makes_withoutUses h (by rfl)) _
  | newArray element => exact agrees_lowerUnary h (plain nofun) _ _ fun hk => congrArg (fun x => Rvalue.expr (.newArray element x)) hk
  | newMultiArray type dims => exact agrees_lowerNewMultiArray h (plain nofun) type dims
  | getStatic field => exact agrees_leave h (plain nofun) (List.forall_mem_nil _) (makes_withoutUses h (by rfl)) _
  | putStatic field => exact agrees_lowerPutStatic h (plain nofun) field
  | getField field => exact agrees_lowerGetField h (plain nofun) field
  | putField field => exact agrees_lowerPutField h (plain nofun) field
  | invoke kind method => exact agrees_lowerInvoke h (plain nofun) kind method
  | invokeDynamic site => exact agrees_lowerInvokeDynamic h (plain nofun) site
  | branch kind operands way target => exact agrees_lowerBranch h (plain nofun) kind operands way target
  | jump target => exact agrees_emit h hi (List.forall_mem_nil _) (makes_withoutUses h .goto)
  | «switch» default cases => exact agrees_lowerSwitch h (plain nofun) default cases
  | «return» kind => exact agrees_lowerReturn h (plain nofun) kind
  | throw => exact agrees_lowerConsumer h (plain nofun) .throw
  | monitorEnter => exact agrees_lowerConsumer h (plain nofun) .enterMonitor
  | monitorExit => exact agrees_lowerConsumer h (plain nofun) .exitMonitor
  | nop => exact agrees_emit h hi (List.forall_mem_nil _) (makes_withoutUses h .nop)
  | line => exact agrees_pure h trivial
  | label l => exact agrees_lowerLabel h hi l
  | unhandled => exact agrees_fail

end Cells
end ThreeAddress
