import ThreeAddress.IR.Body
import ThreeAddress.Proofs.Results

/-!
# What operators, the heap and calls mean

Stack code and bodies are run under one interpretation of everything that they leave open: a `Meaning` gives constants, operators, heap
reads, heap writes and calls as total functions over any type of values and any type of heaps. `map` replaces the operands of an
expression, a reference or a call, and `eval` is the value of a right side once its operands have values.
-/

namespace ThreeAddress

variable {α β γ : Type}

/-! ## Replacing operands -/

/-- A call with every operand replaced. -/
def Invoke.map (f : α → β) : Invoke α → Invoke β
  | .static method args => .static method (args.map f)
  | .instance kind base method args => .instance kind (f base) method (args.map f)
  | .dynamic site args => .dynamic site (args.map f)

/-- An expression with every operand replaced. -/
def Expr.map (f : α → β) : Expr α → Expr β
  | .binary op lhs rhs => .binary op (f lhs) (f rhs)
  | .negate v => .negate (f v)
  | .length v => .length (f v)
  | .cast v t => .cast (f v) t
  | .instanceOf v t => .instanceOf (f v) t
  | .new t => .new t
  | .newArray element size => .newArray element (f size)
  | .newMultiArray t sizes => .newMultiArray t (sizes.map f)
  | .invoke call => .invoke (call.map f)

/-- A reference with every operand replaced. -/
def Ref.map (f : α → β) : Ref α → Ref β
  | .staticField field => .staticField field
  | .instanceField base field => .instanceField (f base) field
  | .array base index => .array (f base) (f index)
  | .this t => .this t
  | .parameter index t => .parameter index t
  | .caughtException => .caughtException

theorem Invoke.operands_map (f : α → β) (c : Invoke α) : (c.map f).operands = c.operands.map f := by
  cases c <;> simp [Invoke.map, Invoke.operands]

theorem Expr.operands_map (f : α → β) (e : Expr α) : (e.map f).operands = e.operands.map f := by
  cases e <;> simp [Expr.map, Expr.operands, Invoke.operands_map]

theorem Ref.operands_map (f : α → β) (r : Ref α) : (r.map f).operands = r.operands.map f := by
  cases r <;> simp [Ref.map, Ref.operands]

/-- Only what replaces the operands of a call matters. -/
theorem Invoke.map_congr {f g : α → β} {c : Invoke α} (h : ∀ o ∈ c.operands, f o = g o) : c.map f = c.map g := by
  cases c <;> simp_all [Invoke.map, Invoke.operands]

theorem Expr.map_congr {f g : α → β} {e : Expr α} (h : ∀ o ∈ e.operands, f o = g o) : e.map f = e.map g := by
  cases e with
  | invoke call => simp only [Expr.map, Invoke.map_congr h]
  | _ => simp_all [Expr.map, Expr.operands]

theorem Ref.map_congr {f g : α → β} {r : Ref α} (h : ∀ o ∈ r.operands, f o = g o) : r.map f = r.map g := by
  cases r <;> simp_all [Ref.map, Ref.operands]

/-! ## Replacing operands when that may fail -/

section
variable {ε : Type} {f : α → Except ε β}

variable {g : β → γ} {h : α → γ} (hf : ∀ a b, f a = .ok b → g b = h a)
include hf

theorem Invoke.map_eq_of_mapM {c : Invoke α} {d : Invoke β} (hm : c.mapM f = .ok d) : d.map g = c.map h := by
  cases c with
  | static method args | dynamic site args =>
    simp only [Invoke.mapM, bind_eq_ok, pure_eq_ok] at hm
    obtain ⟨as, ha, rfl⟩ := hm
    simp only [Invoke.map, ThreeAddress.map_eq_of_mapM ha hf]
  | «instance» kind base method args =>
    simp only [Invoke.mapM, bind_eq_ok, pure_eq_ok] at hm
    obtain ⟨as, ha, b, hb, rfl⟩ := hm
    simp only [Invoke.map, ThreeAddress.map_eq_of_mapM ha hf, hf _ _ hb]

theorem Expr.map_eq_of_mapM {e : Expr α} {d : Expr β} (hm : e.mapM f = .ok d) : d.map g = e.map h := by
  cases e with
  | binary op l r =>
    simp only [Expr.mapM, bind_eq_ok, pure_eq_ok] at hm
    obtain ⟨a, hl, b, hr, rfl⟩ := hm
    simp only [Expr.map, hf _ _ hl, hf _ _ hr]
  | negate v | length v | cast v t | instanceOf v t | newArray t v =>
    simp only [Expr.mapM, bind_eq_ok, pure_eq_ok] at hm
    obtain ⟨a, hv, rfl⟩ := hm
    simp only [Expr.map, hf _ _ hv]
  | new t =>
    simp only [Expr.mapM, pure_eq_ok] at hm
    subst hm
    rfl
  | newMultiArray t sizes =>
    simp only [Expr.mapM, bind_eq_ok, pure_eq_ok] at hm
    obtain ⟨as, hs, rfl⟩ := hm
    simp only [Expr.map, ThreeAddress.map_eq_of_mapM hs hf]
  | invoke call =>
    simp only [Expr.mapM, bind_eq_ok, pure_eq_ok] at hm
    obtain ⟨d, hc, rfl⟩ := hm
    simp only [Expr.map, Invoke.map_eq_of_mapM hf hc]

theorem Ref.map_eq_of_mapM {r : Ref α} {d : Ref β} (hm : r.mapM f = .ok d) : d.map g = r.map h := by
  cases r with
  | instanceField base field =>
    simp only [Ref.mapM, bind_eq_ok, pure_eq_ok] at hm
    obtain ⟨b, hb, rfl⟩ := hm
    simp only [Ref.map, hf _ _ hb]
  | array base index =>
    simp only [Ref.mapM, bind_eq_ok, pure_eq_ok] at hm
    obtain ⟨b, hb, i, hi, rfl⟩ := hm
    simp only [Ref.map, hf _ _ hb, hf _ _ hi]
  | _ =>
    simp only [Ref.mapM, pure_eq_ok] at hm
    subst hm
    rfl

end

section
variable {ε : Type} {f : α → Except ε β} {b : β}

theorem eq_toOption {a : α} (h : f a = .ok b) : some b = (f a).toOption := by
  rw [h]
  rfl

/-- What comes out of a replacement replaces something that went in. -/
theorem exists_of_map_toOption {as : List α} {bs : List β} (h : bs.map some = as.map fun a => (f a).toOption) (hb : b ∈ bs) :
    ∃ a ∈ as, f a = .ok b := by
  have hmem : some b ∈ as.map fun a => (f a).toOption := h ▸ List.mem_map_of_mem hb
  obtain ⟨a, ha, heq⟩ := List.mem_map.mp hmem
  refine ⟨a, ha, ?_⟩
  cases hf : f a with
  | error e => simp [hf, Except.toOption] at heq
  | ok b' => simpa [hf, Except.toOption] using heq

theorem Invoke.exists_of_mapM {c : Invoke α} {d : Invoke β} (hm : c.mapM f = .ok d) (hb : b ∈ d.operands) : ∃ a ∈ c.operands, f a = .ok b :=
  exists_of_map_toOption (by rw [← operands_map, ← operands_map, map_eq_of_mapM (fun _ _ => eq_toOption) hm]) hb

theorem Expr.exists_of_mapM {e : Expr α} {d : Expr β} (hm : e.mapM f = .ok d) (hb : b ∈ d.operands) : ∃ a ∈ e.operands, f a = .ok b :=
  exists_of_map_toOption (by rw [← operands_map, ← operands_map, map_eq_of_mapM (fun _ _ => eq_toOption) hm]) hb

theorem Ref.exists_of_mapM {r : Ref α} {d : Ref β} (hm : r.mapM f = .ok d) (hb : b ∈ d.operands) : ∃ a ∈ r.operands, f a = .ok b :=
  exists_of_map_toOption (by rw [← operands_map, ← operands_map, map_eq_of_mapM (fun _ _ => eq_toOption) hm]) hb

end

/-! ## Interpretations -/

/-- An interpretation of everything that code leaves open, over values `V` and heaps `H`. -/
structure Meaning (V H : Type) where
  constant : Constant → V
  /-- The value of an operator; what it gives may depend on the heap. -/
  operator : H → Expr V → V
  read : H → Ref V → V
  write : H → Ref V → V → H
  call : H → Invoke V → V × H
  holds : Comparison → V → V → Bool
  /-- The number that a switch sees in a value. -/
  toInt : V → Int32

/-- What a method receives from outside. -/
structure Arguments (V : Type) where
  receiver : V
  parameter : Nat → V
  caught : V

/-- What the code of a method does that can be seen from outside. -/
inductive Action (V : Type) where
  | call (call : Invoke V)
  | write (place : Ref V) (value : V)
  | enter (monitor : V)
  | exit (monitor : V)
  | branch (way : Comparison) (lhs rhs : V) (taken : Bool)
  /-- The number of the case that was taken; none for the default. -/
  | switch (key : V) (case : Option Nat)
  | return (value : V)
  | returnVoid
  | throw (value : V)

/-- An action, with the values of all variables when it happens. -/
structure Event (V K : Type) where
  action : Action V
  store : K → V

variable {V H : Type} (M : Meaning V H)

/-- The value of an operand of a finished statement. -/
def Immediate.eval (regs : RegisterId → V) : Immediate → V
  | .register r => regs r
  | .constant c => M.constant c

/-- The right side is a call. -/
def Rvalue.isCall : Rvalue α → Bool
  | .expr (.invoke _) => true
  | _ => false

/-- The value of a right side that is no call, once its operands have values. -/
def Rvalue.eval (regs : RegisterId → V) (heap : H) (operand : α → V) : Rvalue α → V
  | .immediate i => i.eval M regs
  | .expr e => M.operator heap (e.map operand)
  | .ref r => M.read heap (r.map operand)

/-- The value of a right side of a finished statement that is no call. -/
def Value.eval (regs : RegisterId → V) (heap : H) (v : Value) : V :=
  Rvalue.eval M regs heap (Immediate.eval M regs) v

/-- What the method receives under a name. -/
def Arguments.value? {V : Type} (args : Arguments V) : Ref Immediate → Option V
  | .this _ => some args.receiver
  | .parameter k _ => some (args.parameter k)
  | .caughtException => some args.caught
  | _ => none

end ThreeAddress
