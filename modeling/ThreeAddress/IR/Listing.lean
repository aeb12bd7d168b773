import ThreeAddress.IR.Body

/-!
# Listings

The text of a body: its signature, its registers with their types, its statements with a label before every statement that a branch or
a protected region names, and its protected regions. Registers appear by name, labels are numbered in the order of their statements.
-/

namespace ThreeAddress

namespace Body

/-- The positions that branches and protected regions name, each once, in ascending order. -/
def labelled (b : Body) : List Nat :=
  let branches := b.stmts.flatMap (·.stmt.branchTargets)
  let regions := b.traps.flatMap fun t => [t.first, t.last, t.handler]
  (branches ++ regions).eraseDups.mergeSort

/-- The text of an immediate: the name of a register of the body, or a constant. -/
def immediateText (b : Body) : Immediate → String
  | .register r => ((b.register? r).map (·.name)).getD "<unbound>"
  | .constant c => c.text

/-- Immediates after one another. -/
def argsText (b : Body) (args : List Immediate) : String :=
  ", ".intercalate (args.map b.immediateText)

def invokeText (b : Body) : Invoke Immediate → String
  | .static method args => "staticinvoke " ++ method.text ++ "(" ++ b.argsText args ++ ")"
  | .dynamic site args => "dynamicinvoke " ++ site.text ++ "(" ++ b.argsText args ++ ")"
  | .instance kind base method args =>
    kind.text ++ " " ++ b.immediateText base ++ "." ++ method.text ++ "(" ++ b.argsText args ++ ")"

def exprText (b : Body) : Expr Immediate → String
  | .binary op lhs rhs => b.immediateText lhs ++ " " ++ op.text ++ " " ++ b.immediateText rhs
  | .negate v => "neg " ++ b.immediateText v
  | .length v => "lengthof " ++ b.immediateText v
  | .cast v t => "(" ++ t.text ++ ") " ++ b.immediateText v
  | .instanceOf v t => b.immediateText v ++ " instanceof " ++ t.text
  | .new t => "new " ++ t.text
  | .newArray element size => "newarray (" ++ element.text ++ ")[" ++ b.immediateText size ++ "]"
  | .newMultiArray t sizes =>
    "newmultiarray (" ++ t.text ++ ")" ++ String.join (sizes.map fun s => "[" ++ b.immediateText s ++ "]")
  | .invoke call => b.invokeText call

def refText (b : Body) : Ref Immediate → String
  | .staticField field => field.text
  | .instanceField base field => b.immediateText base ++ "." ++ field.text
  | .array base index => b.immediateText base ++ "[" ++ b.immediateText index ++ "]"
  | .this t => "@this: " ++ t.text
  | .parameter index t => "@parameter" ++ toString index ++ ": " ++ t.text
  | .caughtException => "@caughtexception"

def valueText (b : Body) : Value → String
  | .immediate i => b.immediateText i
  | .expr e => b.exprText e
  | .ref r => b.refText r

/-- The name of the label at a position: one more than the number of labels before it. -/
def labelText (labels : List Nat) (position : Nat) : String :=
  "label" ++ toString ((labels.takeWhile (· < position)).length + 1)

/-- The keys of a switch, as many as a range holds. -/
def switchKeys : SwitchKeys → Nat → List Int
  | .lookup keys, _ => keys.map (·.toInt)
  | .table low high, count => (List.range (min count (high.toInt - low.toInt + 1).toNat)).map fun (i : Nat) => low.toInt + i

def switchWord : SwitchKeys → String
  | .lookup _ => "lookupswitch"
  | .table _ _ => "tableswitch"

def stmtText (b : Body) (labels : List Nat) : Stmt → String
  | .nop => "nop"
  | .identity r value => b.immediateText (.register r) ++ " := " ++ b.refText value
  | .assign lhs rhs => b.valueText lhs ++ " = " ++ b.valueText rhs
  | .invoke call => b.invokeText call
  | .branch c target =>
    "if " ++ b.immediateText c.lhs ++ " " ++ c.op.text ++ " " ++ b.immediateText c.rhs ++ " goto " ++ labelText labels target
  | .goto target => "goto " ++ labelText labels target
  | .switch key keys targets default =>
    let case (k : Int) (target : Nat) : String := "case " ++ toString k ++ ": goto " ++ labelText labels target ++ ";"
    let cases := List.zipWith case (switchKeys keys targets.length) targets
    switchWord keys ++ "(" ++ b.immediateText key ++ ") \x7b " ++ " ".intercalate cases ++ " default: goto " ++
      labelText labels default ++ "; \x7d"
  | .return v => "return " ++ b.immediateText v
  | .returnVoid => "return"
  | .throw v => "throw " ++ b.immediateText v
  | .enterMonitor v => "entermonitor " ++ b.immediateText v
  | .exitMonitor v => "exitmonitor " ++ b.immediateText v

/-- The lines of one statement: its label, if it has one, and the statement with its source line, if it has one. -/
def stmtLines (b : Body) (labels : List Nat) (position : Nat) (s : Located) : List String :=
  (if labels.contains position then ["  " ++ labelText labels position ++ ":"] else []) ++
    [match s.line with
      | some line => "    " ++ b.stmtText labels s.stmt ++ "; // line " ++ toString line
      | none => "    " ++ b.stmtText labels s.stmt ++ ";"]

def trapLine (labels : List Nat) (t : Trap) : String :=
  "    catch " ++ t.exception.text ++ " from " ++ labelText labels t.first ++ " to " ++ labelText labels t.last ++ " with " ++
    labelText labels t.handler ++ ";"

/-- The lines of the listing. An empty line follows the registers, if there are any, and one precedes the protected regions. -/
def lines (b : Body) : List String :=
  let labels := b.labelled
  [b.signature ++ " \x7b"] ++
  b.registers.map (fun r => "    " ++ r.type.text ++ " " ++ r.name ++ ";") ++
  (if b.registers.isEmpty then [] else [""]) ++
  b.stmts.zipIdx.flatMap (fun (s, i) => b.stmtLines labels i s) ++
  (if b.traps.isEmpty then [] else [""]) ++
  b.traps.map (trapLine labels) ++
  ["\x7d"]

/-- The listing, every line ended. -/
def text (b : Body) : String :=
  String.join (b.lines.map (· ++ "\n"))

end Body
end ThreeAddress
