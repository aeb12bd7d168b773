import ThreeAddress.Lowering.Layout
import ThreeAddress.Lowering.Traversal

/-!
# Lowering

Lowering turns the stack code of a method into three-address code over registers. Values stay unevaluated expressions as long as
possible; they are put into registers only where a later instruction, a join of control flow or an effect requires it. A method is
lowered on its own, and the result depends on nothing else.
-/

namespace ThreeAddress

namespace Method

/-- Lowers a method with a given way to tell which stacks travel along which edges. -/
def lowerBy (test : EdgeTest) (m : Method) (keepLines : Bool) : Except Fault Body := do
  Layout.body m keepLines (← Traversal.complete (S := State) test m).state

/-- Lowers a method; its statements carry their source lines if `keepLines`. -/
def lower (m : Method) (keepLines : Bool) : Except Failure Body :=
  (m.lowerBy .pendingFirst keepLines).mapError fun fault => { method := m.text, fault }

end Method
end ThreeAddress
