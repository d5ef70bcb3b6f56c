import CalcLang.Package

/-!
# Effects of nodes in C

Operands are to be evaluated once and from left to right. A lowered operand is a C expression
that is evaluated only later, where it is used; in between run the statements of the operands
behind it. `mustSpill` says when its value therefore has to be copied into a temporary first: if
it reads a variable that a later operand may assign, or still contains a call that a later
operand would overtake.
-/

namespace CalcLang.C

mutual

/-- Whether the C value of a node names a parameter or variable. -/
def readsVariable : Node → Bool
  | .read _ _ _ _ | .assign _ _ _ _ _ | .declare _ _ _ _ | .define _ _ _ _ _ => true
  | .unary _ operand _ _ => readsVariable operand
  | .call _ _ args _ _ => anyReadsVariable args
  | .block nodes _ _ => lastReadsVariable nodes
  | .const _ _ | .binary _ _ _ _ _ _ | .ifThen _ _ _ _ _ _ | .ifThenElse _ _ _ _ _ _ _
  | .error _ => false

/-- Whether the C value of one of the nodes names a parameter or variable. -/
def anyReadsVariable : List Node → Bool
  | [] => false
  | node :: nodes => readsVariable node || anyReadsVariable nodes

/-- Whether the C value of the last of the nodes names a parameter or variable. -/
def lastReadsVariable : List Node → Bool
  | [] => false
  | [node] => readsVariable node
  | _ :: node :: nodes => lastReadsVariable (node :: nodes)

end

mutual

/-- Whether the C value of a node still contains a call that is to be made. -/
def valueCalls : Node → Bool
  | .call _ _ _ _ _ => true
  | .unary _ operand _ _ => valueCalls operand
  | .block nodes _ _ => lastValueCalls nodes
  | _ => false

/-- Whether the C value of the last of the nodes still contains a call. -/
def lastValueCalls : List Node → Bool
  | [] => false
  | [node] => valueCalls node
  | _ :: node :: nodes => lastValueCalls (node :: nodes)

end

mutual

/-- Whether lowering a node makes a statement. -/
def emitsStatements : Node → Bool
  | .binary _ _ _ _ _ _ | .ifThen _ _ _ _ _ _ | .ifThenElse _ _ _ _ _ _ _ | .declare _ _ _ _
  | .define _ _ _ _ _ | .assign _ _ _ _ _ => true
  | .const _ _ | .read _ _ _ _ | .error _ => false
  | .unary _ operand _ _ => emitsStatements operand
  | .call _ _ args _ _ => anyEmitsStatements args
  | .block nodes _ _ => blockEmitsStatements nodes

/-- Whether lowering one of the nodes makes a statement. -/
def anyEmitsStatements : List Node → Bool
  | [] => false
  | node :: nodes => emitsStatements node || anyEmitsStatements nodes

/-- Whether lowering the nodes of a block makes a statement. A node before the last one also makes
one for the calls in its value. -/
def blockEmitsStatements : List Node → Bool
  | [] => false
  | [node] => emitsStatements node
  | node :: next :: nodes =>
    emitsStatements node || valueCalls node || blockEmitsStatements (next :: nodes)

end

/-- A test for the nodes of one kind. -/
abbrev Test := Node → Bool

mutual

/-- Whether a node inside a node passes a test. -/
def partContains (test : Test) : Node → Bool
  | .const _ _ | .read _ _ _ _ | .error _ | .declare _ _ _ _ => false
  | .binary _ lhs rhs _ _ _ =>
    (test lhs || partContains test lhs) || (test rhs || partContains test rhs)
  | .unary _ operand _ _ => test operand || partContains test operand
  | .call _ _ args _ _ => anyContains test args
  | .ifThen cond _ yes _ _ _ =>
    (test cond || partContains test cond) || (test yes || partContains test yes)
  | .ifThenElse cond _ yes no _ _ _ =>
    (test cond || partContains test cond) || (test yes || partContains test yes)
      || (test no || partContains test no)
  | .block nodes _ _ => anyContains test nodes
  | .assign _ _ value _ _ => test value || partContains test value
  | .define _ _ _ init _ => test init || partContains test init

/-- Whether one of the nodes, or a node inside it, passes a test. -/
def anyContains (test : Test) : List Node → Bool
  | [] => false
  | node :: nodes => (test node || partContains test node) || anyContains test nodes

end

/-- Whether a node, or a node inside it, passes a test. -/
def contains (test : Test) (node : Node) : Bool :=
  test node || partContains test node

/-- Whether a node is an assignment. -/
def isAssignment : Test
  | .assign _ _ _ _ _ => true
  | _ => false

/-- Whether a node is a call. -/
def isCall : Test
  | .call _ _ _ _ _ => true
  | _ => false

/-- Whether a node contains an assignment. -/
def assigns (node : Node) : Bool := contains isAssignment node

/-- Whether a node contains a call. -/
def calls (node : Node) : Bool := contains isCall node

/-- Whether the value of an operand has to be copied before the operands behind it are lowered. -/
def mustSpill (operand : Node) (later : List Node) : Bool :=
  (readsVariable operand && later.any assigns)
    || (valueCalls operand && later.any fun node => emitsStatements node || calls node)

end CalcLang.C
