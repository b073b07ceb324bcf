import Stepwise.Tree

/-!
The outline of a syntax tree: the label of each form, its fields in a fixed order and its one-line
form.
-/
namespace Stepwise

/-- A list in brackets. -/
def bracketed (items : List String) : String := "[" ++ String.intercalate ", " items ++ "]"

/-- A list of names in literal form. -/
def nameList (names : List Constant) : String := bracketed (names.map Constant.literal)

def LiteralForm.label : LiteralForm → String
  | .number => "NumberLiteral"
  | .string => "StringLiteral"
  | .boolean => "BooleanLiteral"

/-- Texts are quoted only where a string was written. -/
def LiteralForm.show (form : LiteralForm) (c : Constant) : String :=
  match form with
  | .string => c.literal
  | _ => c.plain

/-- A name as a field. -/
def Field.named (name : String) (c : Constant) : Field := .value name c.spelled

/-- An optional node as a field, and its one-line form. -/
def Field.optional (name : String) : Option Outline → Field
  | some node => .child name node
  | none => .value name Scalar.null.spelled

def Outline.optionalText : Option Outline → String
  | some node => node.text
  | none => "None"

namespace Expr

mutual

def outline : Expr → Outline
  | .literal pos form value =>
    .mk form.label pos s!"{form.label}({form.show value})"
      [.value "value" value.spelled]
  | .var pos name => .mk "Identifier" pos s!"Identifier({name.plain})" [.named "name" name]
  | .binary pos op left right =>
    let left := outline left
    let right := outline right
    .mk "BinaryOp" pos s!"BinaryOp({left.text} {op.sign.plain} {right.text})"
      [.named "operator" op.sign, .child "left" left, .child "right" right]
  | .unary pos op operand =>
    let operand := outline operand
    .mk "UnaryOp" pos s!"UnaryOp({op.sign.plain} {operand.text})"
      [.named "operator" op.sign, .child "operand" operand]
  | .call pos callee args =>
    let args := outlines args
    .mk "CallExpression" pos
      s!"CallExpression(callee={callee.plain}, arguments={Outline.listText args})"
      [.named "callee" callee, .list "arguments" args]
  | .new pos className args =>
    let args := outlines args
    .mk "NewExpression" pos
      s!"NewExpression(class_name={className.plain}, arguments={Outline.listText args})"
      [.named "class_name" className, .list "arguments" args]
  | .invoke pos object method args =>
    let object := outline object
    let args := outlines args
    .mk "MethodCall" pos
      (s!"MethodCall(object={object.text}, method={method.plain}, " ++
        s!"arguments={Outline.listText args})")
      [.child "object" object, .named "method" method, .list "arguments" args]
  | .list pos elements =>
    let elements := outlines elements
    .mk "ArrayLiteral" pos s!"ArrayLiteral(elements={elements.length})"
      [.list "elements" elements]
  | .record pos entries =>
    let keys := entries.map fun entry => entry.1.literal
    .mk "ObjectLiteral" pos s!"ObjectLiteral(keys={bracketed keys})"
      [if entries.isEmpty then .value "properties" ⟨"[]", true⟩
       else .keyed "properties" (outlineEntries entries)]
  | .index pos object position =>
    let object := outline object
    let position := outline position
    .mk "IndexAccess" pos s!"IndexAccess(object={object.text}, index={position.text})"
      [.child "object" object, .child "index" position]
  | .slice pos object start stop =>
    let object := outline object
    let start := outlineOption start
    let stop := outlineOption stop
    .mk "SliceAccess" pos
      (s!"SliceAccess(object={object.text}, start={Outline.optionalText start}, " ++
        s!"end={Outline.optionalText stop})")
      [.child "object" object, .optional "start" start, .optional "end" stop]
  | .member pos object property =>
    let object := outline object
    .mk "MemberAccess" pos s!"MemberAccess(object={object.text}, property={property.plain})"
      [.child "object" object, .named "property" property]
  | .alien node => node

def outlines : List Expr → List Outline
  | [] => []
  | e :: es => outline e :: outlines es

def outlineOption : Option Expr → Option Outline
  | none => none
  | some e => some (outline e)

def outlineEntries : List (Constant × Expr) → List Entry
  | [] => []
  | (key, e) :: entries => .mk key.spelled (outline e) :: outlineEntries entries

end

end Expr

namespace Stmt

mutual

def outline : Stmt → Outline
  | .expr pos value =>
    let value := value.outline
    .mk "ExpressionStatement" pos s!"ExpressionStatement(expression={value.text})"
      [.child "expression" value]
  | .assign pos target value =>
    let value := value.outline
    .mk "Assignment" pos s!"Assignment(target={target.plain}, value={value.text})"
      [.named "target" target, .child "value" value]
  | .update pos target op value =>
    let value := value.outline
    .mk "AugmentedAssignment" pos
      (s!"AugmentedAssignment(target={target.plain}, operator={op.sign.literal}, " ++
        s!"value={value.text})")
      [.named "target" target, .named "operator" op.sign, .child "value" value]
  | .setIndex pos object position value =>
    let object := object.outline
    let position := position.outline
    let value := value.outline
    .mk "IndexedAssignment" pos
      s!"IndexedAssignment(object={object.text}, index={position.text}, value={value.text})"
      [.child "object" object, .child "index" position, .child "value" value]
  | .setMember pos object property value =>
    let object := object.outline
    let value := value.outline
    .mk "MemberAssignment" pos
      s!"MemberAssignment(object={object.text}, property={property.plain}, value={value.text})"
      [.child "object" object, .named "property" property, .child "value" value]
  | .branch pos test body elifs otherwise =>
    let test := test.outline
    let elifs := outlineElifs elifs
    let alternate := match otherwise with
      | some (s :: ss) => (s :: ss).length.repr
      | _ => "None"
    .mk "IfStatement" pos
      (s!"IfStatement(condition={test.text}, consequent={body.length}, " ++
        s!"elif_branches={elifs.length}, alternate={alternate})")
      [.child "condition" test, .list "consequent" (outlines body),
       .list "elif_branches" elifs, outlineOtherwise otherwise]
  | .loopTimes pos count body =>
    let count := count.outline
    .mk "RepeatStatement" pos s!"RepeatStatement(count={count.text}, body={body.length})"
      [.child "count" count, .list "body" (outlines body)]
  | .loopWhile pos test body =>
    let test := test.outline
    .mk "WhileStatement" pos s!"WhileStatement(condition={test.text}, body={body.length})"
      [.child "condition" test, .list "body" (outlines body)]
  | .loopRange pos var start stop step body =>
    let start := start.outline
    let stop := stop.outline
    let step := step.map Expr.outline
    .mk "ForStatement" pos
      (s!"ForStatement(variable={var.plain}, start={start.text}, end={stop.text}, " ++
        s!"step={Outline.optionalText step})")
      [.named "variable" var, .child "start" start, .child "end" stop,
       .optional "step" step, .list "body" (outlines body)]
  | .loopEach pos var items body =>
    let items := items.outline
    .mk "ForEachStatement" pos s!"ForEachStatement(variable={var.plain}, iterable={items.text})"
      [.named "variable" var, .child "iterable" items,
       .list "body" (outlines body)]
  | .leave pos => .mk "BreakStatement" pos "BreakStatement()" []
  | .again pos => .mk "ContinueStatement" pos "ContinueStatement()" []
  | .pass pos => .mk "PassStatement" pos "PassStatement()" []
  | .define function => outlineFunc function
  | .defineClass pos name methods =>
    .mk "ClassDef" pos s!"ClassDef(name={name.plain}, methods={nameList (methods.map Func.name)})"
      [.named "name" name, .list "methods" (outlineFuncs methods)]
  | .give pos value =>
    let value := value.map Expr.outline
    .mk "ReturnStatement" pos s!"ReturnStatement(value={Outline.optionalText value})"
      [.optional "value" value]
  | .alien node => node

def outlines : List Stmt → List Outline
  | [] => []
  | s :: ss => outline s :: outlines ss

def outlineOtherwise : Option (List Stmt) → Field
  | none => .value "alternate" Scalar.null.spelled
  | some body => .list "alternate" (outlines body)

def outlineElif : Elif → Outline
  | .mk pos test body =>
    let test := test.outline
    .mk "ElifBranch" pos s!"ElifBranch(condition={test.text}, consequent={body.length})"
      [.child "condition" test, .list "consequent" (outlines body)]

def outlineElifs : List Elif → List Outline
  | [] => []
  | e :: es => outlineElif e :: outlineElifs es

def outlineFunc : Func → Outline
  | .mk pos name params body =>
    .mk "FunctionDef" pos s!"FunctionDef(name={name.plain}, params={nameList params})"
      [.named "name" name, .value "params" ⟨nameList params, params.all fun c => c.spelled.fits⟩,
       .list "body" (outlines body)]

def outlineFuncs : List Func → List Outline
  | [] => []
  | f :: fs => outlineFunc f :: outlineFuncs fs

end

end Stmt

def Program.outline (program : Program) : Outline :=
  .mk "Program" program.pos s!"Program(body={program.body.length})"
    [.list "body" (Stmt.outlines program.body)]

end Stepwise
