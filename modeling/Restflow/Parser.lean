import Restflow.Python.Ast
import Restflow.WorkflowDef

/-!
# `WorkflowParser`

`parser.py`, one definition per method; the methods that can raise return
`Except PyError`. `parse` starts from the function's syntax tree, and `var_to_step`,
which nothing reads, is left out.
-/

namespace Restflow

open Python

/-- A predicate callable, applied by `_eval_predicate` to the data context. -/
abbrev Predicate := PyVal → Bool

structure WorkflowParser where
  steps : List NodeDef := []
  predicates : List (String × Predicate) := []
  predicateCounter : Nat := 0

/-- `self.steps.append(node)`. -/
def WorkflowParser.append (p : WorkflowParser) (node : NodeDef) : WorkflowParser :=
  { p with steps := p.steps ++ [node] }

/-- `xs[i]`. -/
def getItem {α : Type} (xs : List α) (i : Nat) : Except PyError α :=
  match xs[i]? with
  | some x => pure x
  | none => throw (.indexError "list index out of range")

def getFuncName : Expr → String
  | .name id => id
  | .attribute value attr => getFuncName value ++ "." ++ attr
  | _ => "unknown"

/-- A positional argument: a name is an input reference, anything else its text. -/
def argInput : Expr → Except PyError String
  | .name id => .ok id
  | arg => unparse arg

/-- The loop over `node.args`. -/
def parseInputs : List Expr → Except PyError (List String)
  | [] => .ok []
  | arg :: args => do
    let input ← argInput arg
    let inputs ← parseInputs args
    .ok (input :: inputs)

/-- What `ast.unparse(None)` raises, for the `None` key of a `**d` entry. -/
def unparseNoneError : PyError :=
  .attributeError "\x27NoneType\x27 object has no attribute \x27_fields\x27"

mutual
/-- `_value_to_python`: constants, lists and dicts fold, anything else is its text. -/
def valueToPython : Expr → Except PyError PyVal
  | .constant value => pure (.const value)
  | .list elts => return .list (← valueToPythonList elts)
  | .dict items => return .dict (← valueToPythonItems [] items)
  | e => (unparse e).map fun text => .const (.str text)
def valueToPythonList : List Expr → Except PyError (List PyVal)
  | [] => pure []
  | e :: es => do
    let v ← valueToPython e
    let vs ← valueToPythonList es
    pure (v :: vs)
/-- The dict comprehension over `zip(node.keys, node.values)`: key, then value, then
the store, entry by entry. -/
def valueToPythonItems (acc : List (PyVal × PyVal)) :
    List (Option Expr × Expr) → Except PyError (List (PyVal × PyVal))
  | [] => pure acc
  | (some k, v) :: rest => do
    let key ← valueToPython k
    let value ← valueToPython v
    valueToPythonItems (← setItem acc key value) rest
  | (none, _) :: _ => throw unparseNoneError
end

/-- The loop over `node.keywords`: `config[kw.arg] = self._value_to_python(kw.value)`. -/
def parseKeywords (config : List (Option String × PyVal)) :
    List (Option String × Expr) → Except PyError (List (Option String × PyVal))
  | [] => pure config
  | (arg, value) :: rest => do
    let v ← valueToPython value
    parseKeywords (dictSet config arg v) rest

/-- `_parse_call`, with `output` left blank for the caller. -/
def parseCall (func : Expr) (args : List Expr) (keywords : List (Option String × Expr)) :
    Except PyError StepDef := do
  let inputs ← parseInputs args
  let config ← parseKeywords [] keywords
  pure { name := getFuncName func, output := "", inputs, config }

def getAssignTarget : Expr → String
  | .name id => id
  | _ => "unknown"

def Expr.nameId? : Expr → Option String
  | .name id => some id
  | _ => none

def getTupleTargets : Expr → List String
  | .tuple elts => elts.filterMap Expr.nameId?
  | _ => []

/-- The loop of `visit_Assign` over `enumerate(node.value.elts)`, from position `i`:
each call is parsed and bound to `outputs[i]`. -/
def parallelSteps (outputs : List String) (i : Nat) : List Expr → Except PyError (List StepDef)
  | [] => pure []
  | .call func args keywords :: elts => do
    let step ← parseCall func args keywords
    let output ← getItem outputs i
    let rest ← parallelSteps outputs (i + 1) elts
    pure ({ step with output } :: rest)
  | _ :: elts => parallelSteps outputs (i + 1) elts

def visitAssign (p : WorkflowParser) (target : Expr) : Expr → Except PyError WorkflowParser
  | .call func args keywords => do
    let step ← parseCall func args keywords
    pure (p.append (.step { step with output := getAssignTarget target }))
  | .tuple elts => do
    let outputs := getTupleTargets target
    let steps ← parallelSteps outputs 0 elts
    pure (if steps.isEmpty then p else p.append (.parallel outputs (steps.map .step)))
  | _ => pure p

def visitReturn (p : WorkflowParser) : Option Expr → Except PyError WorkflowParser
  | some (.call func args keywords) => do
    let step ← parseCall func args keywords
    pure (p.append (.step { step with output := "__return__" }))
  | _ => pure p

def predicateName (n : Nat) : String := s!"pred_{n}"

/-- `self.predicate_counter += 1`. -/
def WorkflowParser.next (p : WorkflowParser) : WorkflowParser :=
  { p with predicateCounter := p.predicateCounter + 1 }

/-- A parser `visit_If` spawns for a branch: no steps, this parser's registry and
counter. -/
def WorkflowParser.child (p : WorkflowParser) : WorkflowParser :=
  { predicates := p.predicates, predicateCounter := p.predicateCounter }

def WorkflowParser.join (p c : WorkflowParser) : WorkflowParser :=
  { p with predicates := c.predicates, predicateCounter := c.predicateCounter }

def iterVarOf : Expr → String
  | .name id => id
  | _ => "item"

mutual
def visit (p : WorkflowParser) : Stmt → Except PyError WorkflowParser
  | .assign target value => visitAssign p target value
  | .if_ test body orelse => do
    let predicateId := predicateName p.predicateCounter
    let predicateSource ← unparse test
    let thenParser ← visitAll p.next.child body
    let p := p.next.join thenParser
    if orelse.isEmpty then
      pure (p.append (.condition predicateId predicateSource (.sequence thenParser.steps) none))
    else do
      let elseParser ← visitAll p.child orelse
      pure ((p.join elseParser).append (.condition predicateId predicateSource
        (.sequence thenParser.steps) (some (.sequence elseParser.steps))))
  | .for_ target iter body => do
    let iterable ← unparse iter
    let bodyParser ← visitAll {} body
    pure (p.append (.loop (iterVarOf target) iterable (.sequence bodyParser.steps)))
  | .return_ value => visitReturn p value
  | .other body => visitAll p body
def visitAll (p : WorkflowParser) : List Stmt → Except PyError WorkflowParser
  | [] => pure p
  | s :: ss => do visitAll (← visit p s) ss
end

/-- `_parse_parameters`: an annotation's `ast.unparse` text, or `""`. -/
def parseParameters : List Arg → Except PyError (List ParameterDef)
  | [] => .ok []
  | ⟨arg, annotation⟩ :: args => do
    let typeHint ← annotation.elim (.ok "") unparse
    let params ← parseParameters args
    .ok ({ name := arg, typeHint } :: params)

/-- `_find_return_var`: the first `StepDef` of the reversed top-level steps. -/
def findReturnVar (steps : List NodeDef) : Option String :=
  go steps.reverse
where
  go : List NodeDef → Option String
    | [] => none
    | .step s :: _ => if s.output = "__return__" then some "__return__" else some s.output
    | _ :: rest => go rest

def parse (funcDef : FunctionDef) : Except PyError (WorkflowDef × List (String × Predicate)) := do
  let parameters ← parseParameters funcDef.args
  let p ← visitAll {} funcDef.body
  let workflowDef : WorkflowDef :=
    { name := funcDef.name
      parameters := parameters
      body := .sequence p.steps
      returnVar := findReturnVar p.steps }
  pure (workflowDef, p.predicates)

end Restflow
