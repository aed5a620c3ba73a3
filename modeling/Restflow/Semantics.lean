import Restflow.Python.Ast
import Restflow.WorkflowDef

/-!
# What a workflow means

`Source` is the part of Python the compiler is built for, run on the function's
local variables; `NodeDef.run` is an engine for the graph, which the repository leaves
to the native module. `Restflow.Refinement` proves that the two agree.
-/

namespace Restflow

open Python

/-- Local variables, and the engine's data context: names bound to values. -/
abbrev Env := List (String × PyVal)

/-- `x1, ..., xn = v1, ..., vn`: bind the names in order. -/
def bindAll (env : Env) (xs : List String) (vs : List PyVal) : Env :=
  (xs.zip vs).foldl (fun env xv => dictSet env xv.1 xv.2) env

namespace Source

/-- A literal display: a constant, or a list or dict display of literals with
constant keys. -/
inductive Lit where
  | const (c : Const)
  | list (elts : List Lit)
  | dict (items : List (Const × Lit))

mutual
def Lit.toExpr : Lit → Expr
  | .const c => .constant c
  | .list elts => .list (Lit.toExprList elts)
  | .dict items => .dict (Lit.toExprItems items)
def Lit.toExprList : List Lit → List Expr
  | [] => []
  | l :: ls => l.toExpr :: Lit.toExprList ls
def Lit.toExprItems : List (Const × Lit) → List (Option Expr × Expr)
  | [] => []
  | (k, l) :: items => (some (.constant k), l.toExpr) :: Lit.toExprItems items
end

mutual
/-- The value Python gives a literal display: a dict display stores its entries
in order, by `d[k] = v`. -/
def Lit.eval : Lit → PyVal
  | .const c => .const c
  | .list elts => .list (Lit.evalList elts)
  | .dict items => .dict (Lit.evalItems [] items)
def Lit.evalList : List Lit → List PyVal
  | [] => []
  | l :: ls => l.eval :: Lit.evalList ls
def Lit.evalItems (acc : List (PyVal × PyVal)) : List (Const × Lit) → List (PyVal × PyVal)
  | [] => acc
  | (k, l) :: items => Lit.evalItems (insertConst acc k l.eval) items
end

structure Call where
  func : String
  args : List String
  keywords : List (String × Lit)
  distinct : (keywords.map Prod.fst).Nodup

def Call.toExpr (c : Call) : Expr :=
  .call (.name c.func) (c.args.map .name) (c.keywords.map fun kv => (some kv.1, kv.2.toExpr))

def Call.kwargs (c : Call) : List (Option String × PyVal) :=
  c.keywords.map fun kv => (some kv.1, kv.2.eval)

inductive Stmt where
  | assign (target : String) (value : Call)
  | unpack (targets : List String) (values : List Call) (arity : targets.length = values.length)
  | if_ (test : Expr) (body orelse : List Stmt)
  | for_ (target iter : String) (body : List Stmt)

mutual
def Stmt.toPython : Stmt → Python.Stmt
  | .assign x c => .assign (.name x) c.toExpr
  | .unpack xs cs _ => .assign (.tuple (xs.map .name)) (.tuple (cs.map Call.toExpr))
  | .if_ test body orelse => .if_ test (Stmt.toPythonList body) (Stmt.toPythonList orelse)
  | .for_ x it body => .for_ (.name x) (.name it) (Stmt.toPythonList body)
def Stmt.toPythonList : List Stmt → List Python.Stmt
  | [] => []
  | s :: ss => s.toPython :: Stmt.toPythonList ss
end

/-- A function whose body ends in `return func(...)`. -/
structure Function where
  name : String
  args : List Arg
  body : List Stmt
  ret : Call

def Function.toPython (f : Function) : FunctionDef :=
  { name := f.name, args := f.args,
    body := Stmt.toPythonList f.body ++ [.return_ (some f.ret.toExpr)] }

mutual
/-- The names a statement assigns: they are local variables of the whole function. -/
def Stmt.targets : Stmt → List String
  | .assign x _ => [x]
  | .unpack xs _ _ => xs
  | .if_ _ body orelse => Stmt.targetsList body ++ Stmt.targetsList orelse
  | .for_ x _ body => x :: Stmt.targetsList body
def Stmt.targetsList : List Stmt → List String
  | [] => []
  | s :: ss => s.targets ++ Stmt.targetsList ss
end

/-- An assignment expression `:=` in a test's text. -/
def hasWalrus : List Char → Bool
  | ':' :: '=' :: _ => true
  | _ :: cs => hasWalrus cs
  | [] => false

/-- A test `ast.unparse` writes, with no assignment expression in it. -/
def plainTest (e : Expr) : Bool :=
  match unparse e with
  | .ok src => !hasWalrus src.toList
  | .error _ => false

/-- Python looks the call's arguments up among the local variables and its callee
among the globals, as `Call.eval` does. -/
def Call.scoped (locals : List String) (c : Call) : Bool :=
  c.args.all locals.contains && !locals.contains c.func

mutual
/-- The statement's names resolve as `Stmt.exec` resolves them, and its tests bind
nothing. -/
def Stmt.scoped (locals : List String) : Stmt → Bool
  | .assign _ c => c.scoped locals
  | .unpack _ cs _ => cs.all (Call.scoped locals)
  | .if_ test body orelse => plainTest test && Stmt.scopedList locals body && Stmt.scopedList locals orelse
  | .for_ _ it body => locals.contains it && Stmt.scopedList locals body
def Stmt.scopedList (locals : List String) : List Stmt → Bool
  | [] => true
  | s :: ss => s.scoped locals && Stmt.scopedList locals ss
end

def Function.locals (f : Function) : List String :=
  f.args.map Arg.arg ++ Stmt.targetsList f.body

/-- Every annotation unparses, and every name resolves as the model resolves it. -/
def Function.scoped (f : Function) : Bool :=
  f.args.all Arg.intsFit && Stmt.scopedList f.locals f.body &&
    f.ret.scoped f.locals

section Exec

variable (call : String → List PyVal → List (Option String × PyVal) → Option PyVal)
  (test : Expr → Env → Option Bool)

def Call.eval (env : Env) (c : Call) : Option PyVal := do
  call c.func (← c.args.mapM env.lookup) c.kwargs

mutual
def Stmt.exec (env : Env) : Stmt → Option Env
  | .assign x c => (c.eval call env).map (dictSet env x ·)
  | .unpack xs cs _ => (cs.mapM (Call.eval call env)).map (bindAll env xs)
  | .if_ e body orelse => do
    if ← test e env then Stmt.execList env body else Stmt.execList env orelse
  | .for_ x it body => do
    let items ← (← env.lookup it).iter.toOption
    items.foldlM (fun env v => Stmt.execList (dictSet env x v) body) env
def Stmt.execList (env : Env) : List Stmt → Option Env
  | [] => some env
  | s :: ss => do Stmt.execList (← Stmt.exec env s) ss
end

def Function.result (f : Function) (env : Env) : Option PyVal := do
  f.ret.eval call (← Stmt.execList call test env f.body)

end Exec

end Source

/-- An engine: the step functions by name, and how it decides a condition from
its predicate id and source text in a context. -/
structure Engine where
  call : String → List PyVal → List (Option String × PyVal) → Option PyVal
  decide : String → String → Env → Option Bool

section Run

variable (engine : Engine)

def StepDef.run (ctx : Env) (s : StepDef) : Option PyVal := do
  engine.call s.name (← s.inputs.mapM ctx.lookup) s.config

def parallelValues (ctx : Env) : List NodeDef → Option (List PyVal)
  | [] => some []
  | .step s :: rest => do
    let v ← s.run engine ctx
    pure (v :: (← parallelValues ctx rest))
  | _ :: _ => none

mutual
def NodeDef.run (ctx : Env) : NodeDef → Option Env
  | .step s => (s.run engine ctx).map (dictSet ctx s.output ·)
  | .parallel outputs steps => (parallelValues engine ctx steps).map (bindAll ctx outputs)
  | .condition i src t none => do
    if ← engine.decide i src ctx then t.run ctx else pure ctx
  | .condition i src t (some e) => do
    if ← engine.decide i src ctx then t.run ctx else e.run ctx
  | .loop v it body => do
    let items ← (← ctx.lookup it).iter.toOption
    items.foldlM (fun ctx x => body.run (dictSet ctx v x)) ctx
  | .sequence steps => NodeDef.runList ctx steps
def NodeDef.runList (ctx : Env) : List NodeDef → Option Env
  | [] => some ctx
  | n :: ns => do NodeDef.runList (← n.run ctx) ns
end

/-- The workflow's result: the value bound to `return_var`, or `None`. -/
def WorkflowDef.run (w : WorkflowDef) (ctx : Env) : Option PyVal := do
  let ctx ← w.body.run engine ctx
  match w.returnVar with
  | some v => ctx.lookup v
  | none => pure (.const .pyNone)

end Run

end Restflow
