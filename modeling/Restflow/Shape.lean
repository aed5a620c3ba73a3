import Restflow.Parser.Laws
import Mathlib.Data.List.Forall2

/-!
# The shape of the compiled tree

What the parser builds, node kind by node kind, against the statements it reads:
the parallel nodes and their tuple assignments (`parse_parallels`), the node for
each statement (`parse_shape`), and the return variable (`parse_return`).
-/

namespace Restflow

open Python

def callPositions : Nat → List Expr → List Nat
  | _, [] => []
  | i, .call .. :: elts => i :: callPositions (i + 1) elts
  | i, _ :: elts => callPositions (i + 1) elts

mutual
/-- The parallel nodes of a tree, as `(outputs, steps)`, in pre-order. -/
def NodeDef.parallels : NodeDef → List (List String × List NodeDef)
  | .step _ => []
  | .parallel outputs steps => [(outputs, steps)]
  | .condition _ _ t none => t.parallels
  | .condition _ _ t (some e) => t.parallels ++ e.parallels
  | .loop _ _ body => body.parallels
  | .sequence steps => NodeDef.parallelsList steps
def NodeDef.parallelsList : List NodeDef → List (List String × List NodeDef)
  | [] => []
  | n :: ns => n.parallels ++ NodeDef.parallelsList ns
end

theorem NodeDef.parallelsList_append (ns ms : List NodeDef) :
    NodeDef.parallelsList (ns ++ ms) = NodeDef.parallelsList ns ++ NodeDef.parallelsList ms := by
  induction ns with
  | nil => rfl
  | cons n ns ih => simp [NodeDef.parallelsList, ih]

mutual
/-- The tuple assignments with a call element, as `(target, elts)`, in source
order, through every statement the parser visits. -/
def Python.Stmt.tuples : Stmt → List (Expr × List Expr)
  | .assign target (.tuple elts) => if callPositions 0 elts = [] then [] else [(target, elts)]
  | .assign _ _ => []
  | .if_ _ body orelse => Stmt.tuplesList body ++ Stmt.tuplesList orelse
  | .for_ _ _ body => Stmt.tuplesList body
  | .return_ _ => []
  | .other body => Stmt.tuplesList body
def Python.Stmt.tuplesList : List Stmt → List (Expr × List Expr)
  | [] => []
  | s :: ss => s.tuples ++ Stmt.tuplesList ss
end

/-- The parallel node `visit_Assign` builds from `target = elts`: the outputs are
the name targets, and the steps are one `StepDef` or more, the `i`-th bound to the
output at the tuple position of the `i`-th call element. -/
def ParallelOf (node : List String × List NodeDef) (tuple : Expr × List Expr) : Prop :=
  node.1 = getTupleTargets tuple.1 ∧ ∃ ss : List StepDef, ss ≠ [] ∧ node.2 = ss.map .step ∧
    List.Forall₂ (fun s p => node.1[p]? = some s.output) ss (callPositions 0 tuple.2)

theorem parallelSteps_positions {outputs : List String} {i : Nat} {elts : List Expr}
    {steps : List StepDef} (h : parallelSteps outputs i elts = .ok steps) :
    List.Forall₂ (fun s p => outputs[p]? = some s.output) steps (callPositions i elts) := by
  induction elts generalizing i steps with
  | nil =>
    simp only [parallelSteps, pure_ok] at h
    simp [← h, callPositions]
  | cons e elts ih =>
    cases e
    case call func args keywords =>
      simp only [parallelSteps, bind_ok, pure_ok, getItem_ok] at h
      obtain ⟨s₀, -, o, ho, rest, hrest, rfl⟩ := h
      exact .cons ho (ih hrest)
    all_goals simpa only [callPositions] using ih (by simpa only [parallelSteps] using h)

theorem visitAssign_parallels {p p' : WorkflowParser} {target value : Expr}
    (h : visitAssign p target value = .ok p') :
    ∃ new, p'.steps = p.steps ++ new ∧
      List.Forall₂ ParallelOf (NodeDef.parallelsList new) (Stmt.assign target value).tuples := by
  cases value
  case call func args keywords =>
    simp only [visitAssign, bind_ok, pure_ok] at h
    obtain ⟨s, -, rfl⟩ := h
    exact ⟨_, rfl, .nil⟩
  case tuple elts =>
    simp only [visitAssign, bind_ok, pure_ok] at h
    obtain ⟨steps, hs, rfl⟩ := h
    have hpos := parallelSteps_positions hs
    by_cases he : steps = []
    · subst he
      rw [List.forall₂_nil_left_iff] at hpos
      exact ⟨[], by simp, by simp [Stmt.tuples, hpos, NodeDef.parallelsList]⟩
    · have hcalls : callPositions 0 elts ≠ [] := fun hc =>
        he (List.forall₂_nil_right_iff.mp (hc ▸ hpos))
      refine ⟨[.parallel (getTupleTargets target) (steps.map .step)], by simp [he], ?_⟩
      simp only [Stmt.tuples, hcalls, if_false, NodeDef.parallelsList, NodeDef.parallels,
        List.append_nil]
      exact .cons ⟨rfl, steps, he, rfl, hpos⟩ .nil
  all_goals
    simp only [visitAssign, pure_ok] at h
    exact ⟨[], by simp [h], .nil⟩

mutual
theorem visit_parallels : ∀ (s : Stmt) {p p' : WorkflowParser}, visit p s = .ok p' →
    ∃ new, p'.steps = p.steps ++ new ∧ List.Forall₂ ParallelOf (NodeDef.parallelsList new) s.tuples
  | .assign _ _, _, _, h => visitAssign_parallels h
  | .if_ _ body orelse, _, _, h => by
    obtain ⟨_, c, -, hc, ⟨rfl, rfl⟩ | ⟨e, -, he, rfl⟩⟩ := visit_if_ok h
    · obtain ⟨nc, hnc, hpc⟩ := visitAll_parallels body hc
      simp only [WorkflowParser.child_steps, List.nil_append] at hnc
      refine ⟨_, rfl, ?_⟩
      simpa [Stmt.tuples, Stmt.tuplesList, NodeDef.parallelsList, NodeDef.parallels, hnc] using hpc
    · obtain ⟨nc, hnc, hpc⟩ := visitAll_parallels body hc
      obtain ⟨ne, hne, hpe⟩ := visitAll_parallels orelse he
      simp only [WorkflowParser.child_steps, List.nil_append] at hnc hne
      refine ⟨_, rfl, ?_⟩
      simpa [Stmt.tuples, NodeDef.parallelsList, NodeDef.parallels, hnc, hne] using
        List.rel_append hpc hpe
  | .for_ _ _ body, _, _, h => by
    obtain ⟨_, c, -, hc, rfl⟩ := visit_for_ok h
    obtain ⟨nc, hnc, hpc⟩ := visitAll_parallels body hc
    simp only [List.nil_append] at hnc
    exact ⟨_, rfl, by simpa [Stmt.tuples, NodeDef.parallelsList, NodeDef.parallels, hnc] using hpc⟩
  | .return_ _, _, _, h => by
    rcases visitReturn_ok h with ⟨_, _, _, _, -, -, rfl⟩ | rfl
    · exact ⟨_, rfl, .nil⟩
    · exact ⟨[], by simp, .nil⟩
  | .other body, _, _, h => visitAll_parallels body h
theorem visitAll_parallels : ∀ (ss : List Stmt) {p p' : WorkflowParser}, visitAll p ss = .ok p' →
    ∃ new, p'.steps = p.steps ++ new ∧
      List.Forall₂ ParallelOf (NodeDef.parallelsList new) (Stmt.tuplesList ss)
  | [], _, _, h => by
    simp only [visitAll, pure_ok] at h
    exact ⟨[], by simp [h], .nil⟩
  | s :: ss, _, _, h => by
    obtain ⟨q, h1, h2⟩ := visitAll_cons_ok.mp h
    obtain ⟨n, hn, hpn⟩ := visit_parallels s h1
    obtain ⟨m, hm, hpm⟩ := visitAll_parallels ss h2
    exact ⟨n ++ m, by simp [hm, hn],
      by simpa only [NodeDef.parallelsList_append] using List.rel_append hpn hpm⟩
end

/-- The parallel nodes of a compiled tree, in pre-order, are the tuple assignments
with a call element, in source order, each built as `ParallelOf` says. -/
theorem parse_parallels {f : FunctionDef} {w : WorkflowDef} {preds : List (String × Predicate)}
    (h : parse f = .ok (w, preds)) :
    List.Forall₂ ParallelOf w.body.parallels (Stmt.tuplesList f.body) := by
  obtain ⟨_, p, -, hp, hr⟩ := parse_ok.mp h
  obtain ⟨new, hnew, hpar⟩ := visitAll_parallels f.body hp
  simp only [Prod.mk.injEq] at hr
  obtain ⟨rfl, -⟩ := hr
  simp only [List.nil_append] at hnew
  simpa [NodeDef.parallels, hnew] using hpar

/-- A parallel node with as many outputs as steps, step `i` a `StepDef` bound to
`outputs[i]`. -/
def ParallelExact : NodeDef → Prop
  | .parallel outputs steps =>
    1 ≤ steps.length ∧ ∃ ss : List StepDef, steps = ss.map .step ∧ ss.map StepDef.output = outputs
  | _ => True

/-- `a, b = f(), 1`. -/
def mixedTupleWorkflow : FunctionDef :=
  ⟨"w", [], [.assign (.tuple [.name "a", .name "b"])
    (.tuple [.call (.name "f") [] [], .constant (.int 1)])]⟩

theorem mixedTupleWorkflow_parallels :
    ∃ w preds, parse mixedTupleWorkflow = .ok (w, preds) ∧
      List.Forall₂ ParallelOf w.body.parallels (Stmt.tuplesList mixedTupleWorkflow.body) :=
  ⟨_, _, rfl, @parse_parallels mixedTupleWorkflow _ _ rfl⟩

theorem mixedTupleWorkflow_not_exact :
    ¬ ∀ (f : FunctionDef) (w : WorkflowDef) (preds : List (String × Predicate)),
      parse f = .ok (w, preds) → w.body.Forall ParallelExact := by
  intro h
  obtain ⟨-, ⟨⟨-, ss, hss, hout⟩, -⟩, -⟩ := h mixedTupleWorkflow _ _ rfl
  have h1 := congrArg List.length hss
  have h2 := congrArg List.length hout
  have h3 : (getTupleTargets (.tuple [.name "a", .name "b"])).length = 2 := rfl
  simp only [List.length_map, List.length_cons, List.length_nil] at h1 h2
  omega

def NodeDef.stepOutput? : NodeDef → Option String
  | .step s => some s.output
  | _ => none

def lastStepOutput (steps : List NodeDef) : Option String :=
  (steps.filterMap NodeDef.stepOutput?).getLast?

theorem findReturnVar_go (steps : List NodeDef) :
    findReturnVar.go steps = (steps.filterMap NodeDef.stepOutput?).head? := by
  induction steps with
  | nil => rfl
  | cons n ns ih =>
    cases n <;> simp only [findReturnVar.go, ih, List.filterMap_cons, NodeDef.stepOutput?]
    case step s => split <;> simp_all

theorem findReturnVar_eq (steps : List NodeDef) : findReturnVar steps = lastStepOutput steps := by
  simp [findReturnVar, findReturnVar_go, lastStepOutput, List.filterMap_reverse,
    List.head?_reverse]

theorem visitAll_return_name (p : WorkflowParser) (v : String) :
    visitAll p [.return_ (some (.name v))] = .ok p := rfl

/-- A function body ending in `return f(...)` ends its sequence with a `__return__`
step and returns it; one ending in `return v` compiles as if the `return` were not
there, and returns the output of the last top-level step. -/
theorem parse_return (name : String) (args : List Arg) (pre : List Stmt) :
    (∀ func cargs keywords w preds,
      parse ⟨name, args, pre ++ [.return_ (some (.call func cargs keywords))]⟩ = .ok (w, preds) →
      ∃ steps s, w.body = .sequence (steps ++ [.step s]) ∧ s.output = "__return__" ∧
        w.returnVar = some "__return__") ∧
    (∀ v, parse ⟨name, args, pre ++ [.return_ (some (.name v))]⟩ = parse ⟨name, args, pre⟩ ∧
      ∀ w preds, parse ⟨name, args, pre ++ [.return_ (some (.name v))]⟩ = .ok (w, preds) →
        ∃ steps, w.body = .sequence steps ∧ w.returnVar = lastStepOutput steps) := by
  refine ⟨fun func cargs keywords w preds h => ?_, fun v => ⟨?_, fun w preds h => ?_⟩⟩
  · obtain ⟨_, p, -, hp, hr⟩ := parse_ok.mp h
    simp only [visitAll_append, bind_ok, visitAll_cons_ok] at hp
    obtain ⟨q, -, p', hret, hnil⟩ := hp
    simp only [visitAll, pure_ok] at hnil
    subst hnil
    simp only [visit, visitReturn, bind_ok, pure_ok] at hret
    obtain ⟨s, -, rfl⟩ := hret
    simp only [Prod.mk.injEq] at hr
    obtain ⟨rfl, -⟩ := hr
    refine ⟨q.steps, _, rfl, rfl, ?_⟩
    simp [findReturnVar_eq, lastStepOutput, NodeDef.stepOutput?]
  · simp only [parse, visitAll_append, visitAll_return_name]
    cases visitAll {} pre <;> rfl
  · obtain ⟨_, p, -, -, hr⟩ := parse_ok.mp h
    simp only [Prod.mk.injEq] at hr
    obtain ⟨rfl, -⟩ := hr
    exact ⟨_, rfl, findReturnVar_eq _⟩

/-- `x = f(q)`, `y = g(q)`, `return x`. -/
def returnFirstWorkflow : FunctionDef :=
  ⟨"w", [⟨"q", none⟩],
    [.assign (.name "x") (.call (.name "f") [.name "q"] []),
     .assign (.name "y") (.call (.name "g") [.name "q"] []),
     .return_ (some (.name "x"))]⟩

theorem returnFirstWorkflow_returnVar :
    (parse returnFirstWorkflow).map (·.1.returnVar) = .ok (some "y") := rfl

/-- `returnFirstWorkflow` without its `return x`. -/
def assignTwiceWorkflow : FunctionDef :=
  { returnFirstWorkflow with body := returnFirstWorkflow.body.take 2 }

theorem returnFirstWorkflow_return :
    parse returnFirstWorkflow = parse assignTwiceWorkflow ∧
      ∀ w preds, parse returnFirstWorkflow = .ok (w, preds) →
        ∃ steps, w.body = .sequence steps ∧ w.returnVar = lastStepOutput steps :=
  (parse_return "w" [⟨"q", none⟩] (returnFirstWorkflow.body.take 2)).2 "x"

/-- `x = f(q)`, then `return g(x)`. -/
def returnCallWorkflow : FunctionDef :=
  ⟨"w", [⟨"q", none⟩],
    [.assign (.name "x") (.call (.name "f") [.name "q"] []),
     .return_ (some (.call (.name "g") [.name "x"] []))]⟩

theorem returnCallWorkflow_return :
    ∃ w preds, parse returnCallWorkflow = .ok (w, preds) ∧
      ∃ steps s, w.body = .sequence (steps ++ [.step s]) ∧ s.output = "__return__" ∧
        w.returnVar = some "__return__" :=
  ⟨_, _, rfl, (parse_return "w" [⟨"q", none⟩] (returnCallWorkflow.body.take 1)).1
    (.name "g") [.name "x"] [] _ _ rfl⟩

/-- A tree with its node kinds, its nesting and its steps' outputs, and nothing
else. -/
inductive Shape where
  | step (output : String)
  | parallel (steps : List Shape)
  | condition (thenBranch : Shape) (elseBranch : Option Shape)
  | loop (body : Shape)
  | sequence (steps : List Shape)

mutual
def NodeDef.shape : NodeDef → Shape
  | .step s => .step s.output
  | .parallel _ steps => .parallel (NodeDef.shapeList steps)
  | .condition _ _ t none => .condition t.shape none
  | .condition _ _ t (some e) => .condition t.shape (some e.shape)
  | .loop _ _ body => .loop body.shape
  | .sequence steps => .sequence (NodeDef.shapeList steps)
def NodeDef.shapeList : List NodeDef → List Shape
  | [] => []
  | n :: ns => n.shape :: NodeDef.shapeList ns
end

theorem NodeDef.shapeList_append (ns ms : List NodeDef) :
    NodeDef.shapeList (ns ++ ms) = NodeDef.shapeList ns ++ NodeDef.shapeList ms := by
  induction ns with
  | nil => rfl
  | cons n ns ih => simp [NodeDef.shapeList, ih]

theorem NodeDef.shapeList_steps (steps : List StepDef) :
    NodeDef.shapeList (steps.map .step) = (steps.map StepDef.output).map .step := by
  induction steps with
  | nil => rfl
  | cons s ss ih => simp [NodeDef.shapeList, NodeDef.shape, ih]

def tupleOutputs (outputs : List String) : Nat → List Expr → List String
  | _, [] => []
  | i, .call .. :: elts => outputs.getD i "" :: tupleOutputs outputs (i + 1) elts
  | i, _ :: elts => tupleOutputs outputs (i + 1) elts

mutual
/-- The nodes a statement stands for: a step for each call site that is an assigned
value, a call element of an assigned tuple or a returned value, a condition for
each `if` and a loop for each `for` holding the nodes of their bodies, and nothing
for any other statement. -/
def Python.Stmt.shape : Stmt → List Shape
  | .assign target (.call ..) => [.step (getAssignTarget target)]
  | .assign target (.tuple elts) =>
    match tupleOutputs (getTupleTargets target) 0 elts with
    | [] => []
    | outs => [.parallel (outs.map .step)]
  | .assign _ _ => []
  | .if_ _ body [] => [.condition (.sequence (Stmt.shapeList body)) none]
  | .if_ _ body orelse =>
    [.condition (.sequence (Stmt.shapeList body)) (some (.sequence (Stmt.shapeList orelse)))]
  | .for_ _ _ body => [.loop (.sequence (Stmt.shapeList body))]
  | .return_ (some (.call ..)) => [.step "__return__"]
  | .return_ _ => []
  | .other _ => []
def Python.Stmt.shapeList : List Stmt → List Shape
  | [] => []
  | s :: ss => s.shape ++ Stmt.shapeList ss
end

mutual
/-- No statement without a `visit_` method has an assignment, `if`, `for` or
`return` inside it, at any depth. -/
def Python.Stmt.Quiet : Stmt → Prop
  | .if_ _ body orelse => Stmt.QuietList body ∧ Stmt.QuietList orelse
  | .for_ _ _ body => Stmt.QuietList body
  | .other body => Stmt.Inert body
  | _ => True
def Python.Stmt.QuietList : List Stmt → Prop
  | [] => True
  | s :: ss => s.Quiet ∧ Stmt.QuietList ss
def Python.Stmt.Inert : List Stmt → Prop
  | [] => True
  | .other body :: ss => Stmt.Inert body ∧ Stmt.Inert ss
  | _ :: _ => False
end

theorem visitAll_inert : ∀ {ss : List Stmt} (p : WorkflowParser), Stmt.Inert ss →
    visitAll p ss = .ok p
  | [], _, _ => rfl
  | .other body :: ss, p, h => by
    simp only [Stmt.Inert] at h
    rw [visitAll, visit, visitAll_inert p h.1]
    exact visitAll_inert p h.2
  | .assign .. :: _, _, h | .if_ .. :: _, _, h | .for_ .. :: _, _, h
  | .return_ _ :: _, _, h => by simp [Stmt.Inert] at h

theorem parallelSteps_outputs {outputs : List String} {i : Nat} {elts : List Expr}
    {steps : List StepDef} (h : parallelSteps outputs i elts = .ok steps) :
    steps.map StepDef.output = tupleOutputs outputs i elts := by
  induction elts generalizing i steps with
  | nil =>
    simp only [parallelSteps, pure_ok] at h
    simp [← h, tupleOutputs]
  | cons e elts ih =>
    cases e
    case call func args keywords =>
      simp only [parallelSteps, bind_ok, pure_ok, getItem_ok] at h
      obtain ⟨s₀, -, o, ho, rest, hrest, rfl⟩ := h
      simp [tupleOutputs, ih hrest, List.getD_eq_getElem?_getD, ho]
    all_goals
      simpa only [parallelSteps, tupleOutputs] using ih (by simpa only [parallelSteps] using h)

theorem visitAssign_shape {p p' : WorkflowParser} {target value : Expr}
    (h : visitAssign p target value = .ok p') :
    ∃ new, p'.steps = p.steps ++ new ∧ NodeDef.shapeList new = (Stmt.assign target value).shape := by
  cases value
  case call func args keywords =>
    simp only [visitAssign, bind_ok, pure_ok] at h
    obtain ⟨s, -, rfl⟩ := h
    exact ⟨_, rfl, rfl⟩
  case tuple elts =>
    simp only [visitAssign, bind_ok, pure_ok] at h
    obtain ⟨steps, hs, rfl⟩ := h
    have ho := parallelSteps_outputs hs
    by_cases he : steps = []
    · subst he
      refine ⟨[], by simp, ?_⟩
      simp only [List.map_nil] at ho
      simp [Stmt.shape, ← ho, NodeDef.shapeList]
    · refine ⟨[.parallel (getTupleTargets target) (steps.map .step)], by simp [he], ?_⟩
      rw [Stmt.shape, ← ho]
      split
      · simp_all
      · simp [NodeDef.shapeList, NodeDef.shape, NodeDef.shapeList_steps]
  all_goals
    simp only [visitAssign, pure_ok] at h
    exact ⟨[], by simp [h], rfl⟩

theorem visitReturn_shape {p p' : WorkflowParser} {value : Option Expr}
    (h : visitReturn p value = .ok p') :
    ∃ new, p'.steps = p.steps ++ new ∧ NodeDef.shapeList new = (Stmt.return_ value).shape := by
  rcases value with _ | e
  · simp only [visitReturn, pure_ok] at h
    exact ⟨[], by simp [h], rfl⟩
  · cases e
    case call func args keywords =>
      simp only [visitReturn, bind_ok, pure_ok] at h
      obtain ⟨s, -, rfl⟩ := h
      exact ⟨_, rfl, rfl⟩
    all_goals
      simp only [visitReturn, pure_ok] at h
      exact ⟨[], by simp [h], rfl⟩

mutual
/-- Each statement adds the nodes it stands for. -/
theorem visit_shape : ∀ (s : Stmt) {p p' : WorkflowParser}, s.Quiet → visit p s = .ok p' →
    ∃ new, p'.steps = p.steps ++ new ∧ NodeDef.shapeList new = s.shape
  | .assign _ _, _, _, _, h => visitAssign_shape h
  | .if_ _ body orelse, _, _, hq, h => by
    obtain ⟨_, c, -, hc, ⟨rfl, rfl⟩ | ⟨e, ho, he, rfl⟩⟩ := visit_if_ok h
    · obtain ⟨nc, hnc, hsc⟩ := visitAll_shape body hq.1 hc
      simp only [WorkflowParser.child_steps, List.nil_append] at hnc
      refine ⟨_, rfl, ?_⟩
      simp [Stmt.shape, NodeDef.shapeList, NodeDef.shape, hnc, hsc]
    · obtain ⟨nc, hnc, hsc⟩ := visitAll_shape body hq.1 hc
      obtain ⟨ne, hne, hse⟩ := visitAll_shape orelse hq.2 he
      simp only [WorkflowParser.child_steps, List.nil_append] at hnc hne
      refine ⟨_, rfl, ?_⟩
      cases orelse with
      | nil => exact absurd rfl ho
      | cons _ _ => simp [Stmt.shape, NodeDef.shapeList, NodeDef.shape, hnc, hsc, hne, hse]
  | .for_ _ _ body, _, _, hq, h => by
    obtain ⟨_, c, -, hc, rfl⟩ := visit_for_ok h
    obtain ⟨nc, hnc, hsc⟩ := visitAll_shape body hq hc
    simp only [List.nil_append] at hnc
    exact ⟨_, rfl, by simp [Stmt.shape, NodeDef.shapeList, NodeDef.shape, hnc, hsc]⟩
  | .return_ _, _, _, _, h => visitReturn_shape h
  | .other body, p, _, hq, h => by
    rw [visit, visitAll_inert p hq, Except.ok.injEq] at h
    exact ⟨[], by simp [h], rfl⟩
theorem visitAll_shape : ∀ (ss : List Stmt) {p p' : WorkflowParser}, Stmt.QuietList ss →
    visitAll p ss = .ok p' →
    ∃ new, p'.steps = p.steps ++ new ∧ NodeDef.shapeList new = Stmt.shapeList ss
  | [], _, _, _, h => by
    simp only [visitAll, pure_ok] at h
    exact ⟨[], by simp [h], rfl⟩
  | s :: ss, _, _, hq, h => by
    obtain ⟨q, h1, h2⟩ := visitAll_cons_ok.mp h
    obtain ⟨n, hn, hsn⟩ := visit_shape s hq.1 h1
    obtain ⟨m, hm, hsm⟩ := visitAll_shape ss hq.2 h2
    exact ⟨n ++ m, by simp [hm, hn], by simp [NodeDef.shapeList_append, hsn, hsm, Stmt.shapeList]⟩
end

/-- Unless a statement without a `visit_` method has an assignment, `if`, `for` or
`return` inside it, the compiled tree has the shape of the function body. -/
theorem parse_shape {f : FunctionDef} {w : WorkflowDef} {preds : List (String × Predicate)}
    (h : parse f = .ok (w, preds)) (hq : Stmt.QuietList f.body) :
    w.body.shape = .sequence (Stmt.shapeList f.body) := by
  obtain ⟨_, p, -, hp, hr⟩ := parse_ok.mp h
  obtain ⟨new, hnew, hs⟩ := visitAll_shape f.body hq hp
  simp only [Prod.mk.injEq] at hr
  obtain ⟨rfl, -⟩ := hr
  simp only [List.nil_append] at hnew
  simp [NodeDef.shape, hnew, hs]

/-- `if cond: y = h(x)`, `else: y = k(x)`. -/
def branchWorkflow : FunctionDef :=
  ⟨"w", [⟨"x", none⟩],
    [.if_ (.name "cond") [.assign (.name "y") (.call (.name "h") [.name "x"] [])]
      [.assign (.name "y") (.call (.name "k") [.name "x"] [])]]⟩

theorem branchWorkflow_shape :
    ∃ w preds, parse branchWorkflow = .ok (w, preds) ∧ Stmt.QuietList branchWorkflow.body ∧
      w.body.shape = .sequence (Stmt.shapeList branchWorkflow.body) :=
  have hq : Stmt.QuietList branchWorkflow.body := ⟨⟨⟨trivial, trivial⟩, trivial, trivial⟩, trivial⟩
  ⟨_, _, rfl, hq, @parse_shape branchWorkflow _ _ rfl hq⟩

/-- `while c: x = f(c)`. -/
def whileWorkflow : FunctionDef :=
  ⟨"w", [⟨"c", none⟩], [.other [.assign (.name "x") (.call (.name "f") [.name "c"] [])]]⟩

theorem whileWorkflow_not_shape :
    ¬ ∀ (f : FunctionDef) (w : WorkflowDef) (preds : List (String × Predicate)),
      parse f = .ok (w, preds) → w.body.shape = .sequence (Stmt.shapeList f.body) := fun h =>
  List.cons_ne_nil _ _ (Shape.sequence.inj (h whileWorkflow _ _ rfl : Shape.sequence [.step "x"] = .sequence []))

end Restflow
