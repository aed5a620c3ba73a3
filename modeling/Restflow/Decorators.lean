import Restflow.WireFormat
import Restflow.Predicates
import Restflow.Shape

/-!
# The `workflow` decorator

`workflow(func)`: parse, `to_json`, and the development stub of `_compile_workflow`.
The registry it wraps is empty, so `_eval_predicate` raises for every id
(`workflow_evalPredicate_raises`).
-/

namespace Restflow

open Python

structure WorkflowWrapper where
  graph : String
  predicates : List (String × Predicate)

/-- `_compile_workflow` of the development stub. -/
def compileWorkflow (json : String) : String := json

def workflow (funcDef : FunctionDef) : Except PyError WorkflowWrapper := do
  let (workflowDef, predicates) ← parse funcDef
  let graph := compileWorkflow (← workflowDef.toJson)
  pure ⟨graph, predicates⟩

def WorkflowWrapper.evalPredicate (wrapper : WorkflowWrapper) (predicateId : String)
    (context : PyVal) : Except PyError Bool :=
  match wrapper.predicates.lookup predicateId with
  | none => throw (.valueError ("Unknown predicate: " ++ predicateId))
  | some predicate => pure (predicate context)

theorem workflow_ok {f : FunctionDef} {wrapper : WorkflowWrapper} :
    workflow f = .ok wrapper ↔ ∃ w preds json, parse f = .ok (w, preds) ∧ w.toJson = .ok json ∧
      wrapper = ⟨compileWorkflow json, preds⟩ := by
  simp only [workflow, bind_ok, pure_ok]
  constructor
  · rintro ⟨⟨w, preds⟩, hp, json, hj, rfl⟩
    exact ⟨w, preds, json, hp, hj, rfl⟩
  · rintro ⟨w, preds, json, hp, hj, rfl⟩
    exact ⟨(w, preds), hp, json, hj, rfl⟩

/-- Every wrapper `workflow` builds has an empty registry, so `_eval_predicate`
raises on every id. -/
theorem workflow_evalPredicate_raises {f : FunctionDef} {wrapper : WorkflowWrapper}
    (h : workflow f = .ok wrapper) (predicateId : String) (context : PyVal) :
    wrapper.evalPredicate predicateId context =
      .error (.valueError ("Unknown predicate: " ++ predicateId)) := by
  obtain ⟨w, preds, json, hp, -, rfl⟩ := workflow_ok.mp h
  obtain ⟨_, p, -, hv, hr⟩ := parse_ok.mp hp
  obtain ⟨-, -, hpred⟩ := visitAll_frame hv
  simp only [Prod.mk.injEq] at hr
  simp only [WorkflowWrapper.evalPredicate, hr.2, hpred]
  rfl

theorem ifThenLoopWorkflow_evalPredicate :
    ∃ wrapper, workflow ifThenLoopWorkflow = .ok wrapper ∧
      wrapper.evalPredicate "pred_0" (.dict []) = .error (.valueError "Unknown predicate: pred_0") :=
  ⟨_, rfl, @workflow_evalPredicate_raises ifThenLoopWorkflow _ rfl "pred_0" (.dict [])⟩

/-- `if cond: y = h(x)` / `else: y = k(x)` compiles to a condition `pred_0`, and the
wrapper cannot evaluate it. -/
theorem branchWorkflow_unknown_predicate :
    ∃ w preds wrapper, parse branchWorkflow = .ok (w, preds) ∧ workflow branchWorkflow = .ok wrapper ∧
      w.body.predicateIds = ["pred_0"] ∧ wrapper.predicates.map Prod.fst = [] ∧
      ∀ context, wrapper.evalPredicate "pred_0" context =
        .error (.valueError "Unknown predicate: pred_0") :=
  ⟨_, _, _, rfl, rfl, rfl, rfl, fun _ => rfl⟩

end Restflow
