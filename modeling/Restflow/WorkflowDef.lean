import Restflow.Python.Value

/-!
# The workflow definition

The dataclasses of `workflow_def.py`: the five node kinds as one inductive type, the
parameters and the whole workflow.
-/

namespace Restflow

open Python

/-- A `StepDef`; `config` is the dict `_parse_call` builds, keyed by `kw.arg`, which is
`None` for a `**kwargs` argument. -/
structure StepDef where
  name : String
  output : String
  inputs : List String := []
  config : List (Option String × PyVal) := []
  deriving Repr, Inhabited

inductive NodeDef where
  | step (s : StepDef)
  | parallel (outputs : List String) (steps : List NodeDef)
  | condition (predicateId predicateSource : String) (thenBranch : NodeDef)
      (elseBranch : Option NodeDef)
  | loop (iterVar iterable : String) (body : NodeDef)
  | sequence (steps : List NodeDef)
  deriving Repr, Inhabited

structure ParameterDef where
  name : String
  typeHint : String
  default : Option String := none
  deriving Repr, DecidableEq

structure WorkflowDef where
  name : String
  parameters : List ParameterDef
  body : NodeDef
  returnVar : Option String := none
  deriving Repr, Inhabited

mutual
def NodeDef.Forall (P : NodeDef → Prop) : NodeDef → Prop
  | .step s => P (.step s)
  | .parallel outputs steps => P (.parallel outputs steps) ∧ NodeDef.ForallList P steps
  | .condition i src t none => P (.condition i src t none) ∧ t.Forall P
  | .condition i src t (some e) => P (.condition i src t (some e)) ∧ t.Forall P ∧ e.Forall P
  | .loop v it body => P (.loop v it body) ∧ body.Forall P
  | .sequence steps => P (.sequence steps) ∧ NodeDef.ForallList P steps
def NodeDef.ForallList (P : NodeDef → Prop) : List NodeDef → Prop
  | [] => True
  | n :: ns => n.Forall P ∧ NodeDef.ForallList P ns
end

@[simp] theorem NodeDef.forallList_nil (P : NodeDef → Prop) : NodeDef.ForallList P [] := trivial

@[simp] theorem NodeDef.forallList_cons (P : NodeDef → Prop) (n : NodeDef) (ns : List NodeDef) :
    NodeDef.ForallList P (n :: ns) ↔ n.Forall P ∧ NodeDef.ForallList P ns := Iff.rfl

theorem NodeDef.forallList_append (P : NodeDef → Prop) (ns ms : List NodeDef) :
    NodeDef.ForallList P (ns ++ ms) ↔ NodeDef.ForallList P ns ∧ NodeDef.ForallList P ms := by
  induction ns with
  | nil => simp
  | cons n ns ih => simp [ih, and_assoc]

theorem NodeDef.forallList_map_step (P : NodeDef → Prop) (steps : List StepDef) :
    NodeDef.ForallList P (steps.map .step) ↔ ∀ s ∈ steps, P (.step s) := by
  induction steps with
  | nil => simp
  | cons s ss ih => simp [ih, NodeDef.Forall]

end Restflow
