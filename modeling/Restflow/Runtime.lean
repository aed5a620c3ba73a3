import Restflow.Decorators

/-!
# The workflow runtime

`WorkflowWrapper.run`, `resume`, `last_run`, `traces` and `_eval_predicate` over a
native module given as a parameter (`Native`), and what any sequence of these calls
leaves in `_last_run` (`runCalls_lastRun`).
-/

namespace Restflow

open Python

inductive RuntimeError where
  | py (e : PyError)
  | notImplementedError (msg : String)
  | native (msg : String)
  deriving DecidableEq, Repr

def Python.NumVal.isZero : NumVal → Bool
  | .finite m _ => m == 0
  | _ => false

/-- `bool(v)`: `None`, zero, and empty strings, bytes, lists and dicts are false. -/
def Python.PyVal.truthy : PyVal → Bool
  | .const .pyNone => false
  | .const (.bool b) => b
  | .const (.int i) => i != 0
  | .const (.float f) => !f.value.isZero
  | .const (.complex re im) => !(re.value.isZero && im.value.isZero)
  | .const (.str s) => !s.isEmpty
  | .const (.bytes b) => !b.isEmpty
  | .const .ellipsis => true
  | .list items => !items.isEmpty
  | .dict items => !items.isEmpty

/-- The native module: `σ` is the state it keeps, `R` the objects that
`_execute_workflow` and `_resume_workflow` return, with their truth value and their
`execution_id` attribute. -/
structure Native (σ R : Type) where
  executeWorkflow : String → List PyVal → List (String × PyVal) → σ → Except RuntimeError R × σ
  resumeWorkflow : String → σ → Except RuntimeError R × σ
  getTraces : PyVal → σ → Except RuntimeError PyVal × σ
  truthy : R → Bool
  executionId : R → Except RuntimeError PyVal

/-- The stubs of `decorators.py`: `_execute_workflow` and `_resume_workflow` raise
`NotImplementedError()`, and `_get_traces` returns `[]`. They return no object, so
the type of results is empty. -/
def devNative : Native Unit Empty where
  executeWorkflow _ _ _ s := (throw (.notImplementedError ""), s)
  resumeWorkflow _ s := (throw (.notImplementedError ""), s)
  getTraces _ s := (.ok (.list []), s)
  truthy := nofun
  executionId := nofun

/-- The engine's state and `self._last_run`. -/
structure Config (σ R : Type) where
  engine : σ
  lastRun : Option R := none

inductive Call where
  | run (args : List PyVal) (kwargs : List (String × PyVal))
  | resume (executionId : String)
  | lastRun
  | traces (executionId : PyVal := .const .pyNone)
  | evalPredicate (predicateId : String) (context : PyVal)

inductive Reply (R : Type) where
  | ran (result : R)
  | resumed (result : R)
  | lastRun (result : Option R)
  | traces (traces : PyVal)
  | predicate (holds : Bool)

def Reply.ran? {R : Type} : Except RuntimeError (Reply R) → Option R
  | .ok (.ran r) => some r
  | _ => none

section Calls

variable {σ R : Type} (native : Native σ R) (wrapper : WorkflowWrapper)

def WorkflowWrapper.run (args : List PyVal) (kwargs : List (String × PyVal)) (c : Config σ R) :
    Except RuntimeError R × Config σ R :=
  match native.executeWorkflow wrapper.graph args kwargs c.engine with
  | (.ok result, engine) => (.ok result, ⟨engine, some result⟩)
  | (.error e, engine) => (.error e, { c with engine })

def WorkflowWrapper.resume (executionId : String) (c : Config σ R) : Except RuntimeError R × Config σ R :=
  match native.resumeWorkflow executionId c.engine with
  | (reply, engine) => (reply, { c with engine })

/-- `execution_id or (self._last_run.execution_id if self._last_run else None)`. -/
def traceId (executionId : PyVal) (lastRun : Option R) : Except RuntimeError PyVal :=
  if executionId.truthy then .ok executionId
  else match lastRun with
    | some r => if native.truthy r then native.executionId r else .ok (.const .pyNone)
    | none => .ok (.const .pyNone)

def WorkflowWrapper.traces (executionId : PyVal) (c : Config σ R) : Except RuntimeError PyVal × Config σ R :=
  match traceId native executionId c.lastRun with
  | .error e => (.error e, c)
  | .ok eid =>
    if !eid.truthy then (.error (.py (.valueError "No execution ID available")), c)
    else match native.getTraces eid c.engine with
      | (reply, engine) => (reply, { c with engine })

def Call.apply : Call → Config σ R → Except RuntimeError (Reply R) × Config σ R
  | .run args kwargs, c =>
    let (reply, c) := wrapper.run native args kwargs c
    (reply.map .ran, c)
  | .resume executionId, c =>
    let (reply, c) := WorkflowWrapper.resume native executionId c
    (reply.map .resumed, c)
  | .lastRun, c => (pure (.lastRun c.lastRun), c)
  | .traces executionId, c =>
    let (reply, c) := WorkflowWrapper.traces native executionId c
    (reply.map .traces, c)
  | .evalPredicate predicateId context, c =>
    ((wrapper.evalPredicate predicateId context).mapError .py |>.map .predicate, c)

def runCalls : List Call → Config σ R → List (Except RuntimeError (Reply R)) × Config σ R
  | [], c => ([], c)
  | call :: calls, c =>
    let (reply, c) := call.apply native wrapper c
    let (replies, c) := runCalls calls c
    (reply :: replies, c)

theorem ran?_map_of_ne {α : Type} (x : Except RuntimeError α) (f : α → Reply R)
    (hf : ∀ a, Reply.ran? (.ok (f a)) = none) : Reply.ran? (x.map f) = none := by
  cases x with
  | error => rfl
  | ok a => exact hf a

theorem traces_lastRun (executionId : PyVal) (c : Config σ R) :
    (WorkflowWrapper.traces native executionId c).2.lastRun = c.lastRun := by
  unfold WorkflowWrapper.traces
  split
  · rfl
  · split <;> rfl

/-- A call sets `_last_run` exactly when it is a `run` that returns. -/
theorem apply_lastRun (call : Call) (c : Config σ R) :
    (call.apply native wrapper c).2.lastRun = (Reply.ran? (call.apply native wrapper c).1).or c.lastRun := by
  cases call with
  | run args kwargs =>
    simp only [Call.apply, WorkflowWrapper.run]
    split <;> rfl
  | resume executionId =>
    show c.lastRun = (Reply.ran? ((native.resumeWorkflow executionId c.engine).1.map .resumed)).or _
    rw [ran?_map_of_ne _ .resumed fun _ => rfl]
    rfl
  | lastRun => rfl
  | traces executionId =>
    show (WorkflowWrapper.traces native executionId c).2.lastRun =
      (Reply.ran? ((WorkflowWrapper.traces native executionId c).1.map .traces)).or _
    rw [ran?_map_of_ne _ .traces fun _ => rfl, traces_lastRun]
    rfl
  | evalPredicate predicateId context =>
    show c.lastRun = (Reply.ran? (((wrapper.evalPredicate predicateId context).mapError .py).map .predicate)).or _
    rw [ran?_map_of_ne _ .predicate fun _ => rfl]
    rfl

/-- Over any sequence of calls, `_last_run` is the result of the last `run` that
returned, or, when none did, what it was before. -/
theorem runCalls_lastRun (calls : List Call) (c : Config σ R) :
    (runCalls native wrapper calls c).2.lastRun =
      ((runCalls native wrapper calls c).1.filterMap Reply.ran?).getLast?.or c.lastRun := by
  induction calls generalizing c with
  | nil => rfl
  | cons call calls ih =>
    have step := apply_lastRun native wrapper call c
    simp only [runCalls, ih, step, List.filterMap_cons]
    cases Reply.ran? (call.apply native wrapper c).1 with
    | none => rfl
    | some r =>
      dsimp only
      rw [← List.singleton_append, List.getLast?_append, Option.or_assoc]
      rfl

end Calls

end Restflow
