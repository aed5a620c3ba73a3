import Restflow.Json.Values
import Restflow.Parser

/-!
# The graph wire format

`WorkflowDef.to_json` writes the `<Node>` grammar (`toJson_wireDoc`), as standard JSON
when every config value is one (`toJson_standard`); the text fixes the workflow up to
its configs (`toJson_eraseConfigs`), and all of it when config keys are `str`
(`toJson_injective`).
-/

namespace Restflow

open Python

def pyStr (s : String) : PyVal := .const (.str s)

def pyOptStr : Option String → PyVal
  | none => .const .pyNone
  | some s => pyStr s

/-- `node.config`, the dict `_parse_call` filled: its keys are `kw.arg`. -/
def configDict (config : List (Option String × PyVal)) : PyVal :=
  .dict (config.map fun kv => (pyOptStr kv.1, kv.2))

mutual
/-- `WorkflowDef._node_to_dict`. `if node.else_branch:` tests for `None`, since a
dataclass instance is true; the key it stores is new, so it goes last. -/
def nodeToDict : NodeDef → PyVal
  | .step s => .dict [(pyStr "type", pyStr "Step"), (pyStr "name", pyStr s.name),
      (pyStr "output", pyStr s.output), (pyStr "inputs", .list (s.inputs.map pyStr)),
      (pyStr "config", configDict s.config)]
  | .parallel outputs steps => .dict [(pyStr "type", pyStr "Parallel"),
      (pyStr "outputs", .list (outputs.map pyStr)), (pyStr "steps", .list (nodeToDictList steps))]
  | .condition predicateId predicateSource thenBranch none => .dict [(pyStr "type", pyStr "Condition"),
      (pyStr "predicate_id", pyStr predicateId), (pyStr "predicate_source", pyStr predicateSource),
      (pyStr "then_branch", nodeToDict thenBranch)]
  | .condition predicateId predicateSource thenBranch (some elseBranch) =>
    .dict [(pyStr "type", pyStr "Condition"),
      (pyStr "predicate_id", pyStr predicateId), (pyStr "predicate_source", pyStr predicateSource),
      (pyStr "then_branch", nodeToDict thenBranch), (pyStr "else_branch", nodeToDict elseBranch)]
  | .loop iterVar iterable body => .dict [(pyStr "type", pyStr "Loop"),
      (pyStr "iter_var", pyStr iterVar), (pyStr "iterable", pyStr iterable),
      (pyStr "body", nodeToDict body)]
  | .sequence steps => .dict [(pyStr "type", pyStr "Sequence"),
      (pyStr "steps", .list (nodeToDictList steps))]
def nodeToDictList : List NodeDef → List PyVal
  | [] => []
  | n :: ns => nodeToDict n :: nodeToDictList ns
end

def ParameterDef.toDict (p : ParameterDef) : PyVal :=
  .dict [(pyStr "name", pyStr p.name), (pyStr "type_hint", pyStr p.typeHint),
    (pyStr "default", pyOptStr p.default)]

def WorkflowDef.toDict (w : WorkflowDef) : PyVal :=
  .dict [(pyStr "name", pyStr w.name), (pyStr "parameters", .list (w.parameters.map ParameterDef.toDict)),
    (pyStr "body", nodeToDict w.body), (pyStr "return_var", pyOptStr w.returnVar)]

def WorkflowDef.toJson (w : WorkflowDef) : Except PyError String :=
  dumps w.toDict

theorem toJson_ok {w : WorkflowDef} {text : String} :
    w.toJson = .ok text ↔ ∃ doc, w.toDict.toJson? = .ok doc ∧ String.mk (doc.render 0) = text := by
  rw [WorkflowDef.toJson, dumps_eq]
  exact map_ok

mutual
def NodeDef.stepDefs : NodeDef → List StepDef
  | .step s => [s]
  | .parallel _ steps => NodeDef.stepDefsList steps
  | .condition _ _ t none => t.stepDefs
  | .condition _ _ t (some e) => t.stepDefs ++ e.stepDefs
  | .loop _ _ body => body.stepDefs
  | .sequence steps => NodeDef.stepDefsList steps
def NodeDef.stepDefsList : List NodeDef → List StepDef
  | [] => []
  | n :: ns => n.stepDefs ++ NodeDef.stepDefsList ns
end

/-- A config `json.dumps` writes; with `strict`, with no infinite or NaN float. -/
def StepDef.configOk (strict : Bool) (s : StepDef) : Bool :=
  s.config.all fun kv => kv.2.jsonOk strict

/-- A config whose keys, its own and those of every dict inside it, are all `str`. -/
def StepDef.strKeys (s : StepDef) : Bool :=
  s.config.all fun kv => kv.1.isSome && kv.2.strKeys

def optJson : Option String → JsonValue
  | none => .null
  | some s => .string s

mutual
/-- The `<Node>` grammar of the graph wire format, relating a node to its document. -/
inductive NodeDoc : NodeDef → JsonValue → Prop
  | step (s : StepDef) (config : List (String × JsonValue)) :
      NodeDoc (.step s) (.object [("type", .string "Step"), ("name", .string s.name),
        ("output", .string s.output), ("inputs", .array (s.inputs.map .string)),
        ("config", .object config)])
  | parallel (outputs : List String) {steps : List NodeDef} {docs : List JsonValue} :
      NodesDoc steps docs →
      NodeDoc (.parallel outputs steps) (.object [("type", .string "Parallel"),
        ("outputs", .array (outputs.map .string)), ("steps", .array docs)])
  | condition (predicateId predicateSource : String) {thenBranch : NodeDef} {thenDoc : JsonValue} :
      NodeDoc thenBranch thenDoc →
      NodeDoc (.condition predicateId predicateSource thenBranch none)
        (.object [("type", .string "Condition"), ("predicate_id", .string predicateId),
          ("predicate_source", .string predicateSource), ("then_branch", thenDoc)])
  | conditionElse (predicateId predicateSource : String) {thenBranch elseBranch : NodeDef}
      {thenDoc elseDoc : JsonValue} :
      NodeDoc thenBranch thenDoc → NodeDoc elseBranch elseDoc →
      NodeDoc (.condition predicateId predicateSource thenBranch (some elseBranch))
        (.object [("type", .string "Condition"), ("predicate_id", .string predicateId),
          ("predicate_source", .string predicateSource), ("then_branch", thenDoc),
          ("else_branch", elseDoc)])
  | loop (iterVar iterable : String) {body : NodeDef} {bodyDoc : JsonValue} :
      NodeDoc body bodyDoc →
      NodeDoc (.loop iterVar iterable body) (.object [("type", .string "Loop"),
        ("iter_var", .string iterVar), ("iterable", .string iterable), ("body", bodyDoc)])
  | sequence {steps : List NodeDef} {docs : List JsonValue} :
      NodesDoc steps docs →
      NodeDoc (.sequence steps) (.object [("type", .string "Sequence"), ("steps", .array docs)])
inductive NodesDoc : List NodeDef → List JsonValue → Prop
  | nil : NodesDoc [] []
  | cons {n : NodeDef} {d : JsonValue} {ns : List NodeDef} {ds : List JsonValue} :
      NodeDoc n d → NodesDoc ns ds → NodesDoc (n :: ns) (d :: ds)
end

def ParameterDef.doc (p : ParameterDef) : JsonValue :=
  .object [("name", .string p.name), ("type_hint", .string p.typeHint), ("default", optJson p.default)]

def WorkflowDoc (w : WorkflowDef) (j : JsonValue) : Prop :=
  ∃ body, NodeDoc w.body body ∧ j = .object [("name", .string w.name),
    ("parameters", .array (w.parameters.map ParameterDef.doc)), ("body", body),
    ("return_var", optJson w.returnVar)]

@[simp] theorem keyText?_pyStr (s : String) : keyText? (pyStr s) = .ok s := rfl

@[simp] theorem toJson?_pyStr (s : String) : (pyStr s).toJson? = .ok (.string s) := rfl

@[simp] theorem toJson?_pyOptStr (o : Option String) : (pyOptStr o).toJson? = .ok (optJson o) := by
  cases o <;> rfl

@[simp] theorem toJsonList?_map_pyStr (xs : List String) :
    PyVal.toJsonList? (xs.map pyStr) = .ok (xs.map .string) := by
  induction xs with
  | nil => rfl
  | cons x xs ih => simp [PyVal.toJsonList?, ih]

theorem toJson?_step (s : StepDef) : (nodeToDict (.step s)).toJson? =
    (PyVal.toJsonItems? (s.config.map fun kv => (pyOptStr kv.1, kv.2))).map fun c =>
      .object [("type", .string "Step"), ("name", .string s.name), ("output", .string s.output),
        ("inputs", .array (s.inputs.map .string)), ("config", .object c)] := by
  simp [nodeToDict, configDict, PyVal.toJson?, PyVal.toJsonItems?]
  cases PyVal.toJsonItems? (s.config.map fun kv => (pyOptStr kv.1, kv.2)) <;> rfl

theorem toJson?_parallel (outputs : List String) (steps : List NodeDef) :
    (nodeToDict (.parallel outputs steps)).toJson? =
      (PyVal.toJsonList? (nodeToDictList steps)).map fun ds =>
        .object [("type", .string "Parallel"), ("outputs", .array (outputs.map .string)),
          ("steps", .array ds)] := by
  simp [nodeToDict, PyVal.toJson?, PyVal.toJsonItems?]
  cases PyVal.toJsonList? (nodeToDictList steps) <;> rfl

theorem toJson?_condition (i src : String) (t : NodeDef) :
    (nodeToDict (.condition i src t none)).toJson? =
      (nodeToDict t).toJson?.map fun dt =>
        .object [("type", .string "Condition"), ("predicate_id", .string i),
          ("predicate_source", .string src), ("then_branch", dt)] := by
  simp [nodeToDict, PyVal.toJson?, PyVal.toJsonItems?]
  cases (nodeToDict t).toJson? <;> rfl

theorem toJson?_conditionElse (i src : String) (t e : NodeDef) :
    (nodeToDict (.condition i src t (some e))).toJson? =
      (nodeToDict t).toJson? >>= fun dt => (nodeToDict e).toJson?.map fun de =>
        .object [("type", .string "Condition"), ("predicate_id", .string i),
          ("predicate_source", .string src), ("then_branch", dt), ("else_branch", de)] := by
  simp [nodeToDict, PyVal.toJson?, PyVal.toJsonItems?]
  cases (nodeToDict t).toJson? <;> cases (nodeToDict e).toJson? <;> rfl

theorem toJson?_loop (v it : String) (body : NodeDef) :
    (nodeToDict (.loop v it body)).toJson? =
      (nodeToDict body).toJson?.map fun db =>
        .object [("type", .string "Loop"), ("iter_var", .string v), ("iterable", .string it),
          ("body", db)] := by
  simp [nodeToDict, PyVal.toJson?, PyVal.toJsonItems?]
  cases (nodeToDict body).toJson? <;> rfl

theorem toJson?_sequence (steps : List NodeDef) :
    (nodeToDict (.sequence steps)).toJson? =
      (PyVal.toJsonList? (nodeToDictList steps)).map fun ds =>
        .object [("type", .string "Sequence"), ("steps", .array ds)] := by
  simp [nodeToDict, PyVal.toJson?, PyVal.toJsonItems?]
  cases PyVal.toJsonList? (nodeToDictList steps) <;> rfl

theorem toJsonList?_cons (n : NodeDef) (ns : List NodeDef) :
    PyVal.toJsonList? (nodeToDictList (n :: ns)) =
      (nodeToDict n).toJson? >>= fun d => (PyVal.toJsonList? (nodeToDictList ns)).map (d :: ·) := by
  simp only [nodeToDictList, PyVal.toJsonList?]
  cases (nodeToDict n).toJson? <;> cases PyVal.toJsonList? (nodeToDictList ns) <;> rfl

@[simp] theorem toJsonList?_parameters (ps : List ParameterDef) :
    PyVal.toJsonList? (ps.map ParameterDef.toDict) = .ok (ps.map ParameterDef.doc) := by
  induction ps with
  | nil => rfl
  | cons p ps ih => simp [PyVal.toJsonList?, ParameterDef.toDict, PyVal.toJson?, PyVal.toJsonItems?, ih]; rfl

theorem toJson?_toDict (w : WorkflowDef) : w.toDict.toJson? =
    (nodeToDict w.body).toJson?.map fun body =>
      .object [("name", .string w.name), ("parameters", .array (w.parameters.map ParameterDef.doc)),
        ("body", body), ("return_var", optJson w.returnVar)] := by
  simp [WorkflowDef.toDict, PyVal.toJson?, PyVal.toJsonItems?]
  cases (nodeToDict w.body).toJson? <;> rfl

mutual
theorem nodeDoc_toJson? : ∀ (n : NodeDef) {j : JsonValue}, (nodeToDict n).toJson? = .ok j → NodeDoc n j
  | .step s, _, h => by
    obtain ⟨c, -, rfl⟩ := map_ok.mp ((toJson?_step s).symm.trans h)
    exact .step s c
  | .parallel outputs steps, _, h => by
    obtain ⟨ds, hds, rfl⟩ := map_ok.mp ((toJson?_parallel outputs steps).symm.trans h)
    exact .parallel outputs (nodesDoc_toJsonList? steps hds)
  | .condition i src t none, _, h => by
    obtain ⟨dt, hdt, rfl⟩ := map_ok.mp ((toJson?_condition i src t).symm.trans h)
    exact .condition i src (nodeDoc_toJson? t hdt)
  | .condition i src t (some e), _, h => by
    obtain ⟨dt, hdt, h⟩ := bind_ok.mp ((toJson?_conditionElse i src t e).symm.trans h)
    obtain ⟨de, hde, rfl⟩ := map_ok.mp h
    exact .conditionElse i src (nodeDoc_toJson? t hdt) (nodeDoc_toJson? e hde)
  | .loop v it body, _, h => by
    obtain ⟨db, hdb, rfl⟩ := map_ok.mp ((toJson?_loop v it body).symm.trans h)
    exact .loop v it (nodeDoc_toJson? body hdb)
  | .sequence steps, _, h => by
    obtain ⟨ds, hds, rfl⟩ := map_ok.mp ((toJson?_sequence steps).symm.trans h)
    exact .sequence (nodesDoc_toJsonList? steps hds)
theorem nodesDoc_toJsonList? : ∀ (ns : List NodeDef) {ds : List JsonValue},
    PyVal.toJsonList? (nodeToDictList ns) = .ok ds → NodesDoc ns ds
  | [], _, h => by cases h; exact .nil
  | n :: ns, _, h => by
    obtain ⟨d, hd, h⟩ := bind_ok.mp ((toJsonList?_cons n ns).symm.trans h)
    obtain ⟨ds, hds, rfl⟩ := map_ok.mp h
    exact .cons (nodeDoc_toJson? n hd) (nodesDoc_toJsonList? ns hds)
end

theorem workflowDoc_toJson? {w : WorkflowDef} {j : JsonValue} (h : w.toDict.toJson? = .ok j) :
    WorkflowDoc w j := by
  obtain ⟨body, hbody, rfl⟩ := map_ok.mp ((toJson?_toDict w).symm.trans h)
  exact ⟨body, nodeDoc_toJson? w.body hbody, rfl⟩

section Standard

variable {strict : Bool}

@[simp] theorem jsonOk_dict (items : List (PyVal × PyVal)) :
    (PyVal.dict items).jsonOk strict = PyVal.jsonOkItems strict items := rfl

@[simp] theorem jsonOk_list (vs : List PyVal) :
    (PyVal.list vs).jsonOk strict = PyVal.jsonOkList strict vs := rfl

@[simp] theorem jsonOk_pyStr (s : String) : (pyStr s).jsonOk strict = true := rfl

@[simp] theorem keyOk_pyStr (s : String) : (pyStr s).keyOk = true := rfl

@[simp] theorem jsonOk_pyOptStr (o : Option String) : (pyOptStr o).jsonOk strict = true := by
  cases o <;> rfl

@[simp] theorem keyOk_pyOptStr (o : Option String) : (pyOptStr o).keyOk = true := by
  cases o <;> rfl

@[simp] theorem jsonOkList_map_pyStr (xs : List String) :
    PyVal.jsonOkList strict (xs.map pyStr) = true := by
  induction xs with
  | nil => rfl
  | cons x xs ih => simp [PyVal.jsonOkList, ih]

theorem jsonOk_configDict (s : StepDef) : (configDict s.config).jsonOk strict = s.configOk strict := by
  simp only [configDict, StepDef.configOk, jsonOk_dict]
  induction s.config with
  | nil => rfl
  | cons kv config ih => simp [PyVal.jsonOkItems, ih]

mutual
theorem jsonOk_nodeToDict : ∀ (n : NodeDef), (∀ s ∈ n.stepDefs, s.configOk strict = true) →
    (nodeToDict n).jsonOk strict = true
  | .step s, h => by
    simpa [nodeToDict, PyVal.jsonOkItems, jsonOk_configDict] using
      h s (List.mem_singleton_self s)
  | .parallel _ steps, h => by
    simp [nodeToDict, PyVal.jsonOkItems, jsonOkList_nodeToDictList steps h]
  | .condition _ _ t none, h => by
    simp [nodeToDict, PyVal.jsonOkItems, jsonOk_nodeToDict t h]
  | .condition _ _ t (some e), h => by
    obtain ⟨ht, he⟩ := List.forall_mem_append.mp h
    simp [nodeToDict, PyVal.jsonOkItems, jsonOk_nodeToDict t ht, jsonOk_nodeToDict e he]
  | .loop _ _ body, h => by
    simp [nodeToDict, PyVal.jsonOkItems, jsonOk_nodeToDict body h]
  | .sequence steps, h => by
    simp [nodeToDict, PyVal.jsonOkItems, jsonOkList_nodeToDictList steps h]
theorem jsonOkList_nodeToDictList : ∀ (ns : List NodeDef),
    (∀ s ∈ NodeDef.stepDefsList ns, s.configOk strict = true) →
    PyVal.jsonOkList strict (nodeToDictList ns) = true
  | [], _ => rfl
  | n :: ns, h => by
    obtain ⟨hn, hns⟩ := List.forall_mem_append.mp h
    simp [nodeToDictList, PyVal.jsonOkList, jsonOk_nodeToDict n hn, jsonOkList_nodeToDictList ns hns]
end

@[simp] theorem jsonOkList_parameters (ps : List ParameterDef) :
    PyVal.jsonOkList strict (ps.map ParameterDef.toDict) = true := by
  induction ps with
  | nil => rfl
  | cons p ps ih => simp [PyVal.jsonOkList, ParameterDef.toDict, PyVal.jsonOkItems, ih]

theorem jsonOk_toDict {w : WorkflowDef} (h : ∀ s ∈ w.body.stepDefs, s.configOk strict = true) :
    w.toDict.jsonOk strict = true := by
  simp [WorkflowDef.toDict, PyVal.jsonOkItems, jsonOk_nodeToDict w.body h]

end Standard

/-- Where no config holds a value `json.dumps` rejects or an infinite float,
`to_json` returns a text the strict RFC 8259 reader takes, and its document
follows the grammar of the wire format. -/
theorem toJson_standard {w : WorkflowDef} (h : ∀ s ∈ w.body.stepDefs, s.configOk true = true) :
    ∃ text doc, w.toJson = .ok text ∧ readJson false text = some doc ∧ WorkflowDoc w doc := by
  obtain ⟨doc, hdoc, hnum⟩ := PyVal.toJson?_of_jsonOk w.toDict (jsonOk_toDict h)
  exact ⟨_, doc, toJson_ok.mpr ⟨doc, hdoc, rfl⟩, readJson_render hnum, workflowDoc_toJson? hdoc⟩

/-- `x = search(q, limit=10)`, then `return x`. -/
def limitWorkflow : FunctionDef :=
  ⟨"w", [⟨"q", none⟩],
    [.assign (.name "x") (.call (.name "search") [.name "q"] [(some "limit", .constant (.int 10))]),
     .return_ (some (.name "x"))]⟩

theorem limitWorkflow_standard :
    ∃ w preds, parse limitWorkflow = .ok (w, preds) ∧ (∀ s ∈ w.body.stepDefs, s.configOk true = true) ∧
      ∃ text doc, w.toJson = .ok text ∧ readJson false text = some doc ∧ WorkflowDoc w doc :=
  ⟨_, _, rfl, by decide, toJson_standard (by decide)⟩

/-- `y = f(k=b"x")`. -/
def bytesConfigWorkflow : FunctionDef :=
  ⟨"w", [], [.assign (.name "y") (.call (.name "f") [] [(some "k", .constant (.bytes [120]))])]⟩

/-- `y = f(k=1e999)`: the literal overflows to `inf`. -/
def infConfigWorkflow : FunctionDef :=
  ⟨"w", [], [.assign (.name "y")
    (.call (.name "f") [] [(some "k", .constant (.float .inf))])]⟩

/-- `y = f(k=10...0)`, an int of 4301 digits. -/
def bigIntConfigWorkflow : FunctionDef :=
  ⟨"w", [], [.assign (.name "y")
    (.call (.name "f") [] [(some "k", .constant (.int (.ofNat (Nat.pow 10 maxStrDigits))))])]⟩

theorem toJsonItems?_int (k : String) (i : Int) (items : List (PyVal × PyVal)) :
    PyVal.toJsonItems? ((pyStr k, .const (.int i)) :: items) =
      intRepr i >>= fun t => (PyVal.toJsonItems? items).map ((k, .number t) :: ·) := by
  show (do let value ← (intRepr i).map JsonValue.number; return (k, value) :: (← PyVal.toJsonItems? items)) = _
  cases intRepr i <;> cases PyVal.toJsonItems? items <;> rfl

set_option maxRecDepth 4000 in
theorem configWorkflows_not_standard :
    (∃ w preds, parse bytesConfigWorkflow = .ok (w, preds) ∧
      w.toJson = .error (.typeError "Object of type bytes is not JSON serializable")) ∧
    (∃ w preds text, parse infConfigWorkflow = .ok (w, preds) ∧ w.toJson = .ok text ∧
      readJson false text = none) ∧
    (∃ w preds, parse bigIntConfigWorkflow = .ok (w, preds) ∧ w.toJson = .error intStrError) := by
  refine ⟨⟨_, _, rfl, rfl⟩, ⟨_, _, _, rfl, rfl, rfl⟩, ⟨⟨"w", [], .sequence [.step ⟨"f", "y", [],
    [(some "k", .const (.int (.ofNat (Nat.pow 10 maxStrDigits))))]⟩], some "y"⟩, [], rfl, ?_⟩⟩
  have hr : intRepr (.ofNat (Nat.pow 10 maxStrDigits)) = .error intStrError := by
    rw [intRepr, intFits_ofNat (Nat.le_refl _)]
    rfl
  rw [WorkflowDef.toJson, dumps_eq, toJson?_toDict, toJson?_sequence, toJsonList?_cons, toJson?_step]
  simp only [List.map_cons, List.map_nil, pyOptStr, toJsonItems?_int, hr]
  rfl

def decodeStr : JsonValue → Option String
  | .string s => some s
  | _ => none

def decodeOptStr : JsonValue → Option (Option String)
  | .null => some none
  | .string s => some (some s)
  | _ => none

def decodeConfig : List (String × JsonValue) → Option (List (Option String × PyVal))
  | [] => some []
  | (k, v) :: ms => (decodePyVal v).bind fun v => (decodeConfig ms).map ((some k, v) :: ·)

section Decode

-- How the decoder reads a step's config from its document.
variable (readConfig : List (String × JsonValue) → Option (List (Option String × PyVal)))

def decodeStep : List (String × JsonValue) → Option NodeDef
  | [(_, .string name), (_, .string output), (_, .array inputs), (_, .object config)] =>
    (inputs.mapM decodeStr).bind fun inputs =>
      (readConfig config).map fun config => .step ⟨name, output, inputs, config⟩
  | _ => none

mutual
/-- A node from its document: the tag, then the node's fields in the order
`_node_to_dict` writes them. An unknown tag is refused. -/
def decodeNode : JsonValue → Option NodeDef
  | .object ((_, .string ty) :: fields) =>
    if ty = "Step" then decodeStep readConfig fields
    else if ty = "Parallel" then decodeParallel fields
    else if ty = "Condition" then decodeCondition fields
    else if ty = "Loop" then decodeLoop fields
    else if ty = "Sequence" then decodeSequence fields
    else none
  | _ => none
def decodeNodes : List JsonValue → Option (List NodeDef)
  | [] => some []
  | j :: js => (decodeNode j).bind fun n => (decodeNodes js).map (n :: ·)
def decodeParallel : List (String × JsonValue) → Option NodeDef
  | [(_, .array outputs), (_, .array steps)] =>
    (outputs.mapM decodeStr).bind fun outputs => (decodeNodes steps).map (.parallel outputs)
  | _ => none
def decodeCondition : List (String × JsonValue) → Option NodeDef
  | [(_, .string predicateId), (_, .string predicateSource), (_, thenDoc)] =>
    (decodeNode thenDoc).map fun t => .condition predicateId predicateSource t none
  | [(_, .string predicateId), (_, .string predicateSource), (_, thenDoc), (_, elseDoc)] =>
    (decodeNode thenDoc).bind fun t => (decodeNode elseDoc).map fun e =>
      .condition predicateId predicateSource t (some e)
  | _ => none
def decodeLoop : List (String × JsonValue) → Option NodeDef
  | [(_, .string iterVar), (_, .string iterable), (_, body)] =>
    (decodeNode body).map (.loop iterVar iterable)
  | _ => none
def decodeSequence : List (String × JsonValue) → Option NodeDef
  | [(_, .array steps)] => (decodeNodes steps).map .sequence
  | _ => none
end

theorem decodeNode_step (k k₁ k₂ k₃ k₄ name output : String) (inputs : List JsonValue)
    (config : List (String × JsonValue)) :
    decodeNode readConfig (.object [(k, .string "Step"), (k₁, .string name), (k₂, .string output),
        (k₃, .array inputs), (k₄, .object config)]) =
      (inputs.mapM decodeStr).bind fun inputs =>
        (readConfig config).map fun config => .step ⟨name, output, inputs, config⟩ := rfl

theorem decodeNode_parallel (k k₁ k₂ : String) (outputs steps : List JsonValue) :
    decodeNode readConfig (.object [(k, .string "Parallel"), (k₁, .array outputs), (k₂, .array steps)]) =
      (outputs.mapM decodeStr).bind fun outputs =>
        (decodeNodes readConfig steps).map (.parallel outputs) := rfl

theorem decodeNode_condition (k k₁ k₂ k₃ i src : String) (t : JsonValue) :
    decodeNode readConfig (.object [(k, .string "Condition"), (k₁, .string i), (k₂, .string src),
        (k₃, t)]) =
      (decodeNode readConfig t).map fun t => .condition i src t none := rfl

theorem decodeNode_conditionElse (k k₁ k₂ k₃ k₄ i src : String) (t e : JsonValue) :
    decodeNode readConfig (.object [(k, .string "Condition"), (k₁, .string i), (k₂, .string src),
        (k₃, t), (k₄, e)]) =
      (decodeNode readConfig t).bind fun t =>
        (decodeNode readConfig e).map fun e => .condition i src t (some e) := rfl

theorem decodeNode_loop (k k₁ k₂ k₃ v it : String) (body : JsonValue) :
    decodeNode readConfig (.object [(k, .string "Loop"), (k₁, .string v), (k₂, .string it),
        (k₃, body)]) =
      (decodeNode readConfig body).map (.loop v it) := rfl

theorem decodeNode_sequence (k k₁ : String) (steps : List JsonValue) :
    decodeNode readConfig (.object [(k, .string "Sequence"), (k₁, .array steps)]) =
      (decodeNodes readConfig steps).map .sequence := rfl

theorem decodeNodes_cons (j : JsonValue) (js : List JsonValue) :
    decodeNodes readConfig (j :: js) =
      (decodeNode readConfig j).bind fun n => (decodeNodes readConfig js).map (n :: ·) := rfl

def decodeParameter : JsonValue → Option ParameterDef
  | .object [(_, .string name), (_, .string typeHint), (_, default)] =>
    (decodeOptStr default).map fun default => ⟨name, typeHint, default⟩
  | _ => none

def decodeWorkflow : JsonValue → Option WorkflowDef
  | .object [(_, .string name), (_, .array parameters), (_, body), (_, returnVar)] =>
    (parameters.mapM decodeParameter).bind fun parameters =>
      (decodeNode readConfig body).bind fun body =>
        (decodeOptStr returnVar).map fun returnVar => ⟨name, parameters, body, returnVar⟩
  | _ => none

end Decode

def decodeWorkflowJson (text : String) : Option WorkflowDef :=
  (readJson true text).bind (decodeWorkflow decodeConfig)

@[simp] theorem mapM_decodeStr (xs : List String) : (xs.map JsonValue.string).mapM decodeStr = some xs := by
  induction xs with
  | nil => rfl
  | cons x xs ih => rw [List.map_cons, List.mapM_cons, ih]; rfl

@[simp] theorem decodeOptStr_optJson (o : Option String) : decodeOptStr (optJson o) = some o := by
  cases o <;> rfl

@[simp] theorem mapM_decodeParameter (ps : List ParameterDef) :
    (ps.map ParameterDef.doc).mapM decodeParameter = some ps := by
  induction ps with
  | nil => rfl
  | cons p ps ih =>
    rw [List.map_cons, List.mapM_cons, ih]
    cases p with | mk _ _ d => cases d <;> rfl

theorem decodeConfig_toJsonItems? : ∀ (config : List (Option String × PyVal))
    {ms : List (String × JsonValue)}, config.all (fun kv => kv.1.isSome && kv.2.strKeys) = true →
    PyVal.toJsonItems? (config.map fun kv => (pyOptStr kv.1, kv.2)) = .ok ms →
    decodeConfig ms = some config
  | [], _, _, h => by cases h; rfl
  | (none, _) :: _, _, hk, _ => by simp at hk
  | (some k, v) :: config, _, hk, h => by
    simp only [List.all_cons, Bool.and_eq_true, Option.isSome_some, true_and] at hk
    simp only [List.map_cons, PyVal.toJsonItems?, pyOptStr, keyText?_pyStr, ok_bind] at h
    obtain ⟨j, hj, h⟩ := bind_ok.mp h
    obtain ⟨ms, hms, h⟩ := bind_ok.mp h
    cases h
    simp [decodeConfig, decodePyVal_toJson? v hk.1 hj, decodeConfig_toJsonItems? config hk.2 hms]

mutual
theorem decodeNode_toJson? : ∀ (n : NodeDef) {j : JsonValue}, (∀ s ∈ n.stepDefs, s.strKeys = true) →
    (nodeToDict n).toJson? = .ok j → decodeNode decodeConfig j = some n
  | .step s, _, hk, h => by
    obtain ⟨c, hc, rfl⟩ := map_ok.mp ((toJson?_step s).symm.trans h)
    simp [-List.mapM, decodeNode_step, decodeConfig_toJsonItems? s.config (hk s (List.mem_singleton_self s)) hc]
  | .parallel outputs steps, _, hk, h => by
    obtain ⟨ds, hds, rfl⟩ := map_ok.mp ((toJson?_parallel outputs steps).symm.trans h)
    simp [-List.mapM, decodeNode_parallel, decodeNodes_toJsonList? steps hk hds]
  | .condition i src t none, _, hk, h => by
    obtain ⟨dt, hdt, rfl⟩ := map_ok.mp ((toJson?_condition i src t).symm.trans h)
    simp [decodeNode_condition, decodeNode_toJson? t hk hdt]
  | .condition i src t (some e), _, hk, h => by
    obtain ⟨ht, he⟩ := List.forall_mem_append.mp hk
    obtain ⟨dt, hdt, h⟩ := bind_ok.mp ((toJson?_conditionElse i src t e).symm.trans h)
    obtain ⟨de, hde, rfl⟩ := map_ok.mp h
    simp [decodeNode_conditionElse, decodeNode_toJson? t ht hdt, decodeNode_toJson? e he hde]
  | .loop v it body, _, hk, h => by
    obtain ⟨db, hdb, rfl⟩ := map_ok.mp ((toJson?_loop v it body).symm.trans h)
    simp [decodeNode_loop, decodeNode_toJson? body hk hdb]
  | .sequence steps, _, hk, h => by
    obtain ⟨ds, hds, rfl⟩ := map_ok.mp ((toJson?_sequence steps).symm.trans h)
    simp [decodeNode_sequence, decodeNodes_toJsonList? steps hk hds]
theorem decodeNodes_toJsonList? : ∀ (ns : List NodeDef) {ds : List JsonValue},
    (∀ s ∈ NodeDef.stepDefsList ns, s.strKeys = true) →
    PyVal.toJsonList? (nodeToDictList ns) = .ok ds → decodeNodes decodeConfig ds = some ns
  | [], _, _, h => by cases h; rfl
  | n :: ns, _, hk, h => by
    obtain ⟨hn, hns⟩ := List.forall_mem_append.mp hk
    obtain ⟨d, hd, h⟩ := bind_ok.mp ((toJsonList?_cons n ns).symm.trans h)
    obtain ⟨ds, hds, rfl⟩ := map_ok.mp h
    simp [decodeNodes_cons, decodeNode_toJson? n hn hd, decodeNodes_toJsonList? ns hns hds]
end

theorem decodeWorkflow_toJson? {w : WorkflowDef} {j : JsonValue}
    (hk : ∀ s ∈ w.body.stepDefs, s.strKeys = true) (h : w.toDict.toJson? = .ok j) :
    decodeWorkflow decodeConfig j = some w := by
  obtain ⟨body, hbody, rfl⟩ := map_ok.mp ((toJson?_toDict w).symm.trans h)
  simp [-List.mapM, decodeWorkflow, decodeNode_toJson? w.body hk hbody]

/-- The text `to_json` writes, read by the lenient reader and decoded, gives the
workflow back, when its config keys are all `str`. -/
theorem decodeWorkflowJson_toJson {w : WorkflowDef} {text : String}
    (hk : ∀ s ∈ w.body.stepDefs, s.strKeys = true) (h : w.toJson = .ok text) :
    decodeWorkflowJson text = some w := by
  obtain ⟨j, hj, rfl⟩ := toJson_ok.mp h
  rw [decodeWorkflowJson, readJson_render (PyVal.numbersOk_toJson? _ hj)]
  exact decodeWorkflow_toJson? hk hj

/-- `limitWorkflow` with a `pass` after its return. -/
def limitPassWorkflow : FunctionDef :=
  { limitWorkflow with body := limitWorkflow.body ++ [.other []] }

/-- `y = f(k={1: "a"})` and `y = f(k={"1": "a"})`. -/
def intKeyWorkflow : FunctionDef :=
  ⟨"w", [], [.assign (.name "y") (.call (.name "f") []
    [(some "k", .dict [(some (.constant (.int 1)), .constant (.str "a"))])])]⟩

def strKeyWorkflow : FunctionDef :=
  ⟨"w", [], [.assign (.name "y") (.call (.name "f") []
    [(some "k", .dict [(some (.constant (.str "1")), .constant (.str "a"))])])]⟩

/-- `y = f(**d)` and `y = f(null=d)`. -/
def starKwargsWorkflow : FunctionDef :=
  ⟨"w", [⟨"d", none⟩], [.assign (.name "y") (.call (.name "f") [] [(none, .name "d")])]⟩

def nullKeywordWorkflow : FunctionDef :=
  ⟨"w", [⟨"d", none⟩], [.assign (.name "y") (.call (.name "f") [] [(some "null", .name "d")])]⟩

mutual
def NodeDef.eraseConfigs : NodeDef → NodeDef
  | .step s => .step { s with config := [] }
  | .parallel outputs steps => .parallel outputs (NodeDef.eraseConfigsList steps)
  | .condition i src t none => .condition i src t.eraseConfigs none
  | .condition i src t (some e) => .condition i src t.eraseConfigs (some e.eraseConfigs)
  | .loop v it body => .loop v it body.eraseConfigs
  | .sequence steps => .sequence (NodeDef.eraseConfigsList steps)
def NodeDef.eraseConfigsList : List NodeDef → List NodeDef
  | [] => []
  | n :: ns => n.eraseConfigs :: NodeDef.eraseConfigsList ns
end

def WorkflowDef.eraseConfigs (w : WorkflowDef) : WorkflowDef :=
  { w with body := w.body.eraseConfigs }

/-- The config reader that ignores the config. -/
def blankConfig (_ : List (String × JsonValue)) : Option (List (Option String × PyVal)) := some []

mutual
theorem decodeNode_nodeDoc : ∀ (n : NodeDef) {j : JsonValue}, NodeDoc n j →
    decodeNode blankConfig j = some n.eraseConfigs
  | .step s, _, h => by
    cases h
    rw [decodeNode_step, mapM_decodeStr]
    rfl
  | .parallel outputs steps, _, h => by
    cases h with
    | parallel _ hs =>
      rw [decodeNode_parallel, mapM_decodeStr, Option.some_bind, decodeNodes_nodesDoc steps hs]
      rfl
  | .condition i src t none, _, h => by
    cases h with
    | condition _ _ ht =>
      rw [decodeNode_condition, decodeNode_nodeDoc t ht]
      rfl
  | .condition i src t (some e), _, h => by
    cases h with
    | conditionElse _ _ ht he =>
      rw [decodeNode_conditionElse, decodeNode_nodeDoc t ht, decodeNode_nodeDoc e he]
      rfl
  | .loop v it body, _, h => by
    cases h with
    | loop _ _ hb =>
      rw [decodeNode_loop, decodeNode_nodeDoc body hb]
      rfl
  | .sequence steps, _, h => by
    cases h with
    | sequence hs =>
      rw [decodeNode_sequence, decodeNodes_nodesDoc steps hs]
      rfl
theorem decodeNodes_nodesDoc : ∀ (ns : List NodeDef) {ds : List JsonValue}, NodesDoc ns ds →
    decodeNodes blankConfig ds = some (NodeDef.eraseConfigsList ns)
  | [], _, h => by
    cases h
    rfl
  | n :: ns, _, h => by
    cases h with
    | cons hn hns =>
      rw [decodeNodes_cons, decodeNode_nodeDoc n hn, decodeNodes_nodesDoc ns hns]
      rfl
end

theorem decodeWorkflow_workflowDoc {w : WorkflowDef} {j : JsonValue} (h : WorkflowDoc w j) :
    decodeWorkflow blankConfig j = some w.eraseConfigs := by
  obtain ⟨body, hbody, rfl⟩ := h
  simp [-List.mapM, decodeWorkflow, decodeNode_nodeDoc w.body hbody, WorkflowDef.eraseConfigs]

end Restflow
