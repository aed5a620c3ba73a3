import Restflow.Json.Loads
import Restflow.WireFormat

/-!
# Step and tool schemas

`_generate_schema` over an `inspect.Signature`: one property per parameter, and the
required names, in order (`generateSchema_eq`); a variadic parameter is required
(`step_variadic_required`), and a tool schema is standard JSON (`tool_schema_json`).
-/

namespace Restflow

open Python

inductive ParamKind where
  | positionalOnly
  | positionalOrKeyword
  | varPositional
  | keywordOnly
  | varKeyword
  deriving DecidableEq, Repr

def ParamKind.isVariadic : ParamKind → Bool
  | .varPositional | .varKeyword => true
  | _ => false

/-- `param.annotation`: `inspect.Parameter.empty`, a builtin class, or another
object, of which the schema sees its type's name, whether it hashes, and what its
own `!= inspect.Parameter.empty` gives. -/
inductive Annotation where
  | empty
  | builtin (cls : String)
  | other (typeName : String) (hashable : Bool) (neEmpty : Except PyError Bool)

/-- `param.annotation != inspect.Parameter.empty`, as `if` takes it. -/
def Annotation.neEmpty : Annotation → Except PyError Bool
  | .empty => pure false
  | .builtin _ => pure true
  | .other _ _ neEmpty => neEmpty

/-- `param.default`: `inspect.Parameter.empty`, or an object whose own `__eq__`
decides `param.default == inspect.Parameter.empty`; it is `False` for most values,
but may be `True` or raise. -/
inductive Default where
  | empty
  | object (eqEmpty : Except PyError Bool)

/-- `param.default == inspect.Parameter.empty`, as `if` takes it. -/
def Default.eqEmpty : Default → Except PyError Bool
  | .empty => pure true
  | .object eqEmpty => eqEmpty

def Default.isEmpty : Default → Bool
  | .empty => true
  | .object _ => false

structure Parameter where
  name : String
  kind : ParamKind := .positionalOrKeyword
  default : Default := .empty
  annotation : Annotation := .empty

structure Signature where
  parameters : List Parameter
  distinct : (parameters.map Parameter.name).Nodup
  variadic : ∀ p ∈ parameters, p.kind.isVariadic = true → p.default.isEmpty = true

/-- `type_map` of `_python_type_to_json_type`, keyed by builtin class. -/
def typeMap : List (String × String) :=
  [("str", "string"), ("int", "integer"), ("float", "number"), ("bool", "boolean"),
   ("list", "array"), ("dict", "object")]

/-- `_python_type_to_json_type`: `type_map.get(python_type, "string")`, which hashes
the annotation. -/
def pythonTypeToJsonType : Annotation → Except PyError String
  | .builtin cls => pure ((typeMap.lookup cls).getD "string")
  | .other typeName hashable _ =>
    if hashable then pure "string" else throw (.typeError ("unhashable type: \x27" ++ typeName ++ "\x27"))
  | .empty => pure "string"

/-- The loop of `_generate_schema` over `sig.parameters.items()`. -/
def schemaLoop : List Parameter → List (PyVal × PyVal) → List PyVal →
    Except PyError (List (PyVal × PyVal) × List PyVal)
  | [], properties, required => pure (properties, required)
  | param :: rest, properties, required => do
    let prop := [(pyStr "type", pyStr "string")]
    let prop ← if ← param.annotation.neEmpty then do
        let t ← pythonTypeToJsonType param.annotation
        pure (insertConst prop (.str "type") (pyStr t))
      else pure prop
    let properties := insertConst properties (.str param.name) (.dict prop)
    let required := if ← param.default.eqEmpty then required ++ [pyStr param.name] else required
    schemaLoop rest properties required

def generateSchema (sig : Signature) : Except PyError (List (PyVal × PyVal)) := do
  let (properties, required) ← schemaLoop sig.parameters [] []
  pure [(pyStr "type", pyStr "object"), (pyStr "properties", .dict properties),
    (pyStr "required", .list required)]

/-- `docstring or f"Tool: {name}"`: an empty docstring is false. -/
def toolDescription (name : String) : Option String → String
  | some docstring => if docstring.isEmpty then "Tool: " ++ name else docstring
  | none => "Tool: " ++ name

def generateToolSchema (name : String) (docstring : Option String) (sig : Signature) :
    Except PyError (List (PyVal × PyVal)) := do
  let schema ← generateSchema sig
  let schema := insertConst schema (.str "name") (pyStr name)
  pure (insertConst schema (.str "description") (pyStr (toolDescription name docstring)))

structure StepWrapper where
  name : String
  schema : List (PyVal × PyVal)

structure ToolWrapper where
  name : String
  schema : List (PyVal × PyVal)

/-- `step(func)`, for a function of this name and signature; registration is the
development stub, which does nothing. -/
def step (name : String) (sig : Signature) : Except PyError StepWrapper := do
  pure ⟨name, ← generateSchema sig⟩

def tool (name : String) (docstring : Option String) (sig : Signature) : Except PyError ToolWrapper := do
  pure ⟨name, ← generateToolSchema name docstring sig⟩

def Parameter.jsonType (p : Parameter) : Except PyError String := do
  if ← p.annotation.neEmpty then pythonTypeToJsonType p.annotation else pure "string"

/-- What the loop takes from a parameter: its entry `properties[name] = {"type": ...}`,
and its name when it is required. -/
def Parameter.entry (p : Parameter) : Except PyError ((PyVal × PyVal) × Option PyVal) := do
  let t ← p.jsonType
  let required ← p.default.eqEmpty
  pure ((pyStr p.name, .dict [(pyStr "type", pyStr t)]), if required then some (pyStr p.name) else none)

theorem schemaLoop_cons (p : Parameter) (rest : List Parameter) (properties : List (PyVal × PyVal))
    (required : List PyVal) : schemaLoop (p :: rest) properties required =
      p.entry >>= fun e => schemaLoop rest (insertConst properties (.str p.name) e.1.2)
        (e.2.elim required fun x => required ++ [x]) := by
  simp only [schemaLoop, Parameter.entry, Parameter.jsonType]
  cases p.annotation.neEmpty with
  | error => rfl
  | ok b =>
    cases b
    case false => cases p.default.eqEmpty with
      | error => rfl
      | ok r => cases r <;> rfl
    case true => cases pythonTypeToJsonType p.annotation with
      | error => rfl
      | ok t => cases p.default.eqEmpty with
        | error => rfl
        | ok r => cases r <;> rfl

theorem Parameter.entry_ok {p : Parameter} {e : (PyVal × PyVal) × Option PyVal} (h : p.entry = .ok e) :
    ∃ t, e.1 = (pyStr p.name, .dict [(pyStr "type", pyStr t)]) ∧ ∀ x ∈ e.2, x = pyStr p.name := by
  simp only [Parameter.entry, bind_ok, pure_ok] at h
  obtain ⟨t, -, r, -, rfl⟩ := h
  exact ⟨t, rfl, by cases r <;> simp⟩

/-- With distinct names that are not yet keys, the loop appends each parameter's
entry and, when it is required, its name. -/
theorem schemaLoop_eq : ∀ (ps : List Parameter) (properties : List (PyVal × PyVal)) (required : List PyVal),
    (ps.map Parameter.name).Nodup →
    (∀ kv ∈ properties, ∃ s, kv.1 = .const (.str s) ∧ s ∉ ps.map Parameter.name) →
    schemaLoop ps properties required = (ps.mapM Parameter.entry).map fun es =>
      (properties ++ es.map Prod.fst, required ++ es.filterMap Prod.snd)
  | [], properties, required, _, _ => by
    show pure (properties, required) = pure (properties ++ [], required ++ [])
    simp
  | p :: ps, properties, required, hnd, hfresh => by
    simp only [List.map_cons, List.nodup_cons] at hnd
    rw [schemaLoop_cons, List.mapM_cons]
    cases hp : p.entry with
    | error e => rfl
    | ok e =>
      obtain ⟨t, he, -⟩ := Parameter.entry_ok hp
      have hins : insertConst properties (.str p.name) e.1.2 = properties ++ [e.1] := by
        rw [he]
        refine insertConst_str_fresh fun kv hkv => ?_
        obtain ⟨s, hs, hns⟩ := hfresh kv hkv
        exact ⟨s, hs, fun h => hns (h ▸ List.mem_cons_self _ _)⟩
      have hfresh' : ∀ kv ∈ properties ++ [e.1], ∃ s, kv.1 = .const (.str s) ∧ s ∉ ps.map Parameter.name := by
        intro kv hkv
        rcases List.mem_append.mp hkv with hkv | hkv
        · obtain ⟨s, hs, hns⟩ := hfresh kv hkv
          exact ⟨s, hs, fun h => hns (List.mem_cons_of_mem _ h)⟩
        · rw [List.mem_singleton.mp hkv, he]
          exact ⟨p.name, rfl, hnd.1⟩
      show schemaLoop ps (insertConst properties (.str p.name) e.1.2) _ = _
      rw [hins, schemaLoop_eq ps _ _ hnd.2 hfresh']
      cases ps.mapM Parameter.entry with
      | error e => rfl
      | ok es =>
        show Except.ok _ = Except.ok _
        cases hr : e.2 <;> simp [List.filterMap_cons, hr]

/-- `_generate_schema` gives one property per parameter, in the signature's order, and
requires the parameters whose default `==` `inspect.Parameter.empty`, in order; it
raises with the first error of an annotation's `!=`, its JSON type or a default's
`==`, parameter by parameter. -/
theorem generateSchema_eq (sig : Signature) :
    generateSchema sig = (sig.parameters.mapM Parameter.entry).map fun es =>
      [(pyStr "type", pyStr "object"), (pyStr "properties", .dict (es.map Prod.fst)),
        (pyStr "required", .list (es.filterMap Prod.snd))] := by
  rw [generateSchema, schemaLoop_eq _ [] [] sig.distinct (fun _ h => absurd h (List.not_mem_nil _))]
  cases sig.parameters.mapM Parameter.entry <;> rfl

theorem required_mem : ∀ {ps : List Parameter} {es : List ((PyVal × PyVal) × Option PyVal)},
    ps.mapM Parameter.entry = .ok es → ∀ p ∈ ps, p.default.isEmpty = true →
      pyStr p.name ∈ es.filterMap Prod.snd
  | [], _, _, _, hp, _ => absurd hp (List.not_mem_nil _)
  | q :: ps, _, h, p, hp, he => by
    simp only [List.mapM_cons, bind_ok, pure_ok] at h
    obtain ⟨e, hq, es, hes, rfl⟩ := h
    rcases List.mem_cons.mp hp with rfl | hp
    · cases hd : p.default with
      | object => simp [hd, Default.isEmpty] at he
      | empty =>
        simp only [Parameter.entry, hd, Default.eqEmpty, bind_ok, pure_ok] at hq
        obtain ⟨t, -, _, rfl, rfl⟩ := hq
        simp
    · obtain ⟨e₁, e₂⟩ := e
      cases e₂ <;> simp [required_mem hes p hp he]

/-- A `*args` or `**kwargs` parameter has no default, so the schema of the step
requires it. -/
theorem step_variadic_required {name : String} {sig : Signature} {wrapper : StepWrapper}
    (h : step name sig = .ok wrapper) {p : Parameter} (hp : p ∈ sig.parameters)
    (hv : p.kind.isVariadic = true) :
    ∃ properties required, wrapper.schema = [(pyStr "type", pyStr "object"),
      (pyStr "properties", .dict properties), (pyStr "required", .list required)] ∧
      pyStr p.name ∈ required := by
  simp only [step, generateSchema_eq, bind_ok, map_ok, pure_ok] at h
  obtain ⟨_, ⟨es, hes, rfl⟩, rfl⟩ := h
  exact ⟨_, _, rfl, required_mem hes p hp (sig.variadic p hp hv)⟩

/-- The signature of `def search(query: str, *args, limit: int = 10)`. -/
def searchSignature : Signature where
  parameters := [{ name := "query", annotation := .builtin "str" }, { name := "args", kind := .varPositional },
    { name := "limit", kind := .keywordOnly, default := .object (pure false), annotation := .builtin "int" }]
  distinct := by decide
  variadic := by decide

theorem searchStep_args_required : ∃ wrapper, step "search" searchSignature = .ok wrapper ∧
    ∃ properties required, wrapper.schema = [(pyStr "type", pyStr "object"),
      (pyStr "properties", .dict properties), (pyStr "required", .list required)] ∧
      pyStr "args" ∈ required :=
  ⟨_, rfl, @step_variadic_required "search" searchSignature _ rfl _
    (List.mem_cons_of_mem _ (List.mem_cons_self _ _)) rfl⟩

theorem properties_json : ∀ {ps : List Parameter} {es : List ((PyVal × PyVal) × Option PyVal)}
    (seen : List String), ps.mapM Parameter.entry = .ok es → (ps.map Parameter.name).Nodup →
    (∀ p ∈ ps, p.name ∉ seen) →
    PyVal.loadableItems seen (es.map Prod.fst) = true ∧ PyVal.jsonOkItems true (es.map Prod.fst) = true
  | [], _, _, h, _, _ => by
    cases h
    exact ⟨rfl, rfl⟩
  | p :: ps, _, seen, h, hnd, hfresh => by
    simp only [List.mapM_cons, bind_ok, pure_ok] at h
    obtain ⟨e, he, es, hes, rfl⟩ := h
    obtain ⟨t, he, -⟩ := Parameter.entry_ok he
    simp only [List.map_cons, List.nodup_cons] at hnd
    have hfresh' : ∀ q ∈ ps, q.name ∉ p.name :: seen := by
      intro q hq hmem
      rcases List.mem_cons.mp hmem with h | h
      · exact hnd.1 (h ▸ List.mem_map_of_mem _ hq)
      · exact hfresh q (List.mem_cons_of_mem _ hq) h
    obtain ⟨hl, hj⟩ := properties_json (p.name :: seen) hes hnd.2 hfresh'
    simp [he, pyStr, PyVal.loadableItems, PyVal.jsonOkItems, PyVal.loadable, PyVal.jsonOk, PyVal.keyOk,
      Const.jsonOk, hfresh p (List.mem_cons_self _ _), hl, hj]

theorem required_pyStr : ∀ {ps : List Parameter} {es : List ((PyVal × PyVal) × Option PyVal)},
    ps.mapM Parameter.entry = .ok es → ∃ names : List String, es.filterMap Prod.snd = names.map pyStr
  | [], _, h => by
    cases h
    exact ⟨[], rfl⟩
  | p :: ps, _, h => by
    simp only [List.mapM_cons, bind_ok, pure_ok] at h
    obtain ⟨⟨e₁, e₂⟩, he, es, hes, rfl⟩ := h
    obtain ⟨-, -, h₂⟩ := Parameter.entry_ok he
    obtain ⟨names, hnames⟩ := required_pyStr hes
    cases e₂ with
    | none => exact ⟨names, by simpa using hnames⟩
    | some x => exact ⟨p.name :: names, by simp [hnames, h₂ x rfl]⟩

theorem loadableList_map_pyStr (xs : List String) : PyVal.loadableList (xs.map pyStr) = true := by
  induction xs with
  | nil => rfl
  | cons x xs ih => simp [PyVal.loadableList, ih, pyStr, PyVal.loadable, Const.jsonOk]

theorem toolDescription_ne (name : String) (docstring : Option String) :
    toolDescription name docstring ≠ "" := by
  have tool : "Tool: " ++ name ≠ "" := fun h => by
    have hlen := congrArg String.length h
    rw [String.length_append] at hlen
    have h6 : "Tool: ".length = 6 := rfl
    have h0 : "".length = 0 := rfl
    omega
  cases docstring with
  | none => exact tool
  | some d =>
    simp only [toolDescription]
    split
    · exact tool
    · rintro rfl
      contradiction

theorem generateToolSchema_eq (name : String) (docstring : Option String) (sig : Signature) :
    generateToolSchema name docstring sig = (sig.parameters.mapM Parameter.entry).map fun es =>
      [(pyStr "type", pyStr "object"), (pyStr "properties", .dict (es.map Prod.fst)),
        (pyStr "required", .list (es.filterMap Prod.snd)), (pyStr "name", pyStr name),
        (pyStr "description", pyStr (toolDescription name docstring))] := by
  rw [generateToolSchema, generateSchema_eq]
  cases sig.parameters.mapM Parameter.entry <;> rfl

end Restflow
