import Restflow.Decorators
import Restflow.Failure
import Restflow.Literal

/-!
# From the source to the graph

`workflow(func)` runs the parser, `to_json` and `_compile_workflow` in turn. Where the
parser completes and every constant a keyword value keeps is one `json.dumps` writes,
the wrapper's graph is the wire document of the compiled workflow (`workflow_graph`).
-/

namespace Restflow

open Python

mutual
/-- Every constant `_value_to_python` keeps from the expression is one `json.dumps`
writes; with `strict`, no infinite float. Anything it does not fold is a `str`. -/
def JsonFold (strict : Bool) : Expr → Prop
  | .constant c => c.jsonOk strict = true
  | .list elts => JsonFoldList strict elts
  | .dict items => JsonFoldItems strict items
  | _ => True
def JsonFoldList (strict : Bool) : List Expr → Prop
  | [] => True
  | e :: es => JsonFold strict e ∧ JsonFoldList strict es
def JsonFoldItems (strict : Bool) : List (Option Expr × Expr) → Prop
  | [] => True
  | (some k, v) :: rest => JsonFold strict k ∧ JsonFold strict v ∧ JsonFoldItems strict rest
  | (none, v) :: rest => JsonFold strict v ∧ JsonFoldItems strict rest
end

/-- Every keyword value of a call keeps only constants `json.dumps` writes. -/
def CallJson (strict : Bool) (keywords : List (Option String × Expr)) : Prop :=
  ∀ kw ∈ keywords, JsonFold strict kw.2

mutual
/-- `K` holds of the keywords of every call the parser turns into a step. -/
def Python.Stmt.Calls (K : List (Option String × Expr) → Prop) : Stmt → Prop
  | .assign _ (.call _ _ keywords) => K keywords
  | .assign _ (.tuple elts) => ∀ func args keywords, Expr.call func args keywords ∈ elts → K keywords
  | .if_ _ body orelse => Python.Stmt.CallsList K body ∧ Python.Stmt.CallsList K orelse
  | .for_ _ _ body => Python.Stmt.CallsList K body
  | .return_ (some (.call _ _ keywords)) => K keywords
  | .other body => Python.Stmt.CallsList K body
  | _ => True
def Python.Stmt.CallsList (K : List (Option String × Expr) → Prop) : List Stmt → Prop
  | [] => True
  | s :: ss => s.Calls K ∧ Python.Stmt.CallsList K ss
end

section Values

variable {strict : Bool}

theorem keyOk_of_jsonOk {c : Const} (h : c.jsonOk strict = true) : (PyVal.const c).keyOk = true := by
  cases c <;> simp_all [Const.jsonOk, PyVal.keyOk]

theorem jsonOkItems_insertConst {acc : List (PyVal × PyVal)} {c : Const} {v : PyVal}
    (ha : PyVal.jsonOkItems strict acc = true) (hc : (PyVal.const c).keyOk = true)
    (hv : v.jsonOk strict = true) : PyVal.jsonOkItems strict (insertConst acc c v) = true := by
  induction acc with
  | nil => simp [insertConst, PyVal.jsonOkItems, hc, hv]
  | cons e rest ih =>
    obtain ⟨k, w⟩ := e
    simp only [PyVal.jsonOkItems, Bool.and_eq_true] at ha
    cases k with
    | const d =>
      simp only [insertConst]
      split <;> simp [PyVal.jsonOkItems, ha, hv, ih ha.2]
    | list _ | dict _ => simp [PyVal.keyOk] at ha

mutual
theorem valueToPython_jsonOk : ∀ (e : Expr) {v : PyVal}, JsonFold strict e →
    valueToPython e = .ok v → v.jsonOk strict = true
  | .constant _, _, h, hv => by
    cases hv
    exact h
  | .list elts, _, h, hv => by
    obtain ⟨vs, hvs, hv⟩ := bind_ok.mp hv
    cases hv
    exact valueToPythonList_jsonOk elts h hvs
  | .dict items, _, h, hv => by
    obtain ⟨out, hout, hv⟩ := bind_ok.mp hv
    cases hv
    exact valueToPythonItems_jsonOk [] items rfl h hout
  | .name _, _, _, hv | .attribute .., _, _, hv | .call .., _, _, hv | .tuple _, _, _, hv
  | .unaryOp .., _, _, hv | .other _, _, _, hv => by
    simp only [valueToPython, map_ok] at hv
    obtain ⟨_, -, rfl⟩ := hv
    rfl
theorem valueToPythonList_jsonOk : ∀ (es : List Expr) {vs : List PyVal}, JsonFoldList strict es →
    valueToPythonList es = .ok vs → PyVal.jsonOkList strict vs = true
  | [], _, _, hvs => by
    cases hvs
    rfl
  | e :: es, _, ⟨he, hes⟩, hvs => by
    obtain ⟨v, hv, hrest⟩ := bind_ok.mp hvs
    obtain ⟨vs, htail, h⟩ := bind_ok.mp hrest
    cases h
    simp [PyVal.jsonOkList, valueToPython_jsonOk e he hv, valueToPythonList_jsonOk es hes htail]
theorem valueToPythonItems_jsonOk : ∀ (acc : List (PyVal × PyVal)) (items : List (Option Expr × Expr))
    {out : List (PyVal × PyVal)}, PyVal.jsonOkItems strict acc = true → JsonFoldItems strict items →
    valueToPythonItems acc items = .ok out → PyVal.jsonOkItems strict out = true
  | _, [], _, hacc, _, hout => by
    cases hout
    exact hacc
  | acc, (some k, v) :: rest, _, hacc, ⟨hk, hv, hr⟩, hout => by
    obtain ⟨key, hkey, hout⟩ := bind_ok.mp hout
    obtain ⟨value, hvalue, hout⟩ := bind_ok.mp hout
    obtain ⟨acc', hset, hout⟩ := bind_ok.mp hout
    obtain ⟨c, rfl, rfl⟩ := setItem_ok hset
    exact valueToPythonItems_jsonOk _ rest (jsonOkItems_insertConst hacc
      (keyOk_of_jsonOk (valueToPython_jsonOk k hk hkey)) (valueToPython_jsonOk v hv hvalue)) hr hout
  | _, (none, _) :: _, _, _, _, hout => by cases hout
end

theorem mem_dictSet {config : List (Option String × PyVal)} {k : Option String} {v : PyVal}
    {kv : Option String × PyVal} (h : kv ∈ dictSet config k v) : kv ∈ config ∨ kv.2 = v := by
  induction config with
  | nil => simp_all [dictSet]
  | cons e rest ih =>
    obtain ⟨k', w⟩ := e
    simp only [dictSet] at h
    split at h
    · rcases List.mem_cons.mp h with rfl | h
      · exact .inr rfl
      · exact .inl (List.mem_cons_of_mem _ h)
    · rcases List.mem_cons.mp h with rfl | h
      · exact .inl (List.mem_cons_self _ _)
      · exact (ih h).imp_left (List.mem_cons_of_mem _)

theorem parseKeywords_jsonOk {config cfg : List (Option String × PyVal)}
    {keywords : List (Option String × Expr)} (h : parseKeywords config keywords = .ok cfg)
    (hc : ∀ kv ∈ config, kv.2.jsonOk strict = true) (hk : CallJson strict keywords) :
    ∀ kv ∈ cfg, kv.2.jsonOk strict = true := by
  induction keywords generalizing config with
  | nil =>
    cases h
    exact hc
  | cons kw rest ih =>
    obtain ⟨arg, value⟩ := kw
    obtain ⟨v, hv, h⟩ := bind_ok.mp h
    refine ih h (fun kv hkv => ?_) fun kw hkw => hk kw (List.mem_cons_of_mem _ hkw)
    rcases mem_dictSet hkv with hkv | rfl
    · exact hc kv hkv
    · exact valueToPython_jsonOk value (hk _ (List.mem_cons_self _ _)) hv

theorem parseCall_configOk {func : Expr} {args : List Expr} {keywords : List (Option String × Expr)}
    {s : StepDef} (h : parseCall func args keywords = .ok s) (hk : CallJson strict keywords) :
    s.configOk strict = true := by
  obtain ⟨_, -, h⟩ := bind_ok.mp h
  obtain ⟨cfg, hcfg, h⟩ := bind_ok.mp h
  obtain rfl := pure_ok.mp h
  simpa [StepDef.configOk] using parseKeywords_jsonOk hcfg (by simp) hk

end Values

section Runs

variable {strict : Bool}

theorem stepDefsList_map_step (steps : List StepDef) : NodeDef.stepDefsList (steps.map .step) = steps := by
  induction steps with
  | nil => rfl
  | cons s ss ih => simp [NodeDef.stepDefsList, NodeDef.stepDefs, ih]

theorem stepDefsList_append (ns ms : List NodeDef) :
    NodeDef.stepDefsList (ns ++ ms) = NodeDef.stepDefsList ns ++ NodeDef.stepDefsList ms := by
  induction ns with
  | nil => rfl
  | cons n ns ih => simp [NodeDef.stepDefsList, ih]

/-- What a run appends: nodes whose steps all have a config `json.dumps` writes. -/
def ConfigsAppended (strict : Bool) (p p' : WorkflowParser) : Prop :=
  ∃ new, p'.steps = p.steps ++ new ∧ ∀ s ∈ NodeDef.stepDefsList new, s.configOk strict = true

theorem configsAppended_single {p : WorkflowParser} {n : NodeDef}
    (h : ∀ s ∈ n.stepDefs, s.configOk strict = true) : ConfigsAppended strict p (p.append n) :=
  ⟨[n], rfl, by simpa [NodeDef.stepDefsList] using h⟩

theorem configsAppended_sequence {q c : WorkflowParser}
    (hc : ConfigsAppended strict q c) (hq : q.steps = []) : ∀ s ∈ (NodeDef.sequence c.steps).stepDefs,
      s.configOk strict = true := by
  obtain ⟨new, hnew, hok⟩ := hc
  rw [hq, List.nil_append] at hnew
  simpa [NodeDef.stepDefs, hnew] using hok

mutual
theorem visit_configOk : ∀ (s : Stmt) {p p' : WorkflowParser}, s.Calls (CallJson strict) →
    visit p s = .ok p' → ConfigsAppended strict p p'
  | .assign target value, p, _, hk, h => by
    rcases visitAssign_ok h with ⟨_, _, _, st, rfl, hst, rfl⟩ | ⟨elts, steps, rfl, hsteps, -, rfl⟩ | rfl
    · refine configsAppended_single fun s hs => ?_
      obtain rfl : s = _ := List.mem_singleton.mp hs
      exact (parseCall_configOk hst hk : st.configOk strict = true)
    · refine configsAppended_single fun s hs => ?_
      simp only [NodeDef.stepDefs, stepDefsList_map_step] at hs
      obtain ⟨_, _, _, s₀, hm, hs₀, hs⟩ := parallelSteps_calls hsteps s hs
      have h₀ := parseCall_configOk hs₀ (hk _ _ _ hm)
      rw [hs]
      exact h₀
    · exact ⟨[], by simp, by simp [NodeDef.stepDefsList]⟩
  | .if_ _ body orelse, p, _, ⟨hb, ho⟩, h => by
    obtain ⟨_, c, -, hc, ⟨-, rfl⟩ | ⟨e, -, he, rfl⟩⟩ := visit_if_ok h
    · exact configsAppended_single (configsAppended_sequence (visitAll_configOk body hb hc) rfl)
    · refine configsAppended_single ?_
      simp only [NodeDef.stepDefs, List.forall_mem_append]
      exact ⟨configsAppended_sequence (visitAll_configOk body hb hc) rfl,
        configsAppended_sequence (visitAll_configOk orelse ho he) rfl⟩
  | .for_ _ _ body, p, _, hk, h => by
    obtain ⟨_, c, -, hc, rfl⟩ := visit_for_ok h
    exact configsAppended_single (configsAppended_sequence (visitAll_configOk body hk hc) rfl)
  | .return_ value, p, _, hk, h => by
    rcases visitReturn_ok h with ⟨_, _, _, st, rfl, hst, rfl⟩ | rfl
    · refine configsAppended_single fun s hs => ?_
      obtain rfl : s = _ := List.mem_singleton.mp hs
      exact (parseCall_configOk hst hk : st.configOk strict = true)
    · exact ⟨[], by simp, by simp [NodeDef.stepDefsList]⟩
  | .other body, _, _, hk, h => visitAll_configOk body hk h
theorem visitAll_configOk : ∀ (ss : List Stmt) {p p' : WorkflowParser},
    Stmt.CallsList (CallJson strict) ss → visitAll p ss = .ok p' → ConfigsAppended strict p p'
  | [], p, _, _, h => by
    cases h
    exact ⟨[], by simp, by simp [NodeDef.stepDefsList]⟩
  | s :: ss, _, _, ⟨hs, hss⟩, h => by
    obtain ⟨q, hq, hr⟩ := visitAll_cons_ok.mp h
    obtain ⟨n, hn, hokn⟩ := visit_configOk s hs hq
    obtain ⟨m, hm, hokm⟩ := visitAll_configOk ss hss hr
    refine ⟨n ++ m, by simp [hm, hn], ?_⟩
    rw [stepDefsList_append]
    exact List.forall_mem_append.mpr ⟨hokn, hokm⟩
end

end Runs

theorem parse_configOk {strict : Bool} {f : FunctionDef} {w : WorkflowDef}
    {preds : List (String × Predicate)} (h : parse f = .ok (w, preds))
    (hk : Stmt.CallsList (CallJson strict) f.body) : ∀ s ∈ w.body.stepDefs, s.configOk strict = true := by
  obtain ⟨_, p, -, hp, hr⟩ := parse_ok.mp h
  simp only [Prod.mk.injEq] at hr
  obtain ⟨rfl, -⟩ := hr
  obtain ⟨new, hnew, hok⟩ := visitAll_configOk f.body hk hp
  simpa [NodeDef.stepDefs, hnew] using hok

end Restflow
