import Restflow.Parser.Laws

/-!
# When the parser raises

`parse` raises on a call element of a tuple with no name target at its position, on
a `**d` entry or a list or dict key in a keyword value, and where `ast.unparse` meets
an int of more than 4300 digits. Everywhere else it completes (`parse_ok_of_safe`).
-/

namespace Restflow

open Python

mutual
/-- `_value_to_python` completes: no `**d` entry and no list or dict display as a
key, in any list or dict display, and every other node unparses. -/
def FoldSafe : Expr → Prop
  | .constant _ => True
  | .list elts => FoldSafeList elts
  | .dict items => FoldSafeItems items
  | e => e.intsFit = true
def FoldSafeList : List Expr → Prop
  | [] => True
  | e :: es => FoldSafe e ∧ FoldSafeList es
def FoldSafeItems : List (Option Expr × Expr) → Prop
  | [] => True
  | (some (.list _), _) :: _ | (some (.dict _), _) :: _ | (none, _) :: _ => False
  | (some k, v) :: rest => FoldSafe k ∧ FoldSafe v ∧ FoldSafeItems rest
end

def CallSafe (args : List Expr) (keywords : List (Option String × Expr)) : Prop :=
  (∀ a ∈ args, a.intsFit = true) ∧ ∀ kw ∈ keywords, FoldSafe kw.2

def TupleSafe (outputs : List String) : Nat → List Expr → Prop
  | _, [] => True
  | i, .call _ args keywords :: elts =>
    i < outputs.length ∧ CallSafe args keywords ∧ TupleSafe outputs (i + 1) elts
  | i, _ :: elts => TupleSafe outputs (i + 1) elts

mutual
/-- No statement the parser visits raises. -/
def Python.Stmt.Safe : Stmt → Prop
  | .assign _ (.call _ args keywords) => CallSafe args keywords
  | .assign target (.tuple elts) => TupleSafe (getTupleTargets target) 0 elts
  | .if_ test body orelse =>
    test.intsFit = true ∧ Python.Stmt.SafeList body ∧ Python.Stmt.SafeList orelse
  | .for_ _ iter body => iter.intsFit = true ∧ Python.Stmt.SafeList body
  | .return_ (some (.call _ args keywords)) => CallSafe args keywords
  | .other body => Python.Stmt.SafeList body
  | _ => True
def Python.Stmt.SafeList : List Stmt → Prop
  | [] => True
  | s :: ss => s.Safe ∧ Python.Stmt.SafeList ss
end

theorem valueToPython_const_of_key {k : Expr} (hl : ∀ elts, k ≠ .list elts)
    (hd : ∀ items, k ≠ .dict items) (v : PyVal) (h : valueToPython k = .ok v) : ∃ c, v = .const c := by
  cases k
  case list elts => exact absurd rfl (hl elts)
  case dict items => exact absurd rfl (hd items)
  case constant c => exact ⟨c, (pure_ok.mp h).symm⟩
  all_goals
    simp only [valueToPython, map_ok] at h
    obtain ⟨_, -, rfl⟩ := h
    exact ⟨_, rfl⟩

mutual
theorem valueToPython_safe : ∀ (e : Expr), FoldSafe e → ∃ v, valueToPython e = .ok v
  | .list elts, h => by
    obtain ⟨vs, hvs⟩ := valueToPythonList_safe elts h
    exact ⟨.list vs, by simp [valueToPython, hvs]⟩
  | .dict items, h => by
    obtain ⟨out, hout⟩ := valueToPythonItems_safe [] items h
    exact ⟨.dict out, by simp [valueToPython, hout]⟩
  | .constant _, _ => ⟨_, rfl⟩
  | .name _, h | .attribute .., h | .call .., h | .tuple _, h | .unaryOp .., h | .other _, h => by
    obtain ⟨t, ht⟩ := unparse_ok _ h
    exact ⟨_, by simp only [valueToPython, ht]; rfl⟩
theorem valueToPythonList_safe : ∀ (es : List Expr), FoldSafeList es →
    ∃ vs, valueToPythonList es = .ok vs
  | [], _ => ⟨[], rfl⟩
  | e :: es, ⟨he, hes⟩ => by
    obtain ⟨v, hv⟩ := valueToPython_safe e he
    obtain ⟨vs, hvs⟩ := valueToPythonList_safe es hes
    exact ⟨v :: vs, by simp [valueToPythonList, hv, hvs]⟩
theorem valueToPythonItems_safe : ∀ (acc : List (PyVal × PyVal)) (items : List (Option Expr × Expr)),
    FoldSafeItems items → ∃ out, valueToPythonItems acc items = .ok out
  | acc, [], _ => ⟨acc, rfl⟩
  | acc, (some k, v) :: rest, h => by
    have hl : ∀ elts, k ≠ .list elts := by rintro elts rfl; simp [FoldSafeItems] at h
    have hd : ∀ items, k ≠ .dict items := by rintro items rfl; simp [FoldSafeItems] at h
    have h' : FoldSafe k ∧ FoldSafe v ∧ FoldSafeItems rest := by
      cases k <;> first | exact absurd rfl (hl _) | exact absurd rfl (hd _) | exact h
    obtain ⟨kv, hk⟩ := valueToPython_safe k h'.1
    obtain ⟨c, rfl⟩ := valueToPython_const_of_key hl hd kv hk
    obtain ⟨vv, hv⟩ := valueToPython_safe v h'.2.1
    obtain ⟨out, hout⟩ := valueToPythonItems_safe (insertConst acc c vv) rest h'.2.2
    exact ⟨out, by simpa [valueToPythonItems, hk, hv, setItem] using hout⟩
  | _, (none, _) :: _, h => h.elim
end

theorem parseInputs_safe {args : List Expr} (h : ∀ a ∈ args, a.intsFit = true) :
    ∃ inputs, parseInputs args = .ok inputs := by
  induction args with
  | nil => exact ⟨[], rfl⟩
  | cons a args ih =>
    obtain ⟨t, ht⟩ : ∃ t, argInput a = .ok t := by
      cases a
      case name id => exact ⟨id, rfl⟩
      all_goals exact unparse_ok _ (h _ (List.mem_cons_self _ _))
    obtain ⟨ts, hts⟩ := ih fun a ha => h a (List.mem_cons_of_mem _ ha)
    exact ⟨_, by simp [parseInputs, ht, hts]; rfl⟩

theorem parseKeywords_safe (config : List (Option String × PyVal))
    {keywords : List (Option String × Expr)} (h : ∀ kw ∈ keywords, FoldSafe kw.2) :
    ∃ cfg, parseKeywords config keywords = .ok cfg := by
  induction keywords generalizing config with
  | nil => exact ⟨config, rfl⟩
  | cons kw rest ih =>
    obtain ⟨arg, value⟩ := kw
    obtain ⟨v, hv⟩ := valueToPython_safe value (h _ (List.mem_cons_self _ _))
    obtain ⟨cfg, hcfg⟩ := ih (dictSet config arg v) fun kw hkw => h kw (List.mem_cons_of_mem _ hkw)
    exact ⟨cfg, by simp [parseKeywords, hv, hcfg]⟩

theorem parseCall_safe (func : Expr) {args : List Expr} {keywords : List (Option String × Expr)}
    (h : CallSafe args keywords) : ∃ s, parseCall func args keywords = .ok s := by
  obtain ⟨inputs, hinputs⟩ := parseInputs_safe h.1
  obtain ⟨cfg, hcfg⟩ := parseKeywords_safe [] h.2
  exact ⟨_, by simp [parseCall, hinputs, hcfg]; rfl⟩

theorem parallelSteps_safe {outputs : List String} {i : Nat} {elts : List Expr}
    (h : TupleSafe outputs i elts) : ∃ steps, parallelSteps outputs i elts = .ok steps := by
  induction elts generalizing i with
  | nil => exact ⟨[], rfl⟩
  | cons e elts ih =>
    cases e
    case call func args keywords =>
      obtain ⟨hi, hk, hr⟩ := h
      obtain ⟨s, hs⟩ := parseCall_safe func hk
      obtain ⟨steps, hsteps⟩ := ih hr
      exact ⟨_, by simp [parallelSteps, hs, getItem, List.getElem?_eq_getElem hi, hsteps]; rfl⟩
    all_goals exact ih h

mutual
theorem visit_safe : ∀ (s : Stmt) (p : WorkflowParser), s.Safe → ∃ p', visit p s = .ok p'
  | .assign target value, p, h => by
    cases value
    case call func args keywords =>
      obtain ⟨st, hst⟩ := parseCall_safe func h
      exact ⟨_, by simp [visit, visitAssign, hst]; rfl⟩
    case tuple elts =>
      obtain ⟨steps, hsteps⟩ := @parallelSteps_safe (getTupleTargets target) 0 elts h
      exact ⟨_, by simp [visit, visitAssign, hsteps]; rfl⟩
    all_goals exact ⟨p, rfl⟩
  | .if_ test body orelse, p, ⟨ht, hb, ho⟩ => by
    obtain ⟨src, hsrc⟩ := unparse_ok test ht
    obtain ⟨c, hc⟩ := visitAll_safe body p.next.child hb
    obtain ⟨e, he⟩ := visitAll_safe orelse (p.next.join c).child ho
    cases orelse with
    | nil => exact ⟨_, by simp [visit, hsrc, hc]; rfl⟩
    | cons _ _ => exact ⟨_, by simp [visit, hsrc, hc, he]; rfl⟩
  | .for_ _ iter body, p, ⟨hi, h⟩ => by
    obtain ⟨src, hsrc⟩ := unparse_ok iter hi
    obtain ⟨c, hc⟩ := visitAll_safe body {} h
    exact ⟨_, by simp [visit, hsrc, hc]; rfl⟩
  | .return_ value, p, h => by
    rcases value with _ | e
    · exact ⟨p, rfl⟩
    · cases e
      case call func args keywords =>
        obtain ⟨st, hst⟩ := parseCall_safe func h
        exact ⟨_, by simp [visit, visitReturn, hst]; rfl⟩
      all_goals exact ⟨p, rfl⟩
  | .other body, p, h => visitAll_safe body p h
theorem visitAll_safe : ∀ (ss : List Stmt) (p : WorkflowParser), Stmt.SafeList ss →
    ∃ p', visitAll p ss = .ok p'
  | [], p, _ => ⟨p, rfl⟩
  | s :: ss, p, ⟨hs, hss⟩ => by
    obtain ⟨q, hq⟩ := visit_safe s p hs
    obtain ⟨r, hr⟩ := visitAll_safe ss q hss
    exact ⟨r, by simp [visitAll, hq, hr]⟩
end

/-- `x = search(q)`, `return x`. -/
def searchWorkflow : FunctionDef :=
  ⟨"w", [⟨"q", none⟩],
    [.assign (.name "x") (.call (.name "search") [.name "q"] []), .return_ (some (.name "x"))]⟩

/-- `x = f(), g()`. -/
def singleTargetTupleWorkflow : FunctionDef :=
  ⟨"w", [], [.assign (.name "x") (.tuple [.call (.name "f") [] [], .call (.name "g") [] []])]⟩

theorem singleTargetTupleWorkflow_raises :
    parse singleTargetTupleWorkflow = .error (.indexError "list index out of range") := rfl

end Restflow
