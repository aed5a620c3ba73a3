import Restflow.Parser.Laws

/-!
# Keyword values

On a tree of constants, lists and dicts, `_value_to_python` agrees with
`ast.literal_eval` (`valueToPython_constTree`, `parseCall_config_constTree`); a
literal without `str` constants never meets the text of a non-literal
(`valueToPython_strFree_ne`).
-/

namespace Restflow

open Python

def malformedNode : PyError := .valueError "malformed node or string"

/-- `_convert_num`: a constant of type `int`, `float` or `complex` (not `bool`). -/
def convertNum : Expr → Except PyError Const
  | .constant (.int i) => pure (.int i)
  | .constant (.float f) => pure (.float f)
  | .constant (.complex re im) => pure (.complex re im)
  | _ => throw malformedNode

def Python.Const.neg : Const → Const
  | .int i => .int (-i)
  | .float f => .float f.neg
  | .complex re im => .complex re.neg im.neg
  | c => c

def convertSignedNum : Expr → Except PyError Const
  | .unaryOp .uadd operand => convertNum operand
  | .unaryOp .usub operand => return (← convertNum operand).neg
  | e => convertNum e

mutual
/-- `ast.literal_eval`'s `_convert` on the node kinds of this model: constants, lists,
dicts and signed numbers. Tuples are left out, as no value here is a tuple. -/
def literalEval : Expr → Except PyError PyVal
  | .constant value => pure (.const value)
  | .list elts => return .list (← literalEvalList elts)
  | .dict items => return .dict (← literalEvalItems [] items)
  | e => return .const (← convertSignedNum e)
def literalEvalList : List Expr → Except PyError (List PyVal)
  | [] => pure []
  | e :: es => do
    let v ← literalEval e
    let vs ← literalEvalList es
    pure (v :: vs)
/-- `dict(zip(map(_convert, node.keys), map(_convert, node.values)))`. -/
def literalEvalItems (acc : List (PyVal × PyVal)) :
    List (Option Expr × Expr) → Except PyError (List (PyVal × PyVal))
  | [] => pure acc
  | (some k, v) :: rest => do
    let key ← literalEval k
    let value ← literalEval v
    literalEvalItems (← setItem acc key value) rest
  | (none, _) :: _ => throw malformedNode
end

mutual
/-- Constants, and lists and dicts of such trees, with no `**` entry. -/
def IsConstTree : Expr → Prop
  | .constant _ => True
  | .list elts => IsConstTreeList elts
  | .dict items => IsConstTreeItems items
  | _ => False
def IsConstTreeList : List Expr → Prop
  | [] => True
  | e :: es => IsConstTree e ∧ IsConstTreeList es
def IsConstTreeItems : List (Option Expr × Expr) → Prop
  | [] => True
  | (some k, v) :: rest => IsConstTree k ∧ IsConstTree v ∧ IsConstTreeItems rest
  | (none, _) :: _ => False
end

def Python.Const.IsLiteral : Const → Prop
  | .pyNone | .bool _ | .int _ | .float _ | .complex .. | .str _ => True
  | .bytes _ | .ellipsis => False

def Python.Const.IsNumber : Const → Prop
  | .int _ | .float _ | .complex .. => True
  | _ => False

mutual
/-- A literal display in a keyword value: a number, string, bool or `None` constant,
a number under a unary `+` or `-`, or a list or dict display of literals. -/
def IsLiteral : Expr → Prop
  | .constant c => c.IsLiteral
  | .unaryOp .uadd (.constant c) | .unaryOp .usub (.constant c) => c.IsNumber
  | .list elts => IsLiteralList elts
  | .dict items => IsLiteralItems items
  | _ => False
def IsLiteralList : List Expr → Prop
  | [] => True
  | e :: es => IsLiteral e ∧ IsLiteralList es
def IsLiteralItems : List (Option Expr × Expr) → Prop
  | [] => True
  | (some k, v) :: rest => IsLiteral k ∧ IsLiteral v ∧ IsLiteralItems rest
  | (none, _) :: _ => False
end

mutual
theorem valueToPython_constTree : ∀ (e : Expr), IsConstTree e → valueToPython e = literalEval e
  | .constant _, _ => rfl
  | .list elts, h => by
    simp only [valueToPython, literalEval, valueToPythonList_constTree elts h]
  | .dict items, h => by
    simp only [valueToPython, literalEval, valueToPythonItems_constTree [] items h]
theorem valueToPythonList_constTree : ∀ (es : List Expr), IsConstTreeList es →
    valueToPythonList es = literalEvalList es
  | [], _ => rfl
  | e :: es, ⟨he, hes⟩ => by
    simp only [valueToPythonList, literalEvalList, valueToPython_constTree e he,
      valueToPythonList_constTree es hes]
theorem valueToPythonItems_constTree : ∀ (acc : List (PyVal × PyVal))
    (items : List (Option Expr × Expr)), IsConstTreeItems items →
    valueToPythonItems acc items = literalEvalItems acc items
  | _, [], _ => rfl
  | acc, (some k, v) :: rest, ⟨hk, hv, hr⟩ => by
    simp only [valueToPythonItems, literalEvalItems, valueToPython_constTree k hk,
      valueToPython_constTree v hv]
    congr 1; funext key; congr 1; funext value; congr 1; funext acc'
    exact valueToPythonItems_constTree acc' rest hr
end


theorem lookup_append_singleton {α β : Type} [DecidableEq α] [BEq α] [LawfulBEq α]
    (l : List (α × β)) (a k : α) (b : β) :
    (l ++ [(a, b)]).lookup k = (l.lookup k).or (if k = a then some b else none) := by
  rw [List.lookup_append]
  by_cases h : k = a <;> simp [List.lookup_cons, List.lookup_nil, h, beq_eq_false_iff_ne.mpr]

theorem parseKeywords_lookup {config cfg : List (Option String × PyVal)}
    {keywords : List (Option String × Expr)} (h : parseKeywords config keywords = .ok cfg)
    (k : Option String) :
    cfg.lookup k = match keywords.reverse.lookup k with
      | some e => (valueToPython e).toOption
      | none => config.lookup k := by
  induction keywords generalizing config with
  | nil =>
    simp only [parseKeywords, pure_ok] at h
    simp [h]
  | cons kw rest ih =>
    obtain ⟨arg, value⟩ := kw
    simp only [parseKeywords, bind_ok] at h
    obtain ⟨v, hv, hrest⟩ := h
    rw [ih hrest, List.reverse_cons, lookup_append_singleton]
    cases rest.reverse.lookup k <;> by_cases hk : k = arg <;>
      simp [dictSet_lookup, hk, hv, Except.toOption]

/-- A keyword whose value is a tree of constants, lists and dicts is stored as
`ast.literal_eval` reads that tree. -/
theorem parseCall_config_constTree {func : Expr} {args : List Expr}
    {keywords : List (Option String × Expr)} {s : StepDef} (h : parseCall func args keywords = .ok s)
    {k : String} {e : Expr} (hk : keywords.reverse.lookup (some k) = some e) (he : IsConstTree e) :
    s.config.lookup (some k) = (literalEval e).toOption := by
  simp only [parseCall, bind_ok, pure_ok] at h
  obtain ⟨_, -, cfg, hcfg, rfl⟩ := h
  rw [parseKeywords_lookup hcfg, hk]
  exact congrArg Except.toOption (valueToPython_constTree e he)

theorem listKeyword_config :
    ∃ s, parseCall (.name "f") [] [(some "k", .list [.constant (.int 1)])] = .ok s ∧
      s.config.lookup (some "k") = (literalEval (.list [.constant (.int 1)])).toOption :=
  ⟨_, rfl, @parseCall_config_constTree (.name "f") [] [(some "k", .list [.constant (.int 1)])] _ rfl
    "k" _ rfl ⟨trivial, trivial⟩⟩

theorem negativeKeyword_config :
    ¬ ∀ (func : Expr) (args : List Expr) (keywords : List (Option String × Expr)) (s : StepDef)
      (k : String) (e : Expr), parseCall func args keywords = .ok s →
      keywords.reverse.lookup (some k) = some e → IsLiteral e →
      s.config.lookup (some k) = (literalEval e).toOption := by
  intro h
  have h1 := h (.name "f") [] [(some "k", .unaryOp .usub (.constant (.int 1)))] _ "k" _ rfl rfl
    trivial
  change some (PyVal.const (.str "-1")) = some (PyVal.const (.int (-1))) at h1
  cases h1

/-- `k="x"` and `k=x`. -/
theorem strConstant_name_same :
    ¬ ∀ e₁ e₂ : Expr, IsConstTree e₁ → ¬ IsConstTree e₂ → valueToPython e₁ ≠ valueToPython e₂ :=
  fun h => h (.constant (.str "x")) (.name "x") trivial id rfl

mutual
/-- A `str` somewhere in the value: itself, a list item, a dict key or value. -/
def Python.PyVal.HasStr : PyVal → Prop
  | .const (.str _) => True
  | .const _ => False
  | .list items => PyVal.HasStrList items
  | .dict items => PyVal.HasStrItems items
def Python.PyVal.HasStrList : List PyVal → Prop
  | [] => False
  | v :: vs => v.HasStr ∨ PyVal.HasStrList vs
def Python.PyVal.HasStrItems : List (PyVal × PyVal) → Prop
  | [] => False
  | (k, v) :: rest => k.HasStr ∨ v.HasStr ∨ PyVal.HasStrItems rest
end

def Python.Const.IsStr : Const → Prop
  | .str _ => True
  | _ => False

mutual
/-- A literal without `str` constants, whose dict keys are constants. -/
def IsStrFreeLiteral : Expr → Prop
  | .constant c => ¬ c.IsStr
  | .list elts => IsStrFreeLiteralList elts
  | .dict items => IsStrFreeLiteralItems items
  | _ => False
def IsStrFreeLiteralList : List Expr → Prop
  | [] => True
  | e :: es => IsStrFreeLiteral e ∧ IsStrFreeLiteralList es
def IsStrFreeLiteralItems : List (Option Expr × Expr) → Prop
  | [] => True
  | (some (.constant c), v) :: rest => ¬ c.IsStr ∧ IsStrFreeLiteral v ∧ IsStrFreeLiteralItems rest
  | _ :: _ => False
end

/-- Two values Python takes for one dict key. -/
def Python.PyVal.SameKey : PyVal → PyVal → Prop
  | .const c, .const d => c.pyEq d = true
  | _, _ => False

def foldedKeys (items : List (Option Expr × Expr)) : List PyVal :=
  items.filterMap fun item => item.1.bind fun k => (valueToPython k).toOption

mutual
/-- No dict display, inside lists and dicts, has two keys that fold to one key. -/
def DistinctKeys : Expr → Prop
  | .list elts => DistinctKeysList elts
  | .dict items => (foldedKeys items).Pairwise (fun a b => ¬ a.SameKey b) ∧ DistinctKeysItems items
  | _ => True
def DistinctKeysList : List Expr → Prop
  | [] => True
  | e :: es => DistinctKeys e ∧ DistinctKeysList es
def DistinctKeysItems : List (Option Expr × Expr) → Prop
  | [] => True
  | (some k, v) :: rest => DistinctKeys k ∧ DistinctKeys v ∧ DistinctKeysItems rest
  | (none, v) :: rest => DistinctKeys v ∧ DistinctKeysItems rest
end

theorem PyVal.hasStrItems_append (acc : List (PyVal × PyVal)) (k v : PyVal) :
    PyVal.HasStrItems (acc ++ [(k, v)]) ↔ PyVal.HasStrItems acc ∨ k.HasStr ∨ v.HasStr := by
  induction acc with
  | nil => simp [PyVal.HasStrItems]
  | cons e rest ih =>
    obtain ⟨k', v'⟩ := e
    simp only [List.cons_append, PyVal.HasStrItems, List.append_eq, ih, or_assoc]

theorem PyVal.hasStrItems_insertConst {acc : List (PyVal × PyVal)} {c : Const} {v : PyVal}
    (h : PyVal.HasStrItems (insertConst acc c v)) :
    PyVal.HasStrItems acc ∨ (PyVal.const c).HasStr ∨ v.HasStr := by
  induction acc with
  | nil => simpa [insertConst, PyVal.HasStrItems] using h
  | cons e rest ih =>
    obtain ⟨k, w⟩ := e
    -- an entry the insertion passes over
    have passed (h : PyVal.HasStrItems ((k, w) :: insertConst rest c v)) :
        PyVal.HasStrItems ((k, w) :: rest) ∨ (PyVal.const c).HasStr ∨ v.HasStr := by
      rcases h with h | h | h
      · exact .inl (.inl h)
      · exact .inl (.inr (.inl h))
      · exact (ih h).imp_left fun h => .inr (.inr h)
    cases k with
    | const d =>
      simp only [insertConst] at h
      split at h
      · rcases h with h | h | h
        · exact .inl (.inl h)
        · exact .inr (.inr h)
        · exact .inl (.inr (.inr h))
      · exact passed h
    | list _ | dict _ => exact passed h

theorem insertConst_fresh {acc : List (PyVal × PyVal)} {c : Const} (v : PyVal)
    (h : ∀ a ∈ acc.map Prod.fst, ¬ a.SameKey (.const c)) :
    insertConst acc c v = acc ++ [(.const c, v)] := by
  induction acc with
  | nil => rfl
  | cons e rest ih =>
    obtain ⟨k, w⟩ := e
    have hr := ih fun a ha => h a (List.mem_cons_of_mem _ ha)
    cases k with
    | const d =>
      have hd : d.pyEq c = false := by simpa [PyVal.SameKey] using h (.const d) (by simp)
      simp [insertConst, hd, hr]
    | list _ | dict _ => simp [insertConst, hr]

theorem setItem_ok {acc out : List (PyVal × PyVal)} {k v : PyVal} (h : setItem acc k v = .ok out) :
    ∃ c, k = .const c ∧ out = insertConst acc c v := by
  cases k with
  | const c =>
    simp only [setItem, pure_ok] at h
    exact ⟨c, rfl, h.symm⟩
  | list _ | dict _ => cases h

mutual
theorem valueToPython_strFree : ∀ (e : Expr), IsStrFreeLiteral e →
    ∃ v, valueToPython e = .ok v ∧ ¬ v.HasStr
  | .constant c, h => ⟨_, rfl, by
      cases c <;> simp_all [IsStrFreeLiteral, PyVal.HasStr, Python.Const.IsStr]⟩
  | .list elts, h => by
    obtain ⟨vs, hvs, hs⟩ := valueToPythonList_strFree elts h
    exact ⟨.list vs, by simp [valueToPython, hvs], by simpa [PyVal.HasStr] using hs⟩
  | .dict items, h => by
    obtain ⟨out, hout, hs⟩ := valueToPythonItems_strFree [] items id h
    exact ⟨.dict out, by simp [valueToPython, hout], by simpa [PyVal.HasStr] using hs⟩
theorem valueToPythonList_strFree : ∀ (es : List Expr), IsStrFreeLiteralList es →
    ∃ vs, valueToPythonList es = .ok vs ∧ ¬ PyVal.HasStrList vs
  | [], _ => ⟨[], rfl, id⟩
  | e :: es, ⟨he, hes⟩ => by
    obtain ⟨v, hv, hsv⟩ := valueToPython_strFree e he
    obtain ⟨vs, hvs, hsvs⟩ := valueToPythonList_strFree es hes
    exact ⟨v :: vs, by simp [valueToPythonList, hv, hvs], by simp [PyVal.HasStrList, hsv, hsvs]⟩
theorem valueToPythonItems_strFree : ∀ (acc : List (PyVal × PyVal))
    (items : List (Option Expr × Expr)), ¬ PyVal.HasStrItems acc → IsStrFreeLiteralItems items →
    ∃ out, valueToPythonItems acc items = .ok out ∧ ¬ PyVal.HasStrItems out
  | acc, [], hacc, _ => ⟨acc, rfl, hacc⟩
  | acc, (some (.constant c), v) :: rest, hacc, ⟨hc, hv, hr⟩ => by
    obtain ⟨vv, hvv, hsv⟩ := valueToPython_strFree v hv
    have hins : ¬ PyVal.HasStrItems (insertConst acc c vv) := fun h => by
      rcases PyVal.hasStrItems_insertConst h with h | h | h
      · exact hacc h
      · cases c <;> simp_all [PyVal.HasStr, Python.Const.IsStr]
      · exact hsv h
    obtain ⟨out, hout, hs⟩ := valueToPythonItems_strFree _ rest hins hr
    exact ⟨out, by simpa [valueToPythonItems, hvv, setItem] using hout, hs⟩
end

mutual
theorem valueToPython_hasStr : ∀ (e : Expr) {v : PyVal}, ¬ IsConstTree e → DistinctKeys e →
    valueToPython e = .ok v → v.HasStr
  | .constant _, _, hn, _, _ => absurd trivial hn
  | .list elts, _, hn, hd, h => by
    simp only [valueToPython, bind_ok, pure_ok] at h
    obtain ⟨vs, hvs, rfl⟩ := h
    exact valueToPythonList_hasStr elts hn hd hvs
  | .dict items, _, hn, hd, h => by
    simp only [valueToPython, bind_ok, pure_ok] at h
    obtain ⟨out, hout, rfl⟩ := h
    exact valueToPythonItems_hasStr [] items (.inr hn) (by simp) hd.1 hd.2 hout
  | .name _, _, _, _, h | .attribute .., _, _, _, h | .call .., _, _, _, h | .tuple _, _, _, _, h
  | .unaryOp .., _, _, _, h | .other _, _, _, _, h => by
    simp only [valueToPython, map_ok] at h
    obtain ⟨_, -, rfl⟩ := h
    trivial
theorem valueToPythonList_hasStr : ∀ (es : List Expr) {vs : List PyVal}, ¬ IsConstTreeList es →
    DistinctKeysList es → valueToPythonList es = .ok vs → PyVal.HasStrList vs
  | [], _, hn, _, _ => absurd trivial hn
  | e :: es, _, hn, ⟨hde, hdes⟩, h => by
    simp only [valueToPythonList, bind_ok, pure_ok] at h
    obtain ⟨v, hv, vs, hvs, rfl⟩ := h
    by_cases he : IsConstTree e
    · exact .inr (valueToPythonList_hasStr es (fun h => hn ⟨he, h⟩) hdes hvs)
    · exact .inl (valueToPython_hasStr e he hde hv)
theorem valueToPythonItems_hasStr : ∀ (acc : List (PyVal × PyVal))
    (items : List (Option Expr × Expr)) {out : List (PyVal × PyVal)},
    PyVal.HasStrItems acc ∨ ¬ IsConstTreeItems items →
    (∀ a ∈ acc.map Prod.fst, ∀ b ∈ foldedKeys items, ¬ a.SameKey b) →
    (foldedKeys items).Pairwise (fun a b => ¬ a.SameKey b) → DistinctKeysItems items →
    valueToPythonItems acc items = .ok out → PyVal.HasStrItems out
  | _, [], _, hs, _, _, _, h => by
    simp only [valueToPythonItems, pure_ok] at h
    exact h ▸ hs.resolve_right (· trivial)
  | acc, (some k, v) :: rest, _, hs, hfresh, hpw, ⟨hdk, hdv, hdr⟩, h => by
    simp only [valueToPythonItems, bind_ok] at h
    obtain ⟨kv, hk, vv, hv, acc', hset, hrest⟩ := h
    obtain ⟨c, rfl, rfl⟩ := setItem_ok hset
    have hkeys : foldedKeys ((some k, v) :: rest) = .const c :: foldedKeys rest := by
      simp [foldedKeys, hk, Except.toOption]
    rw [hkeys, List.pairwise_cons] at hpw
    rw [hkeys] at hfresh
    rw [insertConst_fresh vv fun a ha => hfresh a ha _ (List.mem_cons_self _ _)] at hrest
    refine valueToPythonItems_hasStr _ rest ?_ ?_ hpw.2 hdr hrest
    · rw [PyVal.hasStrItems_append]
      by_cases hck : IsConstTree k
      · by_cases hcv : IsConstTree v
        · exact hs.imp_left .inl |>.imp_right fun hn => fun hr => hn ⟨hck, hcv, hr⟩
        · exact .inl (.inr (.inr (valueToPython_hasStr v hcv hdv hv)))
      · exact .inl (.inr (.inl (valueToPython_hasStr k hck hdk hk)))
    · intro a ha b hb
      simp only [List.map_append, List.mem_append, List.map_cons, List.map_nil,
        List.mem_singleton] at ha
      rcases ha with ha | rfl
      · exact hfresh a ha b (List.mem_cons_of_mem _ hb)
      · exact hpw.1 b hb
  | _, (none, _) :: _, _, _, _, _, _, h => by cases h
end

/-- A literal without string constants and the fold of a non-literal differ, unless
a dict display in the non-literal repeats a key. -/
theorem valueToPython_strFree_ne {e₁ e₂ : Expr} (h₁ : IsStrFreeLiteral e₁) (h₂ : ¬ IsConstTree e₂)
    (hd : DistinctKeys e₂) : valueToPython e₁ ≠ valueToPython e₂ := by
  obtain ⟨v, hv, hs⟩ := valueToPython_strFree e₁ h₁
  intro heq
  exact hs (valueToPython_hasStr e₂ h₂ hd (hv ▸ heq).symm)

theorem intList_nameList_ne :
    IsStrFreeLiteral (.list [.constant (.int 1)]) ∧ ¬ IsConstTree (.list [.name "x"]) ∧
      DistinctKeys (.list [.name "x"]) ∧
      valueToPython (.list [.constant (.int 1)]) ≠ valueToPython (.list [.name "x"]) :=
  have h₁ : IsStrFreeLiteral (.list [.constant (.int 1)]) := ⟨id, trivial⟩
  have h₂ : ¬ IsConstTree (.list [.name "x"]) := fun h => h.1
  have hd : DistinctKeys (.list [.name "x"]) := ⟨trivial, trivial⟩
  ⟨h₁, h₂, hd, valueToPython_strFree_ne h₁ h₂ hd⟩

end Restflow
